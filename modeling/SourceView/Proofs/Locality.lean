import SourceView.Proofs.Conceal
import SourceView.Proofs.Joining

/-! Hiding in the parts of a join. What is hidden in one part has no effect on the other, so hiding in
the parts and joining what is left comes to the same as joining the parts and hiding in the whole. The
second part begins in the whole where its separators have woken up. -/
namespace SourceView

namespace Token

theorem totalWidth_attach (token : Token) (rest : List Token) :
    totalWidth (attach token rest) = token.width + totalWidth rest := by
  unfold attach
  split
  · next a b tail =>
      split
      · simp [totalWidth, width_excerpt, Excerpt.append, Nat.add_assoc]
      · rfl
  · simp [totalWidth, width_gap]
  · rfl

theorem totalWidth_fuse (tokens : List Token) : totalWidth (fuse tokens) = totalWidth tokens := by
  induction tokens with
  | nil => rfl
  | cons token rest ih =>
      show totalWidth (attach token (fuse rest)) = _
      rw [totalWidth_attach, ih, totalWidth]

theorem totalWidth_effective (tokens : List Token) :
    totalWidth (effective tokens) = totalWidth tokens := by
  induction tokens with
  | nil => rfl
  | cons token rest ih =>
      rw [effective_cons]
      split
      · rw [totalWidth, totalWidth, ih]
      · next h =>
          have hWidth : token.width = 0 := by
            cases token with
            | gap g => rfl
            | separator s => simp [isEmptyExcerpt, isIdle] at h
            | excerpt e => simpa [isEmptyExcerpt, isIdle, width_excerpt] using h
          rw [ih, totalWidth, hWidth, Nat.zero_add]

theorem effective_effective (tokens : List Token) :
    effective (effective tokens) = effective tokens :=
  effective_eq_self fun _ hToken => (mem_effective.1 hToken).2

/-- A canonical sequence without its idle gap is canonical. -/
theorem Canonical.effective {tokens : List Token} (h : Canonical tokens) :
    Canonical (effective tokens) := by
  rcases h.cases with hAll | ⟨g, rest, rfl, hIdle, hSeparators, -⟩
  · rwa [hAll]
  · have hKept : Token.effective rest = rest := by
      apply effective_eq_self
      intro token hToken
      have hSeparator := hSeparators token hToken
      cases token with
      | separator s => exact ⟨rfl, rfl⟩
      | gap g => cases hSeparator
      | excerpt e => cases hSeparator
    have hKnown : g.unknown = false := by
      simp only [isIdle, Bool.and_eq_true, Bool.not_eq_true'] at hIdle
      exact hIdle.1
    rw [effective_cons, if_neg (by simp [hIdle]), hKept]
    refine ⟨fun token hToken => h.shows token (List.mem_cons_of_mem _ hToken), h.separated.tail, ?_, ?_⟩
    · intro token hToken hTokenIdle
      have hSeparator := hSeparators token hToken
      cases token with
      | separator s => cases hTokenIdle
      | gap g => cases hSeparator
      | excerpt e => cases hSeparator
    · have hSettled : Settled (false || g.unknown) rest := h.settled
      rwa [hKnown] at hSettled

/-- What begins with something shown is settled whatever stands in front of it. -/
theorem settle_of_visible {earlier : Bool} {tokens : List Token} (h : Settled earlier tokens)
    (hVisible : ∀ token, tokens.head? = some token → token.isVisible = true) (awake : Bool) :
    settle (awake || earlier) tokens = tokens := by
  cases tokens with
  | nil => rfl
  | cons token rest =>
      have hFirst := hVisible token rfl
      cases token with
      | gap g => cases hFirst
      | excerpt e =>
          have hRest : Settled (earlier || true) rest := h
          rw [Bool.or_true] at hRest
          simp only [settle, wakes, Bool.or_true, settle_of_settled hRest]
      | separator s =>
          have hActive : s.active = true := by
            simpa [isVisible_iff, width_separator, Nat.pos_iff_ne_zero] using hFirst
          have hAwake : earlier = true := h.1.symm.trans hActive
          subst hAwake
          rw [Bool.or_true]
          exact settle_of_settled h

/-- The tokens of a canonical sequence that take no room in front of everything shown, and the others,
which are settled whatever stands in front of the sequence. -/
theorem Canonical.exists_blanks {tokens : List Token} (h : Canonical tokens) :
    ∃ blanks shown, tokens = blanks ++ shown ∧ (∀ token ∈ blanks, token.isVisible = false) ∧
      (∀ token, shown.head? = some token → token.isVisible = true) ∧
      ∀ awake, settle awake tokens = settle awake blanks ++ shown := by
  obtain ⟨blanks, shown, rfl, hInvisible, hVisible⟩ := exists_leading_blanks tokens
  refine ⟨blanks, shown, rfl, hInvisible, hVisible, fun awake => ?_⟩
  have hShown := (settled_append.1 h.settled).2
  rw [Bool.false_or] at hShown
  rw [settle_append, settle_of_visible hShown hVisible]

/-- A token that shows nothing is not divided. -/
theorem atoms_of_invisible {token : Token} (hInvisible : token.isVisible = false)
    (hShows : token.isEmptyExcerpt = false) : token.atoms = [token] := by
  cases token with
  | gap g => rfl
  | separator s => rfl
  | excerpt e => simp_all [isVisible, shown, isEmptyExcerpt]

/-- Whether separators are shown does not matter for which tokens may stand side by side. -/
theorem separated_settle {tokens : List Token} (h : Separated tokens) (awake : Bool) :
    Separated (settle awake tokens) := by
  have hFused := separated_fuse (settle awake tokens)
  rwa [← settle_fuse, fuse_of_separated h] at hFused

/-- Fusing two separated sequences makes at most one token of two, so the atoms are those of both, or
two gaps have met. -/
theorem atomize_fuse_append {before after : List Token} (hBefore : Separated before)
    (hAfter : Separated after) :
    (∃ front a b back, before = front ++ [gap a] ∧ after = gap b :: back ∧
      atomize (fuse (before ++ after)) = atomize front ++ gap (a.append b) :: atomize back) ∨
    atomize (fuse (before ++ after)) = atomize before ++ atomize after := by
  rw [fuse_append, fuse_of_separated hAfter]
  induction before with
  | nil => exact .inr rfl
  | cons token rest ih =>
      rw [List.foldr_cons]
      cases rest with
      | nil =>
          rw [List.foldr_nil]
          by_cases hGaps : ∃ a b back, token = gap a ∧ after = gap b :: back
          · obtain ⟨a, b, back, rfl, rfl⟩ := hGaps
            exact .inl ⟨[], a, b, back, rfl, rfl, rfl⟩
          · refine .inr ?_
            rw [atomize_attach fun a b tail hToken hRest => hGaps ⟨a, b, tail, hToken, hRest⟩]
            simp [atomize]
      | cons next tail =>
          have hWhole : atomize (attach token ((next :: tail).foldr attach after)) =
              token.atoms ++ atomize ((next :: tail).foldr attach after) := by
            apply atomize_attach
            rintro a b others rfl hGap
            obtain ⟨first, _, hFirst, hExtends⟩ := exists_attach_eq_cons next (tail.foldr attach after)
            rw [List.foldr_cons, hFirst] at hGap
            obtain ⟨rfl, -⟩ := List.cons.inj hGap
            have hApart := hBefore.1
            cases next with
            | gap other => exact hApart
            | excerpt e => exact hExtends
            | separator s => exact hExtends
          rw [hWhole]
          rcases ih hBefore.tail with ⟨front, a, b, back, hEq, hRest, hAtoms⟩ | hAtoms
          · refine .inl ⟨token :: front, a, b, back, by rw [hEq]; rfl, hRest, ?_⟩
            rw [hAtoms, atomize_cons token front, List.append_assoc]
          · exact .inr (by rw [hAtoms, atomize_cons token, List.append_assoc])

/-- Settling changes neither which tokens have an effect nor whether one of them is tied to the
source. -/
theorem tied_settle {awake : Bool} {tokens : List Token} (h : effective tokens = tokens) :
    effective (settle awake tokens) = settle awake tokens ∧
      (Tied (settle awake tokens) ↔ Tied tokens) := by
  have hKept : effective (settle awake tokens) = settle awake tokens := by
    apply effective_eq_self
    refine forall_mem_settle (fun token hToken => ?_) fun _ _ _ => ⟨rfl, rfl⟩
    exact (mem_effective.1 (by rwa [h])).2
  refine ⟨hKept, ?_⟩
  unfold Tied
  rw [hKept, h, ← List.any_eq_true, ← List.any_eq_true, any_span_settle]

/-- Whether separators are shown in some part of a sequence has no effect on its canonical form. -/
theorem normalize_settle_middle {before middle after : List Token} (awake : Bool)
    (hMiddle : effective middle = middle) (hTied : Tied (before ++ (middle ++ after))) :
    normalize (before ++ (settle awake middle ++ after)) = normalize (before ++ (middle ++ after)) := by
  obtain ⟨hKept, hTiedMiddle⟩ := @tied_settle awake middle hMiddle
  have hOther : Tied (before ++ (settle awake middle ++ after)) := by
    rwa [tied_append, tied_append, hTiedMiddle, ← tied_append, ← tied_append]
  rw [normalize_of_tied hOther, normalize_of_tied hTied]
  simp only [effective_append, hKept, hMiddle, settle_append, settle_settle, any_wakes_settle]

/-- Two gaps that meet are one in the canonical form. -/
theorem normalize_append_gap {a b : Gap} (ha : (gap a).isIdle = false) (hb : (gap b).isIdle = false)
    (before after : List Token) :
    normalize (before ++ gap (a.append b) :: after) =
      normalize (before ++ gap a :: gap b :: after) := by
  have hBoth : (gap (a.append b)).isIdle = false := by
    cases hIdle : (gap (a.append b)).isIdle with
    | false => rfl
    | true => exact absurd (isIdle_append hIdle) (by simp [ha])
  have hTied (g : Gap) (rest : List Token) (hg : (gap g).isIdle = false) :
      Tied (before ++ gap g :: rest) :=
    tied_iff.2 ⟨gap g, by simp, rfl, hg, rfl⟩
  rw [normalize_of_tied (hTied _ _ hBoth), normalize_of_tied (hTied _ _ ha)]
  simp only [effective_append, effective_cons, isEmptyExcerpt, ha, hb, hBoth, Bool.not_false,
    Bool.and_self, if_true, settle_append, settle, wakes, fuse_append]
  congr 1
  have hWakes : (a.append b).unknown = (a.unknown || b.unknown) := rfl
  rw [hWakes, ← Bool.or_assoc]
  exact attach_append_gap a b _

end Token

namespace Exclusion
open Token

/-- Tokens without an effect are not hidden, so they may be dropped before or after. -/
theorem effective_conceal {tokens : List Token} (h : Canonical tokens) {exclusions : List Exclusion}
    (hWithin : ∀ e ∈ exclusions, e.Hides ∧ e.stop ≤ totalWidth tokens) :
    effective (conceal (placed 0 (atomize (effective tokens))) exclusions) =
      effective (conceal (placed 0 (atomize tokens)) exclusions) := by
  rcases h.cases with hAll | ⟨g, rest, -, -, -, hWidth⟩
  · rw [hAll]
  · cases exclusions with
    | nil =>
        rw [conceal_placed_nil, conceal_placed_nil, effective_atomize, effective_atomize,
          effective_effective]
    | cons e later =>
        obtain ⟨hHides, hStop⟩ := hWithin e List.mem_cons_self
        have hProper := Range.not_isCaret_iff.1 hHides.1
        omega

/-- What is hidden in a canonical sequence lies behind its blanks in front of everything shown. -/
theorem conceal_blanks {blanks shown : List Token} {exclusions : List Exclusion}
    (hInvisible : ∀ token ∈ blanks, token.isVisible = false)
    (hAtoms : ∀ token ∈ blanks, token.atoms = [token]) (hHides : ∀ e ∈ exclusions, e.Hides) :
    conceal (placed 0 (atomize (blanks ++ shown))) exclusions =
      blanks ++ conceal (placed 0 (atomize shown)) exclusions := by
  have hWidth : totalWidth blanks = 0 := totalWidth_eq_zero_iff.2 hInvisible
  have hParts := @conceal_placed_append 0 blanks (atomize shown) [] exclusions (by simp)
    fun e he => ⟨hHides e he, by omega⟩
  rw [List.nil_append, conceal_placed_nil, hWidth] at hParts
  rw [atomize_append, atomize_eq_self hAtoms, hParts]

/-- A gap at the end stays there when everything is hidden in front of it. -/
theorem conceal_append_gap {front : List Token} {g : Gap} {exclusions : List Exclusion}
    (h : ∀ e ∈ exclusions, e.Hides ∧ e.stop ≤ totalWidth front) :
    conceal (placed 0 (front ++ [.gap g])) exclusions =
      conceal (placed 0 front) exclusions ++ [.gap g] := by
  have hParts := @conceal_placed_append 0 front [.gap g] exclusions []
    (fun e he => by rw [Nat.zero_add]; exact h e he) (by simp)
  rwa [List.append_nil, conceal_placed_nil] at hParts

/-- What is left of two sequences is tied to the source if they are. -/
theorem tied_conceal_append {before after : List Token} (h : Tied (before ++ after))
    {first second : List Exclusion} :
    Tied (conceal (placed 0 (atomize before)) first ++ conceal (placed 0 (atomize after)) second) := by
  rw [tied_append] at h ⊢
  refine h.imp (fun hBefore => ?_) fun hAfter => ?_
  · exact tied_conceal (by rwa [map_snd_placed, tied_atomize])
  · exact tied_conceal (by rwa [map_snd_placed, tied_atomize])

/-- Hiding in two sequences that were fused comes to the same as hiding in both of them: no exclusion
reaches the place where they meet. -/
theorem conceal_fuse_append {before blanks shown : List Token} (hBefore : Separated before)
    (hAfter : Separated (blanks ++ shown)) (hBeforeKept : effective before = before)
    (hBlanksKept : effective blanks = blanks) (hAtoms : ∀ token ∈ blanks, token.atoms = [token])
    (hVisible : ∀ token, shown.head? = some token → token.isVisible = true)
    {first second : List Exclusion} (hFirst : ∀ e ∈ first, e.Hides ∧ e.stop ≤ totalWidth before)
    (hSecond : ∀ e ∈ second, e.Hides) :
    normalize (conceal (placed 0 (atomize (fuse (before ++ (blanks ++ shown)))))
        (first ++ second.map (moveBy (totalWidth before + totalWidth blanks)))) =
      normalize (conceal (placed 0 (atomize before)) first ++
        (blanks ++ conceal (placed 0 (atomize shown)) second)) := by
  rcases atomize_fuse_append hBefore hAfter with ⟨front, a, b, back, rfl, hBack, hFused⟩ | hFused
  · cases blanks with
    | nil =>
        rw [List.nil_append] at hBack
        have hGap : (gap b).isVisible = true := hVisible (gap b) (by rw [hBack]; rfl)
        cases hGap
    | cons token rest =>
        rw [List.cons_append] at hBack
        obtain ⟨rfl, rfl⟩ := List.cons.inj hBack
        simp only [List.mem_cons, forall_eq_or_imp] at hAtoms
        have ha : (gap a).isIdle = false :=
          (mem_effective.1 (by rw [hBeforeKept]; exact List.mem_append_right _ List.mem_cons_self)).2.2
        have hb : (gap b).isIdle = false :=
          (mem_effective.1 (by rw [hBlanksKept]; exact List.mem_cons_self)).2.2
        have hEnd : totalWidth (front ++ [gap a]) = totalWidth (atomize front) := by
          rw [totalWidth_append, totalWidth_atomize]
          rfl
        have hWidth : totalWidth (gap b :: rest) = totalWidth (gap (a.append b) :: rest) := rfl
        rw [hEnd] at hFirst
        have hWhole := @conceal_around (atomize front) (gap (a.append b) :: rest) (atomize shown) _ _
          hFirst hSecond
        have hPart := @conceal_append_gap (atomize front) a _ hFirst
        have hLast : atomize (front ++ [gap a]) = atomize front ++ [gap a] := atomize_append ..
        rw [hFused, atomize_append rest, atomize_eq_self hAtoms.2, hEnd, hWidth, hLast, hPart,
          ← List.cons_append, hWhole, List.cons_append, normalize_append_gap ha hb, List.append_assoc]
        rfl
  · rw [← totalWidth_atomize before] at hFirst
    have hWhole := @conceal_around (atomize before) blanks (atomize shown) _ _ hFirst hSecond
    rw [hFused, atomize_append, atomize_eq_self hAtoms, ← totalWidth_atomize before, hWhole]

/-- What hiding in a joined sequence comes to, where every token has an effect. The part behind begins
where the separators in front of everything shown there have woken up. -/
theorem conceal_normalize_append {before after : List Token} (hBefore : Canonical before)
    (hAfter : Canonical after) (hBeforeKept : effective before = before)
    (hAfterKept : effective after = after) (hTied : Tied (before ++ after))
    {first second : List Exclusion} (hFirst : ∀ e ∈ first, e.Hides ∧ e.stop ≤ totalWidth before)
    (hSecond : ∀ e ∈ second, e.Hides) :
    ∃ count, totalWidth (normalize (before ++ after)) = count + totalWidth after ∧
      totalWidth before ≤ count ∧
      normalize (conceal (placed 0 (atomize (normalize (before ++ after))))
          (first ++ second.map (moveBy count))) =
        normalize (conceal (placed 0 (atomize before)) first ++
          conceal (placed 0 (atomize after)) second) := by
  obtain ⟨blanks, shown, rfl, hInvisible, hVisible, hSettle⟩ := hAfter.exists_blanks
  have hAtoms (token : Token) (hToken : token ∈ blanks) : token.atoms = [token] :=
    atoms_of_invisible (hInvisible token hToken) (hAfter.shows token (List.mem_append_left _ hToken))
  have hBlanksKept : effective blanks = blanks := by
    apply effective_eq_self
    intro token hToken
    exact (mem_effective.1 (by rw [hAfterKept]; exact List.mem_append_left _ hToken)).2
  generalize hWoken : settle (before.any wakes) blanks = woken
  have hJoined : normalize (before ++ (blanks ++ shown)) = fuse (before ++ (woken ++ shown)) := by
    rw [normalize_of_tied hTied, effective_append, hBeforeKept, hAfterKept, settle_append,
      settle_of_settled hBefore.settled, Bool.false_or, hSettle, hWoken]
  have hWidth : totalWidth (blanks ++ shown) = totalWidth shown := by
    rw [totalWidth_append, totalWidth_eq_zero_iff.2 hInvisible, Nat.zero_add]
  refine ⟨totalWidth before + totalWidth woken, ?_, Nat.le_add_right _ _, ?_⟩
  · rw [hJoined, totalWidth_fuse, totalWidth_append, totalWidth_append, hWidth, Nat.add_assoc]
  -- Both ways lead to the first part, the blanks of the second and what is left of the rest.
  have hConcealed : Tied (conceal (placed 0 (atomize before)) first ++
      (blanks ++ conceal (placed 0 (atomize shown)) second)) := by
    rw [← conceal_blanks hInvisible hAtoms hSecond]
    exact tied_conceal_append hTied
  rw [conceal_blanks hInvisible hAtoms hSecond, ← normalize_settle_middle _ hBlanksKept hConcealed, hWoken,
    hJoined]
  have hSeparated : Separated (woken ++ shown) := by
    rw [← hWoken, ← hSettle]
    exact separated_settle hAfter.separated _
  have hWokenKept : effective woken = woken := by
    rw [← hWoken]
    exact (tied_settle hBlanksKept).1
  have hWokenAtoms : ∀ token ∈ woken, token.atoms = [token] := by
    rw [← hWoken]
    exact forall_mem_settle hAtoms fun _ _ _ => rfl
  exact conceal_fuse_append hBefore.separated hSeparated hBeforeKept hWokenKept hWokenAtoms hVisible
    hFirst hSecond

/-- Hiding in a joined sequence comes to the same as joining what is left of both parts. -/
theorem normalize_conceal_append {before after : List Token} (hBefore : Canonical before)
    (hAfter : Canonical after) (hTied : Tied (before ++ after)) {first second : List Exclusion}
    (hFirst : ∀ e ∈ first, e.Hides ∧ e.stop ≤ totalWidth before)
    (hSecond : ∀ e ∈ second, e.Hides ∧ e.stop ≤ totalWidth after) :
    ∃ count, totalWidth (normalize (before ++ after)) = count + totalWidth after ∧
      totalWidth before ≤ count ∧
      normalize (conceal (placed 0 (atomize (normalize (before ++ after))))
          (first ++ second.map (moveBy count))) =
        normalize (normalize (conceal (placed 0 (atomize before)) first) ++
          normalize (conceal (placed 0 (atomize after)) second)) := by
  have hKept : effective (effective before ++ effective after) = effective (before ++ after) := by
    rw [effective_append, effective_append, effective_effective, effective_effective]
  have hEffective : Tied (effective before ++ effective after) := by
    unfold Tied
    rwa [hKept]
  have hJoined : normalize (before ++ after) = normalize (effective before ++ effective after) :=
    normalize_congr hEffective hKept.symm
  obtain ⟨count, hWidth, hCount, hConceal⟩ := conceal_normalize_append hBefore.effective
    hAfter.effective (effective_effective _) (effective_effective _) hEffective
    (fun e he => by rw [totalWidth_effective]; exact hFirst e he) fun e he => (hSecond e he).1
  rw [← hJoined, totalWidth_effective] at hWidth
  rw [totalWidth_effective] at hCount
  refine ⟨count, hWidth, hCount, ?_⟩
  have hConcealed : Tied (conceal (placed 0 (atomize before)) first ++
      conceal (placed 0 (atomize after)) second) := tied_conceal_append hTied
  rw [normalize_append, hJoined, hConceal]
  apply normalize_congr hConcealed
  rw [effective_append, effective_append, effective_conceal hBefore hFirst,
    effective_conceal hAfter hSecond]

end Exclusion

namespace View
open Token

/-- Two views of one source and domain can be joined if one of them has source material. -/
theorem exists_join_pair {x y : View} (hDomain : x.domain = y.domain) (hSource : x.source = y.source)
    (hRooted : Rooted x.tokens ∨ Rooted y.tokens) :
    ∃ joined, View.join [x, y] = .ok joined ∧ joined.domain = x.domain ∧ joined.source = x.source ∧
      joined.tokens = normalize (x.tokens ++ y.tokens) := by
  have hAlike : Alike x.domain x.source [x, y] := by simp [Alike, hDomain, hSource]
  have hTokens : [x, y].flatMap (·.tokens) = x.tokens ++ y.tokens := by simp
  rw [← hTokens]
  exact exists_join hAlike (List.cons_ne_nil _ _) (.inr (by rwa [hTokens, rooted_append]))

/-- Two views without source material cannot be joined. -/
theorem join_of_unrooted {x y : View} (hDomain : x.domain = y.domain)
    (h : ∀ token ∈ x.tokens ++ y.tokens, token.span? = none) :
    View.join [x, y] = .error (.notOneSource []) := by
  have hTokens : [x, y].flatMap (·.tokens) = x.tokens ++ y.tokens := by simp
  have hBoth : ∀ view ∈ [x, y], view.domain = x.domain := by simp [hDomain]
  rw [join_eq_ofTokens hBoth (by simp), hTokens]
  exact ofTokens_of_spans_eq_nil x.domain (List.filterMap_eq_nil_iff.2 h)

/-- Without any effect that is tied to the source nothing is shown. -/
theorem length_of_not_tied {view : View} (h : ¬ Tied view.tokens) : view.length = 0 := by
  rw [length_eq_totalWidth]
  rcases view.canonical.cases with hAll | ⟨-, -, -, -, -, hWidth⟩
  · refine totalWidth_of_settled view.canonical.settled fun token hToken => ?_
    exact isSeparator_of_not_tied h token (by rwa [hAll])
  · exact hWidth

/-- A view that is not tied to its source shows nothing, so exclusions that mark nothing are not
active on it. -/
theorem inactive_of_not_tied {view : View} (h : ¬ Tied view.tokens) {exclusions : List Exclusion}
    (hValid : Exclusion.validate exclusions view.length = .ok ())
    (hKnown : ∀ e ∈ exclusions, e.unknown = false) : exclusions.filter Exclusion.isActive = [] := by
  refine Exclusion.filter_isActive_eq_nil hKnown fun e he => ?_
  have hStop := (Exclusion.validate_eq_ok_iff.1 hValid).2 e he
  rw [length_of_not_tied h] at hStop
  exact Range.isCaret_iff.2 (by omega)

/-- Valid exclusions that mark nothing hide within the text once they are active. -/
theorem hides_within {view : View} {exclusions : List Exclusion}
    (hValid : Exclusion.validate exclusions view.length = .ok ())
    (hKnown : ∀ e ∈ exclusions, e.unknown = false) :
    ∀ e ∈ exclusions.filter Exclusion.isActive, e.Hides ∧ e.stop ≤ totalWidth view.tokens := by
  intro e he
  refine ⟨Exclusion.hides_of_active hKnown e he, ?_⟩
  rw [← length_eq_totalWidth]
  exact (Exclusion.validate_eq_ok_iff.1 hValid).2 e (List.mem_filter.1 he).1

/-- The second of two joined views has a place in the whole, and hiding in the whole what is hidden in
both, the second moved to that place, leaves what is left of both. -/
theorem exists_place {x y joined : View} (hJoined : joined.tokens = normalize (x.tokens ++ y.tokens))
    {first second : List Exclusion} (hFirst : Exclusion.validate first x.length = .ok ())
    (hSecond : Exclusion.validate second y.length = .ok ())
    (hFirstKnown : ∀ e ∈ first, e.unknown = false) (hSecondKnown : ∀ e ∈ second, e.unknown = false) :
    ∃ count, joined.length = count + y.length ∧ x.length ≤ count ∧
      normalize (Exclusion.conceal (placed 0 (atomize joined.tokens))
          ((first ++ second.map (Exclusion.moveBy count)).filter Exclusion.isActive)) =
        normalize (normalize (Exclusion.conceal (placed 0 (atomize x.tokens))
            (first.filter Exclusion.isActive)) ++
          normalize (Exclusion.conceal (placed 0 (atomize y.tokens))
            (second.filter Exclusion.isActive))) := by
  by_cases hTied : Tied (x.tokens ++ y.tokens)
  · obtain ⟨count, hWidth, hCount, hConceal⟩ := Exclusion.normalize_conceal_append x.canonical
      y.canonical hTied (hides_within hFirst hFirstKnown) (hides_within hSecond hSecondKnown)
    refine ⟨count, ?_, ?_, ?_⟩
    · rw [length_eq_totalWidth, length_eq_totalWidth, hJoined, hWidth]
    · rwa [length_eq_totalWidth]
    · rw [hJoined, List.filter_append, Exclusion.filter_isActive_moveBy, hConceal]
  · -- Nothing is shown anywhere, so no exclusion hides anything.
    have hX : ¬ Tied x.tokens := fun h => hTied (tied_append.2 (.inl h))
    have hY : ¬ Tied y.tokens := fun h => hTied (tied_append.2 (.inr h))
    have hWhole : ¬ Tied joined.tokens := by rwa [hJoined, tied_normalize]
    refine ⟨0, ?_, ?_, ?_⟩
    · rw [length_of_not_tied hWhole, length_of_not_tied hY]
    · exact Nat.le_of_eq (length_of_not_tied hX)
    · rw [List.filter_append, Exclusion.filter_isActive_moveBy, inactive_of_not_tied hX hFirst hFirstKnown,
        inactive_of_not_tied hY hSecond hSecondKnown, List.map_nil, List.append_nil]
      simp only [Exclusion.conceal_placed_nil, normalize_atomize]
      rw [normalize_of_canonical joined.canonical, normalize_of_canonical x.canonical,
        normalize_of_canonical y.canonical, hJoined]

/-- Two views of one source and domain, some source material in one of them: exclusions that only hide
may be applied to the two before they are joined or to the whole afterwards. -/
theorem exists_excludeAll_join {x y : View} (hDomain : x.domain = y.domain)
    (hSource : x.source = y.source) (hRooted : Rooted x.tokens ∨ Rooted y.tokens)
    {first second : List Exclusion} (hFirst : Exclusion.validate first x.length = .ok ())
    (hSecond : Exclusion.validate second y.length = .ok ())
    (hFirstKnown : ∀ e ∈ first, e.unknown = false) (hSecondKnown : ∀ e ∈ second, e.unknown = false) :
    ∃ count joined a b whole, View.join [x, y] = .ok joined ∧ joined.length = count + y.length ∧
      x.excludeAll first = .ok a ∧ y.excludeAll second = .ok b ∧
      Exclusion.validate (first ++ second.map (Exclusion.moveBy count)) joined.length = .ok () ∧
      View.join [a, b] = .ok whole ∧
      joined.excludeAll (first ++ second.map (Exclusion.moveBy count)) = .ok whole := by
  obtain ⟨joined, hJoined, hJoinedDomain, hJoinedSource, hJoinedTokens⟩ :=
    exists_join_pair hDomain hSource hRooted
  obtain ⟨count, hLength, hCount, hConceal⟩ :=
    exists_place hJoinedTokens hFirst hSecond hFirstKnown hSecondKnown
  have hValid : Exclusion.validate (first ++ second.map (Exclusion.moveBy count)) joined.length =
      .ok () := by
    rw [hLength]
    exact Exclusion.validate_append_moveBy hFirst hSecond hCount
  obtain ⟨a, hA, hADomain, hASource, hARooted, hATokens⟩ := exists_concealed hFirst hFirstKnown
  obtain ⟨b, hB, hBDomain, hBSource, hBRooted, hBTokens⟩ := exists_concealed hSecond hSecondKnown
  obtain ⟨whole, hWhole, hWholeDomain, hWholeSource, -, hWholeTokens⟩ :=
    exists_concealed hValid (Exclusion.known_append_moveBy hFirstKnown hSecondKnown)
  obtain ⟨last, hLast, hLastDomain, hLastSource, hLastTokens⟩ :=
    exists_join_pair (by rw [hADomain, hBDomain, hDomain]) (by rw [hASource, hBSource, hSource])
      (hRooted.imp hARooted hBRooted)
  have hSame : last = whole := by
    apply eq_of_parts
    · rw [hLastDomain, hADomain, hWholeDomain, hJoinedDomain]
    · rw [hLastSource, hASource, hWholeSource, hJoinedSource]
    · rw [hLastTokens, hATokens, hBTokens, hWholeTokens, hConceal]
  exact ⟨count, joined, a, b, whole, hJoined, hLength, hA, hB, hValid, hSame ▸ hLast, hWhole⟩

/-- Exclusions that only hide are local to the parts of a join: they may be applied to two views before
these are joined, or to the whole afterwards, where those for the second view are moved to where it
stands. Only views of which neither has any source material cannot be joined at all. -/
theorem excludeAll_join {x y : View} (hDomain : x.domain = y.domain) (hSource : x.source = y.source)
    {first second : List Exclusion} (hFirst : Exclusion.validate first x.length = .ok ())
    (hSecond : Exclusion.validate second y.length = .ok ())
    (hFirstKnown : ∀ e ∈ first, e.unknown = false) (hSecondKnown : ∀ e ∈ second, e.unknown = false) :
    ((∃ token ∈ x.tokens ++ y.tokens, token.span?.isSome = true) →
      ∃ count joined a b whole, View.join [x, y] = .ok joined ∧ joined.length = count + y.length ∧
        x.excludeAll first = .ok a ∧ y.excludeAll second = .ok b ∧
        Exclusion.validate (first ++ second.map (Exclusion.moveBy count)) joined.length = .ok () ∧
        View.join [a, b] = .ok whole ∧
        joined.excludeAll (first ++ second.map (Exclusion.moveBy count)) = .ok whole) ∧
    ((∀ token ∈ x.tokens ++ y.tokens, token.span? = none) →
      View.join [x, y] = .error (.notOneSource [])) := by
  refine ⟨fun hSome => ?_, join_of_unrooted hDomain⟩
  have hRooted : Rooted x.tokens ∨ Rooted y.tokens := by
    rw [rooted_iff, rooted_iff, ← exists_or]
    simpa [or_and_right] using hSome
  exact exists_excludeAll_join hDomain hSource hRooted hFirst hSecond hFirstKnown hSecondKnown

/-- The separator of the second view is asleep until the first view stands in front of it. -/
theorem excludeAll_join_of_dormant :
    ∃ part pair dormant, View.ofSource ⟨"doc", ['a']⟩ .plainText = .ok part ∧
      View.joinWithBlank [part, part] = .ok (some pair) ∧
      pair.hide (.range ⟨0, 1, by decide⟩) = .ok dormant ∧
      ∃ count joined a b whole, View.join [part, dormant] = .ok joined ∧
        joined.length = count + dormant.length ∧
        part.excludeAll [⟨⟨0, 1, by decide⟩, false⟩] = .ok a ∧
        dormant.excludeAll [⟨⟨0, 1, by decide⟩, false⟩] = .ok b ∧
        Exclusion.validate ([⟨⟨0, 1, by decide⟩, false⟩] ++
          [⟨⟨0, 1, by decide⟩, false⟩].map (Exclusion.moveBy count)) joined.length = .ok () ∧
        View.join [a, b] = .ok whole ∧
        joined.excludeAll ([⟨⟨0, 1, by decide⟩, false⟩] ++
          [⟨⟨0, 1, by decide⟩, false⟩].map (Exclusion.moveBy count)) = .ok whole := by
  refine ⟨_, _, _, rfl, rfl, rfl, ?_⟩
  refine (excludeAll_join ?hDomain ?hSource ?hFirst ?hSecond ?hFirstKnown ?hSecondKnown).1 ?hRooted
  case hDomain => rfl
  case hSource => rfl
  case hFirst => rfl
  case hSecond => rfl
  case hFirstKnown => simp
  case hSecondKnown => simp
  case hRooted => exact ⟨_, List.mem_cons_self, rfl⟩

/-- Two views of empty excerpts are of one source and domain but have no source material left. -/
theorem no_join_of_empty_excerpts :
    ∃ view, View.ofTokens .plainText [.excerpt ⟨⟨⟨0, 0, by decide⟩, "doc"⟩, [], rfl⟩] = .ok view ∧
      Exclusion.validate [] view.length = .ok () ∧
      View.join [view, view] = .error (.notOneSource []) :=
  ⟨_, rfl, rfl, rfl⟩

end View
end SourceView
