import SourceView.Proofs.Grounded
import SourceView.Proofs.Passing
import SourceView.View.Hide

/-! What a view becomes when exclusions are applied to it. Exclusions are valid when they lie within
the shown text, each behind the one before it. A view with any source material is then turned into
another view of the same source. -/
namespace SourceView

namespace Exclusion
open Token

/-- Exclusions are valid behind a previous one if it ends in front of all of them, they do not
overlap and they stay within the text. -/
theorem validateFrom_eq_ok_iff {previous? : Option Exclusion} {exclusions : List Exclusion}
    {length : Nat} :
    validateFrom length previous? exclusions = .ok () ↔
      (∀ previous ∈ previous?, ∀ e ∈ exclusions, previous.stop ≤ e.start) ∧
        exclusions.Pairwise (fun a b => a.stop ≤ b.start) ∧ ∀ e ∈ exclusions, e.stop ≤ length := by
  induction exclusions generalizing previous? with
  | nil => simp [validateFrom]
  | cons e rest ih =>
      have hOrdered := e.ordered
      have hRest := @ih (some e)
      have hLater (previous : Exclusion) (hFirst : previous.stop ≤ e.start)
          (h : ∀ other ∈ rest, e.stop ≤ other.start) (other : Exclusion) (hOther : other ∈ rest) :
          previous.stop ≤ other.start :=
        Nat.le_trans hFirst (Nat.le_trans hOrdered (h other hOther))
      simp only [Option.mem_some, forall_eq'] at hRest
      simp only [validateFrom, List.pairwise_cons, List.mem_cons, forall_eq_or_imp]
      by_cases hBeyond : (length : Int) < e.stop
      · have hStop : ¬ e.stop ≤ length := by omega
        simp [hBeyond, hStop]
      · have hStop : e.stop ≤ length := by omega
        cases previous? with
        | none => simp [hBeyond, hStop, hRest, and_assoc]
        | some previous =>
            by_cases hOverlap : e.start < previous.stop
            · have hFirst : ¬ previous.stop ≤ e.start := Nat.not_le.2 hOverlap
              simp [hBeyond, hOverlap, hFirst]
            · have hFirst : previous.stop ≤ e.start := Nat.le_of_not_lt hOverlap
              simp only [hBeyond, hOverlap, if_false, hRest, Option.mem_some, forall_eq', hFirst,
                hStop, true_and, and_assoc]
              constructor
              · exact fun h => ⟨hLater previous hFirst h.1, h⟩
              · exact fun h => h.2

/-- Exclusions are valid when each begins where the one before it ends or behind that, and all end
within the text. -/
theorem validate_eq_ok_iff {exclusions : List Exclusion} {length : Nat} :
    validate exclusions length = .ok () ↔
      exclusions.Pairwise (fun a b => a.stop ≤ b.start) ∧ ∀ e ∈ exclusions, e.stop ≤ length := by
  rw [validate, validateFrom_eq_ok_iff]
  simp

/-- Exclusions of empty ranges that mark nothing change nothing. -/
theorem filter_isActive_eq_nil {exclusions : List Exclusion}
    (hKnown : ∀ e ∈ exclusions, e.unknown = false) (hCaret : ∀ e ∈ exclusions, e.isCaret = true) :
    exclusions.filter isActive = [] := by
  refine List.filter_eq_nil_iff.2 fun e he => ?_
  simp [isActive, hKnown e he, hCaret e he]

/-- Properties of spans that a gap has when all that it stands for has them. -/
structure Inherited (q : Span → Prop) : Prop where
  hull : ∀ a b, q a → q b → q (a.hull b)
  head : ∀ a, q a → q a.head
  tail : ∀ a, q a → q a.tail

/-- A marker stands at an end of some span. -/
theorem exists_span_of_markerAnchor {left right : List Piece} {anchor : Span}
    (h : markerAnchor left right = .ok anchor) :
    ∃ piece ∈ left ++ right, ∃ span, piece.2.span? = some span ∧
      (anchor = span.tail ∨ anchor = span.head) := by
  rw [markerAnchor_eq] at h
  cases hLeft : left.findSome? (·.2.span?) with
  | some span =>
      obtain ⟨piece, hPiece, hSpan⟩ := List.exists_of_findSome?_eq_some hLeft
      rw [hLeft] at h
      cases h
      exact ⟨piece, List.mem_append_left _ hPiece, span, hSpan, .inl rfl⟩
  | none =>
      cases hRight : right.findSome? (·.2.span?) with
      | some span =>
          obtain ⟨piece, hPiece, hSpan⟩ := List.exists_of_findSome?_eq_some hRight
          rw [hLeft, hRight] at h
          cases h
          exact ⟨piece, List.mem_append_right _ hPiece, span, hSpan, .inr rfl⟩
      | none =>
          rw [hLeft, hRight] at h
          cases h

/-- The hull of spans inherits what each of them has. -/
theorem Inherited.hullAll? {q : Span → Prop} (hq : Inherited q) {spans : List Span} {anchor : Span}
    (hSpans : ∀ span ∈ spans, q span) (h : Span.hullAll? spans = some anchor) : q anchor := by
  cases spans with
  | nil => cases h
  | cons first rest =>
      simp only [List.mem_cons, forall_eq_or_imp] at hSpans
      obtain ⟨hFirst, hRest⟩ := hSpans
      cases h
      induction rest generalizing first with
      | nil => exact hFirst
      | cons second rest ih =>
          simp only [List.mem_cons, forall_eq_or_imp] at hRest
          exact ih _ (hq.hull first second hFirst hRest.1) hRest.2

/-- Hidden pieces are replaced by gaps whose anchors inherit what the spans of the pieces have. -/
theorem Inherited.of_mem_substitute {q : Span → Prop} (hq : Inherited q) {e : Exclusion}
    {left hidden right : List Piece} {gaps : List Token}
    (h : e.substitute left hidden right = .ok gaps)
    (hSpans : ∀ piece ∈ left ++ (hidden ++ right), ∀ span, piece.2.span? = some span → q span) :
    ∀ token ∈ gaps, ∃ g, token = .gap g ∧ q g.anchor := by
  rcases substitute_cases h with ⟨anchor, hAnchor, rfl, -⟩ | ⟨-, anchor, hAnchor, rfl⟩ |
    ⟨-, -, -, rfl⟩
  · obtain ⟨piece, hPiece, span, hSpan, hEnd⟩ := exists_span_of_markerAnchor hAnchor
    have hWhole := hSpans piece hPiece span hSpan
    have hMarker : q anchor := by
      rcases hEnd with rfl | rfl
      · exact hq.tail span hWhole
      · exact hq.head span hWhole
    simpa using hMarker
  · have hHidden : q anchor := by
      refine hq.hullAll? (fun span hSpan => ?_) hAnchor
      obtain ⟨piece, hPiece, hSpan⟩ := List.mem_filterMap.1 hSpan
      exact hSpans piece (by simp [hPiece]) span hSpan
    simpa using hHidden
  · simp

/-- What holds of all pieces holds of what a sweep leaves, if it holds of gaps with the spans that
gaps may have. -/
theorem Inherited.forall_mem_sweep {q : Span → Prop} (hq : Inherited q) {p : Token → Prop}
    (hGap : ∀ g : Gap, q g.anchor → p (.gap g))
    (hSpan : ∀ token span, p token → token.span? = some span → q span)
    {passed rest : List Piece} {exclusions : List Exclusion} {swept : List Token}
    (h : sweep passed rest exclusions = .ok swept) (hPieces : ∀ piece ∈ passed ++ rest, p piece.2) :
    ∀ token ∈ swept, p token := by
  induction exclusions generalizing passed rest swept with
  | nil =>
      cases h
      intro token hToken
      obtain ⟨piece, hPiece, rfl⟩ := List.mem_map.1 hToken
      exact hPieces piece (List.mem_append_right _ hPiece)
  | cons e later ih =>
      obtain ⟨gaps, after, hGaps, hAfter, rfl⟩ := sweep_cons_eq_ok_iff.1 h
      rw [← e.front_append_covered_append_behind rest] at hPieces
      simp only [List.mem_append, or_imp, forall_and] at hPieces
      obtain ⟨hPassed, ⟨hFront, hCovered⟩, hBehind⟩ := hPieces
      have hAll : ∀ piece ∈ (e.front rest).reverse ++ passed ++ (e.covered rest ++ e.behind rest),
          p piece.2 := by
        simp only [List.mem_append, List.mem_reverse, or_imp, forall_and]
        exact ⟨⟨hFront, hPassed⟩, hCovered, hBehind⟩
      have hGapped (token : Token) (hToken : token ∈ gaps) : p token := by
        obtain ⟨g, rfl, hAnchor⟩ := hq.of_mem_substitute hGaps
          (fun piece hPiece span hSome => hSpan _ span (hAll piece hPiece) hSome) token hToken
        exact hGap g hAnchor
      have hRest := ih hAfter (by
        simp only [List.mem_append, List.mem_reverse, or_imp, forall_and]
        exact ⟨⟨⟨hFront, hCovered⟩, hPassed⟩, hBehind⟩)
      simp only [List.mem_append, List.mem_map, or_imp, forall_and]
      refine ⟨⟨?_, hGapped⟩, hRest⟩
      rintro token ⟨piece, hPiece, rfl⟩
      exact hFront piece hPiece

theorem inherited_source (source : String) : Inherited (·.source = source) :=
  ⟨fun _ _ ha _ => ha, fun _ ha => ha, fun _ ha => ha⟩

/-- A sweep brings in no other source. -/
theorem sourced_sweep {source : String} {passed rest : List Piece} {exclusions : List Exclusion}
    {swept : List Token} (h : sweep passed rest exclusions = .ok swept)
    (hSourced : ∀ piece ∈ passed ++ rest, ∀ span, piece.2.span? = some span →
      span.source = source) :
    ∀ token ∈ swept, ∀ span, token.span? = some span → span.source = source := by
  refine (inherited_source source).forall_mem_sweep ?_ (fun _ span hAll => hAll span) h hSourced
  rintro g hAnchor _ ⟨⟩
  exact hAnchor

/-- A sweep over source material leaves some. -/
theorem rooted_sweep {passed rest : List Piece} {exclusions : List Exclusion} {swept : List Token}
    (h : sweep passed rest exclusions = .ok swept) (hRooted : Rooted (rest.map (·.2))) :
    Rooted swept := by
  induction exclusions generalizing passed rest swept with
  | nil =>
      cases h
      exact hRooted
  | cons e later ih =>
      obtain ⟨gaps, after, hGaps, hAfter, rfl⟩ := sweep_cons_eq_ok_iff.1 h
      rw [← e.front_append_covered_append_behind rest, List.map_append, List.map_append,
        rooted_append, rooted_append] at hRooted
      rw [rooted_append, rooted_append]
      rcases hRooted with (hFront | hCovered) | hBehind
      · exact .inl (.inl hFront)
      · refine .inl (.inr ?_)
        obtain ⟨token, hToken, -, hSpan⟩ := hCovered
        obtain ⟨piece, hPiece, rfl⟩ := List.mem_map.1 hToken
        rcases substitute_cases hGaps with ⟨anchor, -, rfl, -⟩ | ⟨-, anchor, -, rfl⟩ |
          ⟨-, -, hNone, -⟩
        · exact ⟨_, List.mem_singleton.2 rfl, rfl, rfl⟩
        · exact ⟨_, List.mem_singleton.2 rfl, rfl, rfl⟩
        · cases hSpans : (e.covered rest).filterMap (·.2.span?) with
          | nil =>
              have := List.filterMap_eq_nil_iff.1 hSpans piece hPiece
              simp [this] at hSpan
          | cons first spans =>
              rw [hSpans] at hNone
              cases hNone
      · exact .inr (ih hAfter hBehind)

/-- Exclusions are applied to a canonical sequence by a sweep over its atoms. -/
theorem applyAll_of_canonical {tokens : List Token} (h : Canonical tokens)
    (exclusions : List Exclusion) :
    applyAll tokens exclusions =
      (sweep [] (placed 0 (atomize tokens)) (exclusions.filter isActive)).map Token.normalize := by
  rw [applyAll_eq h.shows]
  split
  · next hNone =>
      rw [List.isEmpty_iff.1 hNone, sweep, map_snd_placed]
      show _ = Except.ok _
      rw [normalize_atomize, normalize_of_canonical h]
  · rfl

end Exclusion

namespace Token

/-- An excerpt that is not empty has a first atom, so dividing leaves source material where there is
any. -/
theorem rooted_atomize {tokens : List Token} : Rooted (atomize tokens) ↔ Rooted tokens := by
  constructor
  · rintro ⟨atom, hAtom, -, hSpan⟩
    obtain ⟨token, hToken, hAtom⟩ := List.mem_flatMap.1 hAtom
    cases token with
    | gap g => exact ⟨_, hToken, rfl, rfl⟩
    | separator s =>
        obtain rfl := List.mem_singleton.1 hAtom
        cases hSpan
    | excerpt e =>
        refine ⟨_, hToken, ?_, rfl⟩
        cases hText : e.text with
        | nil =>
            rw [atoms_of_text_nil hText] at hAtom
            cases hAtom
        | cons c text => simp [isEmptyExcerpt, hText]
  · rintro ⟨token, hToken, hShows, hSpan⟩
    cases token with
    | gap g => exact ⟨gap g, List.mem_flatMap.2 ⟨_, hToken, List.mem_singleton.2 rfl⟩, rfl, rfl⟩
    | separator s => cases hSpan
    | excerpt e =>
        have hText : e.text ≠ [] := by simpa [isEmptyExcerpt] using hShows
        have hFirst : excerpt (e.take 1) ∈ atomize tokens := by
          refine List.mem_flatMap.2 ⟨_, hToken, ?_⟩
          rw [atoms_of_text_ne_nil hText]
          exact List.mem_cons_self
        exact ⟨_, hFirst, (mem_atomize hFirst).1, rfl⟩

/-- The atoms of a token are of its source. -/
theorem sourced_atomize {source : String} {tokens : List Token}
    (h : ∀ token ∈ tokens, ∀ span, token.span? = some span → span.source = source) :
    ∀ token ∈ atomize tokens, ∀ span, token.span? = some span → span.source = source := by
  refine forall_mem_atomize h ?_ ?_
  · rintro e n hWhole _ ⟨⟩
    exact hWhole e.span rfl
  · rintro e n hWhole _ ⟨⟩
    exact hWhole e.span rfl

theorem sortNew_of_forall_eq {precedes : String → String → Bool} {item : String}
    {items : List String} (hNe : items ≠ []) (h : ∀ other ∈ items, other = item) :
    sortNew precedes items = [item] := by
  induction items with
  | nil => exact absurd rfl hNe
  | cons first rest ih =>
      simp only [List.mem_cons, forall_eq_or_imp] at h
      obtain ⟨rfl, hRest⟩ := h
      show insertNew precedes first (sortNew precedes rest) = _
      by_cases hNil : rest = []
      · rw [hNil]
        rfl
      · rw [ih hNil hRest]
        simp [insertNew]

/-- Source material of one source makes it the only source. -/
theorem sources_eq_singleton {source : String} {tokens : List Token} (hRooted : Rooted tokens)
    (h : ∀ token ∈ tokens, ∀ span, token.span? = some span → span.source = source) :
    sources tokens = [source] := by
  obtain ⟨token, hToken, -, hSpan⟩ := hRooted
  obtain ⟨span, hSpan⟩ := Option.isSome_iff_exists.1 hSpan
  refine sortNew_of_forall_eq (fun hNil => ?_) fun other hOther => ?_
  · have hMem : span ∈ spans tokens := List.mem_filterMap.2 ⟨token, hToken, hSpan⟩
    rw [List.map_eq_nil_iff.1 hNil] at hMem
    cases hMem
  · obtain ⟨span, hMem, rfl⟩ := List.mem_map.1 hOther
    obtain ⟨token, hToken, hSpan⟩ := List.mem_filterMap.1 hMem
    exact h token hToken span hSpan

end Token

namespace View
open Token

theorem eq_of_parts {a b : View} (hDomain : a.domain = b.domain) (hSource : a.source = b.source)
    (hTokens : a.tokens = b.tokens) : a = b := by
  obtain ⟨aDomain, aSource, aTokens, aCanonical, aSourced⟩ := a
  obtain ⟨bDomain, bSource, bTokens, bCanonical, bSourced⟩ := b
  cases hDomain
  cases hSource
  cases hTokens
  rfl

/-- Tokens make a view when they come from exactly one source, and they are then brought into
canonical form. -/
theorem ofTokens_eq_ok_iff {domain : Domain} {tokens : List Token} {view : View} :
    ofTokens domain tokens = .ok view ↔
      sources tokens = [view.source] ∧ view.domain = domain ∧ view.tokens = normalize tokens := by
  unfold ofTokens
  split
  · next source hSource =>
      constructor
      · intro h
        cases h
        exact ⟨hSource, rfl, rfl⟩
      · rintro ⟨hOne, hDomain, hTokens⟩
        rw [hSource] at hOne
        exact congrArg Except.ok (eq_of_parts hDomain.symm (List.cons.inj hOne).1 hTokens.symm)
  · next hNone =>
      constructor
      · intro h
        cases h
      · exact fun h => absurd h.1 (hNone view.source)

theorem rooted_iff {view : View} : Rooted view.tokens ↔ ∃ token ∈ view.tokens, token.span?.isSome := by
  constructor
  · exact fun ⟨token, hToken, _, hSpan⟩ => ⟨token, hToken, hSpan⟩
  · exact fun ⟨token, hToken, hSpan⟩ => ⟨token, hToken, view.canonical.shows token hToken, hSpan⟩

theorem validate_of_excludeAll {view after : View} {exclusions : List Exclusion}
    (h : view.excludeAll exclusions = .ok after) :
    Exclusion.validate exclusions view.length = .ok () := by
  obtain ⟨⟨⟩, hValid, -⟩ := bind_eq_ok_iff.1 h
  exact hValid

/-- Exclusions that neither hide nor mark anything leave a view as it is. -/
theorem excludeAll_of_inactive {view : View} {exclusions : List Exclusion}
    (hValid : Exclusion.validate exclusions view.length = .ok ())
    (hInactive : exclusions.filter Exclusion.isActive = []) :
    view.excludeAll exclusions = .ok view := by
  simp [excludeAll, hValid, Exclusion.applyAll, hInactive, bind, Except.bind, pure, Except.pure]

/-- A view with source material is turned by valid exclusions into the view of the same source and
domain that the sweep over its atoms gives. -/
theorem exists_excludeAll {view : View} {exclusions : List Exclusion} (hRooted : Rooted view.tokens)
    (hValid : Exclusion.validate exclusions view.length = .ok ()) :
    ∃ swept after,
      Exclusion.sweep [] (placed 0 (atomize view.tokens)) (exclusions.filter Exclusion.isActive) =
        .ok swept ∧ Rooted swept ∧
      view.excludeAll exclusions = .ok after ∧ after.domain = view.domain ∧
        after.source = view.source ∧ after.tokens = normalize swept := by
  have hAtoms : Rooted ((placed 0 (atomize view.tokens)).map (·.2)) := by
    rw [map_snd_placed]
    exact rooted_atomize.2 hRooted
  have hSome : ∃ piece ∈ [] ++ placed 0 (atomize view.tokens), piece.2.span?.isSome = true := by
    obtain ⟨token, hToken, -, hSpan⟩ := hAtoms
    obtain ⟨piece, hPiece, rfl⟩ := List.mem_map.1 hToken
    exact ⟨piece, hPiece, hSpan⟩
  obtain ⟨swept, hSwept⟩ :=
    @Exclusion.exists_sweep _ _ (exclusions.filter Exclusion.isActive) hSome
  have hApplied : Exclusion.applyAll view.tokens exclusions = .ok (normalize swept) := by
    rw [Exclusion.applyAll_of_canonical view.canonical, hSwept]
    rfl
  have hSourced : ∀ token ∈ swept, ∀ span, token.span? = some span → span.source = view.source := by
    apply Exclusion.sourced_sweep hSwept
    intro piece hPiece
    exact sourced_atomize view.sourced piece.2 (mem_of_mem_placed (by simpa using hPiece))
  have hKept : Rooted swept := Exclusion.rooted_sweep hSwept hAtoms
  have hSources : sources (normalize swept) = [view.source] :=
    sources_eq_singleton hKept.normalize
      (source_of_mem_normalize hSourced)
  refine ⟨swept, ?_⟩
  unfold excludeAll
  rw [hValid, hApplied]
  by_cases hSame : normalize swept = view.tokens
  · refine ⟨view, hSwept, hKept, ?_, rfl, rfl, hSame.symm⟩
    simp only [bind, Except.bind, pure, Except.pure, hSame, if_true]
  · refine ⟨{ domain := view.domain, source := view.source, tokens := normalize swept,
              canonical := canonical_normalize swept,
              sourced := source_of_mem_normalize hSourced }, hSwept, hKept, ?_, rfl, rfl, rfl⟩
    simp only [bind, Except.bind, hSame, if_false]
    exact ofTokens_eq_ok_iff.2 ⟨hSources, rfl, (normalize_normalize swept).symm⟩

end View
end SourceView
