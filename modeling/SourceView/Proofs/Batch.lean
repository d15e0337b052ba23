import SourceView.Proofs.Exclude

/-! Many exclusions at once and one after the other. What stands in front of the first exclusion is
not changed by the later ones, so the first one may as well be applied to what they have left. -/
namespace SourceView

namespace Token

def GapsApart : List Token → Prop
  | gap _ :: gap _ :: _ => False
  | _ :: rest => GapsApart rest
  | [] => True

theorem gapsApart_excerpt {e : Excerpt} {rest : List Token} :
    GapsApart (excerpt e :: rest) ↔ GapsApart rest := by
  cases rest <;> simp [GapsApart]

theorem gapsApart_separator {s : Separator} {rest : List Token} :
    GapsApart (separator s :: rest) ↔ GapsApart rest := by
  cases rest <;> simp [GapsApart]

theorem GapsApart.tail {token : Token} {rest : List Token} (h : GapsApart (token :: rest)) :
    GapsApart rest := by
  cases token with
  | excerpt e => exact gapsApart_excerpt.1 h
  | separator s => exact gapsApart_separator.1 h
  | gap g =>
      cases rest with
      | nil => trivial
      | cons next tail => cases next <;> simp_all [GapsApart]

theorem GapsApart.left {before after : List Token} (h : GapsApart (before ++ after)) :
    GapsApart before := by
  induction before with
  | nil => trivial
  | cons token rest ih =>
      have hRest := ih h.tail
      cases token with
      | excerpt e => exact gapsApart_excerpt.2 hRest
      | separator s => exact gapsApart_separator.2 hRest
      | gap g =>
          cases rest with
          | nil => trivial
          | cons next tail =>
              cases next with
              | gap other => exact absurd h id
              | excerpt e => exact hRest
              | separator s => exact hRest

theorem GapsApart.right {before after : List Token} (h : GapsApart (before ++ after)) :
    GapsApart after := by
  induction before with
  | nil => exact h
  | cons token rest ih => exact ih h.tail

/-- Excerpts in front bring no gap next to another one. -/
theorem GapsApart.append_excerpts {before after : List Token} (h : GapsApart after)
    (hExcerpts : ∀ token ∈ before, ∃ e, token = excerpt e) : GapsApart (before ++ after) := by
  induction before with
  | nil => exact h
  | cons token rest ih =>
      simp only [List.mem_cons, forall_eq_or_imp] at hExcerpts
      obtain ⟨⟨e, rfl⟩, hRest⟩ := hExcerpts
      exact gapsApart_excerpt.2 (ih hRest)

/-- Dividing the tokens of a separated sequence brings no two gaps together. -/
theorem gapsApart_atomize {tokens : List Token} (hSeparated : Separated tokens)
    (hShows : ∀ token ∈ tokens, token.isEmptyExcerpt = false) : GapsApart (atomize tokens) := by
  induction tokens with
  | nil => trivial
  | cons token rest ih =>
      simp only [List.mem_cons, forall_eq_or_imp] at hShows
      have hRest := ih hSeparated.tail hShows.2
      cases token with
      | separator s => exact gapsApart_separator.2 hRest
      | excerpt e =>
          exact hRest.append_excerpts fun token hToken =>
            (mem_atoms_excerpt hToken).imp fun _ h => h.1
      | gap g =>
          cases rest with
          | nil => trivial
          | cons next tail =>
              cases next with
              | gap other => exact absurd hSeparated.1 id
              | separator s => exact hRest
              | excerpt e =>
                  have hText : e.text ≠ [] := by
                    simpa [isEmptyExcerpt] using hShows.2 (excerpt e) (by simp)
                  rw [atomize_cons, atoms_of_text_ne_nil hText] at hRest
                  rw [atomize_cons, atomize_cons, atoms_of_text_ne_nil hText]
                  exact hRest

/-- Attaching a token changes no atom, unless it is a gap in front of a gap. -/
theorem atomize_attach {token : Token} {rest : List Token}
    (h : ∀ a b tail, token = gap a → rest ≠ gap b :: tail) :
    atomize (attach token rest) = token.atoms ++ atomize rest := by
  unfold attach
  split
  · next a b tail =>
      split
      · next hAdjacent =>
          rw [atomize_cons, atoms_append hAdjacent, atomize_cons, List.append_assoc]
      · rfl
  · next a b tail => exact absurd rfl (h a b tail rfl)
  · rfl

/-- Atoms that do not end with a gap are found again in front of whatever they are fused with. -/
theorem atomize_foldr_attach {tokens rest : List Token}
    (hAtoms : ∀ token ∈ tokens, token.atoms = [token]) (hApart : GapsApart tokens)
    (hLast : ∀ before g, tokens ≠ before ++ [gap g]) :
    atomize (tokens.foldr attach rest) = tokens ++ atomize rest := by
  induction tokens with
  | nil => rfl
  | cons token tail ih =>
      simp only [List.mem_cons, forall_eq_or_imp] at hAtoms
      have hTail := ih hAtoms.2 hApart.tail fun before g hEq =>
        hLast (token :: before) g (by rw [hEq]; rfl)
      rw [List.foldr_cons, atomize_attach, hTail, hAtoms.1]
      · rfl
      · rintro a b others rfl hGap
        cases tail with
        | nil => exact hLast [] a rfl
        | cons next tail =>
            obtain ⟨first, _, hFirst, hExtends⟩ := exists_attach_eq_cons next (tail.foldr attach rest)
            rw [List.foldr_cons, hFirst] at hGap
            obtain ⟨rfl, -⟩ := List.cons.inj hGap
            cases next with
            | gap other => exact hApart
            | excerpt e => exact hExtends
            | separator s => exact hExtends

/-- Whether a token begins at a point of the source or hides it. -/
def Opens (point : Span) : Token → Prop
  | excerpt e => e.span.head = point
  | gap g =>
    g.anchor.source = point.source ∧ g.anchor.start ≤ point.start ∧ point.stop ≤ g.anchor.stop
  | separator _ => False

/-- A point that a token opens at is one that the token opens at when it is continued. -/
theorem Opens.of_extends {point : Span} {a b : Token} (h : Opens point a) (hExtends : Extends a b) :
    Opens point b := by
  cases a with
  | separator s => exact h.elim
  | excerpt e =>
      cases b with
      | excerpt other => exact hExtends.symm.trans h
      | gap g => exact hExtends.elim
      | separator s => exact hExtends.elim
  | gap g =>
      cases b with
      | excerpt e => exact hExtends.elim
      | separator s => exact hExtends.elim
      | gap other =>
          obtain ⟨hSource, hStart, hStop⟩ := hExtends
          exact ⟨hSource.symm.trans h.1, Nat.le_trans hStart h.2.1, Nat.le_trans h.2.2 hStop⟩

theorem opens_head {token : Token} {span : Span} (h : token.span? = some span) :
    Opens span.head token := by
  cases token with
  | separator s => cases h
  | excerpt e =>
      cases h
      rfl
  | gap g =>
      cases h
      exact ⟨rfl, Nat.le_refl _, g.anchor.ordered⟩

theorem tied_marker (point : Span) : Tied [gap ⟨point, true⟩] :=
  ⟨gap ⟨point, true⟩, by simp [effective, isEmptyExcerpt, isIdle], rfl⟩

/-- A marker in front of a gap that opens at its point disappears in it and makes it unknown. -/
theorem append_of_opens {point : Span} {g : Gap} (h : Opens point (gap g)) :
    (⟨point, true⟩ : Gap).append g = ⟨g.anchor, true⟩ := by
  obtain ⟨hSource, hStart, hStop⟩ := h
  have hAnchor : point.hull g.anchor = g.anchor :=
    Span.eq_of_parts hSource.symm (Nat.min_eq_right hStart) (Nat.max_eq_right hStop)
  simp [Gap.append, hAnchor]

/-- A marker at a point that a gap hides makes the gap unknown, wherever the point is. -/
theorem normalize_marker_gap {point : Span} {g : Gap} (h : Opens point (gap g))
    (hCaret : point.start = point.stop) (rest : List Token) :
    normalize (gap ⟨point, true⟩ :: gap g :: rest) = normalize (gap ⟨g.anchor, true⟩ :: rest) := by
  have hHull := append_of_opens h
  obtain ⟨hSource, hStart, hStop⟩ := h
  have hTied (anchor : Span) (tokens : List Token) : Tied (gap ⟨anchor, true⟩ :: tokens) :=
    (tied_marker anchor).append tokens
  have hKept (anchor : Span) (tokens : List Token) :
      effective (gap ⟨anchor, true⟩ :: tokens) = gap ⟨anchor, true⟩ :: effective tokens := by
    simp [effective, isEmptyExcerpt, isIdle]
  have hFused (anchor : Span) (tokens : List Token) :
      fuse (settle false (gap ⟨anchor, true⟩ :: tokens)) =
        attach (gap ⟨anchor, true⟩) (fuse (settle true tokens)) := rfl
  rw [normalize_of_tied (hTied _ _), normalize_of_tied (hTied _ _), hKept, hKept, hFused, hFused]
  cases hIdle : (gap g).isIdle with
  | true =>
      have hSame : point = g.anchor := by
        simp only [isIdle, Range.isCaret, Bool.and_eq_true, beq_iff_eq] at hIdle
        exact Span.eq_of_parts hSource.symm (by omega) (by omega)
      have hDropped : effective (gap g :: rest) = effective rest := by
        simp [effective, hIdle]
      rw [hDropped, hSame]
  | false =>
      have hWhole : effective (gap g :: rest) = gap g :: effective rest := by
        simp [effective, hIdle, isEmptyExcerpt]
      have hNext : fuse (settle true (gap g :: effective rest)) =
          attach (gap g) (fuse (settle true (effective rest))) := rfl
      rw [hWhole, hNext, ← attach_append_gap, hHull]

/-- A marker in front may stand at any point that the first token opens with. -/
theorem normalize_marker_congr {point : Span} {first : Token} {span : Span} {rest : List Token}
    (h : Opens point first) (hCaret : point.start = point.stop) (hSpan : first.span? = some span) :
    normalize (gap ⟨point, true⟩ :: first :: rest) =
      normalize (gap ⟨span.head, true⟩ :: first :: rest) := by
  cases first with
  | separator s => exact h.elim
  | excerpt e =>
      cases hSpan
      rw [show point = e.span.head from h.symm]
  | gap g =>
      cases hSpan
      rw [normalize_marker_gap h hCaret, normalize_marker_gap (opens_head rfl) rfl]

/-- Whether a point of the source is where the tokens with an effect begin. An idle gap may stand
there on its own. -/
def Begins (point : Span) (tokens : List Token) : Prop :=
  ∃ first rest, Opens point first ∧
    (effective tokens = first :: rest ∨ tokens = [first] ∧ first.isIdle = true)

theorem Opens.span?_isSome {point : Span} {token : Token} (h : Opens point token) :
    token.span?.isSome = true := by
  cases token with
  | excerpt e => rfl
  | gap g => rfl
  | separator s => exact h.elim

/-- A sequence that begins at a point of the source has no separator in front. -/
theorem Begins.led {point : Span} {tokens : List Token} (h : Begins point tokens) : Led tokens := by
  obtain ⟨first, rest, hOpens, hEffective | ⟨rfl, hIdle⟩⟩ := h
  · intro token others hEq
    obtain ⟨rfl, -⟩ := List.cons.inj (hEffective.symm.trans hEq)
    cases first with
    | excerpt e => rfl
    | gap g => rfl
    | separator s => exact hOpens.elim
  · exact led_of_effective_eq_nil (by simp [effective, hIdle])

/-- The canonical form begins at the same point of the source. -/
theorem Begins.normalize {point : Span} {tokens : List Token} (h : Begins point tokens) :
    ∃ first rest, normalize tokens = first :: rest ∧ Opens point first := by
  obtain ⟨first, rest, hOpens, hEffective | ⟨rfl, hIdle⟩⟩ := h
  · have hTied : Tied tokens := ⟨first, by simp [hEffective], hOpens.span?_isSome⟩
    obtain ⟨grown, tail, hGrown, hExtends⟩ := exists_fuse_settle_eq_cons false first rest
    exact ⟨grown, tail, by rw [normalize_of_tied hTied, hEffective, hGrown],
      hOpens.of_extends hExtends⟩
  · have hAnchored : anchored [first] = [first] := by simp [anchored, effective, hIdle]
    refine ⟨first, [], ?_, hOpens⟩
    rw [Token.normalize, hAnchored]
    cases first with
    | excerpt e => rfl
    | gap g => rfl
    | separator s => exact hOpens.elim

/-- The first atom of a token stands where the token begins in the source. -/
theorem exists_first_atom {token : Token} {span : Span} (hSpan : token.span? = some span)
    (hShows : token.isEmptyExcerpt = false) (rest : List Token) :
    ∃ first others part, atomize (token :: rest) = first :: others ∧ first.span? = some part ∧
      part.head = span.head := by
  cases token with
  | separator s => cases hSpan
  | gap g => exact ⟨gap g, atomize rest, span, rfl, hSpan, rfl⟩
  | excerpt e =>
      cases hSpan
      have hText : e.text ≠ [] := by simpa [isEmptyExcerpt] using hShows
      refine ⟨excerpt (e.take 1), atoms (excerpt (e.drop 1)) ++ atomize rest, e.span.take 1, ?_, rfl, rfl⟩
      rw [atomize_cons, atoms_of_text_ne_nil hText, List.cons_append]

/-- The first atom of a canonical grounded sequence comes from the source. It has an effect unless
it is all there is. -/
theorem Canonical.first_atom {tokens : List Token} (h : Canonical tokens)
    (hGrounded : Grounded tokens) :
    ∃ first rest span, atomize tokens = first :: rest ∧ first.span? = some span ∧
      (effective (atomize tokens) = atomize tokens ∨
        rest = [] ∧ first.isIdle = true ∧ totalWidth tokens = 0) := by
  rcases h.cases with hAll | ⟨g, rest, rfl, hIdle, hSeparators, hWidth⟩
  · have hAtoms : effective (atomize tokens) = atomize tokens := by rw [effective_atomize, hAll]
    obtain ⟨token, rest, rfl, hFirst⟩ := h.first_of_grounded hGrounded
    obtain ⟨span, hSpan⟩ : ∃ span, token.span? = some span := by
      cases token with
      | separator s => cases hFirst
      | gap g => exact ⟨_, rfl⟩
      | excerpt e => exact ⟨_, rfl⟩
    obtain ⟨first, others, part, hAtomized, hPart, -⟩ :=
      exists_first_atom hSpan (h.shows token List.mem_cons_self) rest
    exact ⟨first, others, part, hAtomized, hPart, .inl hAtoms⟩
  · refine ⟨gap g, atomize rest, g.anchor, rfl, rfl, .inr ⟨?_, hIdle, hWidth⟩⟩
    have hKept : effective (gap g :: rest) = rest := by
      rw [effective, List.filter_cons_of_neg (by simp [hIdle])]
      apply List.filter_eq_self.2
      intro other hOther
      have := hSeparators other hOther
      cases other <;> simp_all [isSeparator, isEmptyExcerpt, isIdle]
    cases rest with
    | nil => rfl
    | cons other rest =>
        have hOther := hGrounded.led other rest hKept
        rw [hSeparators other (by simp)] at hOther
        cases hOther

/-- How the atoms of a sequence are parted at an offset of the shown text: `before` is made of those
that begin in front of it. -/
structure PartedAt (offset : Nat) (tokens before after : List Token) : Prop where
  atoms_eq : atomize tokens = before ++ after
  width_eq : totalWidth before = offset
  passed : ∀ piece ∈ placed 0 before, piece.1 < offset

/-- Every offset of the shown text parts the atoms of a sequence. -/
theorem exists_partedAt {offset : Nat} {tokens : List Token} (hOffset : offset ≤ totalWidth tokens) :
    ∃ before after, PartedAt offset tokens before after := by
  have hNarrow (token : Token) (hToken : token ∈ atomize tokens) : token.width ≤ 1 :=
    (mem_atomize hToken).2.1
  obtain ⟨before, after, hParts, hWidth, hPassed⟩ :=
    exists_append_of_narrow hNarrow (Nat.zero_le offset) (by rwa [totalWidth_atomize, Nat.zero_add])
  rw [Nat.zero_add] at hWidth
  exact ⟨before, after, hParts, hWidth, hPassed⟩

namespace PartedAt
variable {offset : Nat} {tokens before after : List Token}

theorem mem_atomize (h : PartedAt offset tokens before after) {token : Token} (hToken : token ∈ before) :
    token ∈ atomize tokens := by
  rw [h.atoms_eq]
  exact List.mem_append_left _ hToken

/-- The separators in front of the offset are settled among themselves. -/
theorem settle_before (h : PartedAt offset tokens before after) (hCanonical : Canonical tokens) :
    settle false before = before := by
  have hWhole : settle false (atomize tokens) = atomize tokens := by
    rw [settle_atomize false hCanonical.shows, settle_of_settled hCanonical.settled]
  rw [h.atoms_eq, settle_append] at hWhole
  exact (List.append_inj hWhole (length_settle false before)).1

/-- Gaps at the offset belong to what stands behind it. -/
theorem ne_append_gap (h : PartedAt offset tokens before after) (front : List Token) (g : Gap) :
    before ≠ front ++ [gap g] := by
  rintro rfl
  have hGap := h.passed (0 + totalWidth front, gap g) (mem_placed_iff.2 ⟨front, [], rfl, rfl⟩)
  have hWidth := h.width_eq
  rw [totalWidth_append] at hWidth
  simp only [totalWidth, width_gap] at hWidth
  omega

/-- What stands in front of an offset has an effect: behind an idle gap nothing is shown. -/
theorem effective_before (h : PartedAt offset tokens before after) (hCanonical : Canonical tokens) :
    effective before = before := by
  rcases hCanonical.cases with hAll | ⟨g, rest, -, -, -, hNone⟩
  · have hAtoms : effective (atomize tokens) = atomize tokens := by rw [effective_atomize, hAll]
    apply effective_eq_self
    intro token hToken
    exact (mem_effective.1 (hAtoms.symm ▸ h.mem_atomize hToken)).2
  · have hEmpty : before = [] := by
      apply List.eq_nil_iff_forall_not_mem.2
      intro token hToken
      have hWidth := congrArg totalWidth h.atoms_eq
      rw [totalWidth_atomize, hNone, totalWidth_append] at hWidth
      rw [← map_snd_placed 0 before] at hToken
      obtain ⟨piece, hPiece, -⟩ := List.mem_map.1 hToken
      have hPassed := h.passed piece hPiece
      have hEnd := h.width_eq
      omega
    rw [hEmpty]
    rfl

/-- Atoms in front of an offset stay as they are when others come behind them and the whole is brought
into canonical form and divided again. -/
theorem atomize_normalize_append (h : PartedAt offset tokens before after)
    (hCanonical : Canonical tokens) {rest : List Token} (hTied : Tied (before ++ rest)) :
    atomize (normalize (before ++ rest)) =
      before ++ atomize (fuse (settle (before.any wakes) (effective rest))) := by
  have hAtoms (token : Token) (hToken : token ∈ before) : token.atoms = [token] :=
    (Token.mem_atomize (h.mem_atomize hToken)).2.2
  have hApart : GapsApart before := by
    have hWhole := gapsApart_atomize hCanonical.separated hCanonical.shows
    rw [h.atoms_eq] at hWhole
    exact hWhole.left
  rw [normalize_of_tied hTied, effective_append, h.effective_before hCanonical, settle_append,
    h.settle_before hCanonical, fuse_append, atomize_foldr_attach hAtoms hApart h.ne_append_gap,
    Bool.false_or]

end PartedAt

end Token

namespace Exclusion
open Token

/-- What hidden material is put together to covers the first of its spans. -/
theorem hullAll?_covers {span anchor : Span} {spans : List Span}
    (h : Span.hullAll? (span :: spans) = some anchor) :
    anchor.source = span.source ∧ anchor.start ≤ span.start ∧ span.stop ≤ anchor.stop := by
  rw [← List.singleton_append, Span.hullAll?_append] at h
  cases hRest : Span.hullAll? spans with
  | none =>
      rw [hRest] at h
      cases h
      exact ⟨rfl, Nat.le_refl _, Nat.le_refl _⟩
  | some other =>
      rw [hRest] at h
      cases h
      exact ⟨rfl, Nat.min_le_left _ _, Nat.le_max_left _ _⟩

/-- What is hidden from the very start leaves a gap there. -/
theorem substitute_first {e : Exclusion} {first : Token} {span : Span} {rest : List Piece}
    {gaps : List Token} (hSpan : first.span? = some span) (hShows : first.isEmptyExcerpt = false)
    (hFront : e.front ((0, first) :: rest) = [])
    (h : e.substitute [] (e.covered ((0, first) :: rest)) (e.behind ((0, first) :: rest)) =
      .ok gaps) :
    ∃ g, gaps = [.gap g] ∧ (Token.gap g).isIdle = false ∧ Opens span.head (.gap g) := by
  have hWhole := e.front_append_covered_append_behind ((0, first) :: rest)
  rw [hFront, List.nil_append] at hWhole
  have hNotBefore : isBefore e.start (!e.isCaret) (0, first) = false := by
    cases hTest : isBefore e.start (!e.isCaret) (0, first) with
    | false => rfl
    | true => simp [front, hTest] at hFront
  have hReached (hCaret : e.isCaret = false) :
      ∃ hidden, e.covered ((0, first) :: rest) = (0, first) :: hidden := by
    have hProper := Range.not_isCaret_iff.1 hCaret
    have hStop : 0 < e.stop := Nat.lt_of_le_of_lt (Nat.zero_le _) hProper
    exact ⟨rest.takeWhile (·.1 < e.stop), by simp [covered, hNotBefore, hStop]⟩
  rcases substitute_cases h with ⟨anchor, hAnchor, rfl, -⟩ | ⟨hCaret, anchor, hAnchor, rfl⟩ |
    ⟨hCaret, -, hNone, -⟩
  · refine ⟨_, rfl, by simp [isIdle], ?_⟩
    rw [hWhole, markerAnchor_eq] at hAnchor
    simp only [List.findSome?_nil, List.findSome?_cons, hSpan] at hAnchor
    cases hAnchor
    exact ⟨rfl, Nat.le_refl _, Nat.le_refl _⟩
  · obtain ⟨hidden, hCovered⟩ := hReached hCaret
    have hCons : ((0, first) :: hidden).filterMap (·.2.span?) =
        span :: hidden.filterMap (·.2.span?) := by simp [hSpan]
    rw [hCovered, hCons] at hAnchor
    obtain ⟨hSource, hStart, hStop⟩ := hullAll?_covers hAnchor
    have hOrdered := span.ordered
    refine ⟨_, rfl, ?_, hSource, hStart, Nat.le_trans hOrdered hStop⟩
    -- A gap stays in front of the exclusion, so the hidden token is an excerpt.
    cases first with
    | separator s => cases hSpan
    | gap g =>
        simp only [isBefore, isVisible, shown, hCaret, List.isEmpty_nil] at hNotBefore
        simp at hNotBefore
        omega
    | excerpt u =>
        cases hSpan
        have hText : u.text.length ≠ 0 := by simpa [isEmptyExcerpt] using hShows
        have hLong := u.stop_eq
        have hProper : anchor.start ≠ anchor.stop := by omega
        simp [isIdle, Range.isCaret, hProper]
  · obtain ⟨hidden, hCovered⟩ := hReached hCaret
    rw [hCovered] at hNone
    simp [hSpan, Span.hullAll?] at hNone

/-- Whatever is hidden or marked, the source still begins where it did. -/
theorem begins_sweep {tokens : List Token} (hCanonical : Canonical tokens)
    (hGrounded : Grounded tokens) {exclusions : List Exclusion}
    (hWithin : ∀ e ∈ exclusions, e.stop ≤ totalWidth tokens) {first : Token} {rest : List Token}
    {span : Span} (hFirst : atomize tokens = first :: rest) (hSpan : first.span? = some span)
    {swept : List Token} (h : sweep [] (placed 0 (atomize tokens)) exclusions = .ok swept) :
    Begins span.head swept := by
  have hOpens := opens_head hSpan
  have hAtoms : effective (atomize tokens) = first :: rest ∨
      rest = [] ∧ first.isIdle = true ∧ totalWidth tokens = 0 := by
    obtain ⟨other, others, -, hOther, -, hCases⟩ := hCanonical.first_atom hGrounded
    obtain ⟨rfl, rfl⟩ := List.cons.inj (hFirst.symm.trans hOther)
    rwa [← hFirst]
  have hPlaced : placed 0 (atomize tokens) = (0, first) :: placed (0 + first.width) rest := by
    rw [hFirst, placed]
  cases exclusions with
  | nil =>
      rw [sweep, map_snd_placed] at h
      cases h
      refine ⟨first, rest, hOpens, ?_⟩
      rcases hAtoms with hAll | ⟨rfl, hIdle, -⟩
      · exact .inl hAll
      · exact .inr ⟨hFirst, hIdle⟩
  | cons e later =>
      have hStop := hWithin e (by simp)
      obtain ⟨gaps, after, hGaps, -, rfl⟩ := sweep_cons_eq_ok_iff.1 h
      rw [hPlaced] at hGaps ⊢
      cases hTest : isBefore e.start (!e.isCaret) (0, first) with
      | false =>
          have hFront : e.front ((0, first) :: placed (0 + first.width) rest) = [] := by
            simp [front, hTest]
          have hShows : first.isEmptyExcerpt = false := (mem_atomize (by rw [hFirst]; simp)).1
          rw [hFront] at hGaps ⊢
          obtain ⟨g, rfl, hBusy, hGap⟩ := substitute_first hSpan hShows hFront hGaps
          refine ⟨.gap g, effective after, hGap, .inl ?_⟩
          simp [effective, isEmptyExcerpt, hBusy]
      | true =>
          obtain ⟨more, hFront⟩ : ∃ more,
              e.front ((0, first) :: placed (0 + first.width) rest) = (0, first) :: more :=
            ⟨_, by rw [front, List.takeWhile_cons_of_pos hTest]⟩
          rw [hFront]
          refine ⟨first, effective (more.map (·.2) ++ gaps ++ after), hOpens, .inl ?_⟩
          rcases hAtoms with hAll | ⟨-, hIdle, hWidth⟩
          · have hMem : first ∈ effective (atomize tokens) := by simp [hAll]
            obtain ⟨-, hShows, hBusy⟩ := mem_effective.1 hMem
            simp [effective, hShows, hBusy]
          · -- Nothing is shown, so the exclusion only marks, and nothing is in front of it.
            have hOrdered := e.ordered
            have hCaret : e.isCaret = true := Range.isCaret_iff.2 (by omega)
            have hStart : e.start = 0 := by omega
            simp [isBefore, hCaret, hStart] at hTest

/-- Later exclusions leave the atoms in front of them as they are, also when the result is brought
into canonical form and divided again. -/
theorem exists_prefix {tokens : List Token} (hCanonical : Canonical tokens)
    (hGrounded : Grounded tokens) {offset : Nat} (hPositive : 0 < offset)
    (hOffset : offset ≤ totalWidth tokens) {later : List Exclusion}
    (hLater : ∀ e ∈ later, offset ≤ e.start) {swept : List Token}
    (h : sweep [] (placed 0 (atomize tokens)) later = .ok swept) :
    ∃ before after rest, PartedAt offset tokens before after ∧ Tied before ∧
      sweep (placed 0 before).reverse (placed offset after) later = .ok rest ∧
      swept = before ++ rest ∧
      atomize (normalize swept) =
        before ++ atomize (fuse (settle (before.any wakes) (effective rest))) := by
  obtain ⟨before, after, hParts⟩ := exists_partedAt hOffset
  have hSwept := @sweep_append [] (placed 0 before) (placed offset after) later
    fun e he piece hPiece => Nat.lt_of_lt_of_le (hParts.passed piece hPiece) (hLater e he)
  rw [hParts.atoms_eq, placed_append, Nat.zero_add, hParts.width_eq, hSwept, map_snd_placed,
    List.append_nil] at h
  cases hRest : sweep (placed 0 before).reverse (placed offset after) later with
  | error fault =>
      rw [hRest] at h
      cases h
  | ok rest =>
      rw [hRest] at h
      cases h
      have hTied : Tied before := by
        obtain ⟨first, others, span, hFirst, hSpan, -⟩ := hCanonical.first_atom hGrounded
        cases before with
        | nil =>
            rw [← hParts.width_eq] at hPositive
            exact absurd hPositive (Nat.lt_irrefl 0)
        | cons token tail =>
            obtain ⟨rfl, -⟩ := List.cons.inj (hFirst.symm.trans hParts.atoms_eq)
            refine ⟨first, ?_, by rw [hSpan]; rfl⟩
            rw [hParts.effective_before hCanonical]
            exact List.mem_cons_self
      exact ⟨before, after, rest, hParts, hTied, hRest, rfl,
        hParts.atomize_normalize_append hCanonical (hTied.append rest)⟩

/-- Later exclusions keep everything in front of them shown. -/
theorem le_totalWidth_normalize {tokens : List Token} (hCanonical : Canonical tokens)
    (hGrounded : Grounded tokens) {offset : Nat} (hOffset : offset ≤ totalWidth tokens)
    {later : List Exclusion} (hLater : ∀ e ∈ later, offset ≤ e.start) {swept : List Token}
    (h : sweep [] (placed 0 (atomize tokens)) later = .ok swept) :
    offset ≤ totalWidth (normalize swept) := by
  rcases Nat.eq_zero_or_pos offset with rfl | hPositive
  · exact Nat.zero_le _
  · obtain ⟨before, after, rest, hParts, -, -, -, hAtoms⟩ :=
      exists_prefix hCanonical hGrounded hPositive hOffset hLater h
    rw [← totalWidth_atomize, hAtoms, totalWidth_append, hParts.width_eq]
    exact Nat.le_add_right _ _

/-- An exclusion at the very start that hides nothing puts a marker where the first token begins. -/
theorem exists_of_sweep_stop_eq_zero {e : Exclusion} (hStop : e.stop = 0) {later : List Exclusion}
    {first : Token} {rest : List Token} {span : Span} (hSpan : first.span? = some span)
    {swept : List Token} (h : sweep [] (placed 0 (first :: rest)) (e :: later) = .ok swept) :
    ∃ after, sweep [] (placed 0 (first :: rest)) later = .ok after ∧
      swept = .gap ⟨span.head, true⟩ :: after := by
  have hCaret : e.isCaret = true := Range.isCaret_iff.2 (by omega)
  obtain ⟨hFront, hCovered, hBehind, -⟩ := @parts_append e [] (placed 0 (first :: rest)) (by simp)
    fun piece _ => by omega
  rw [List.nil_append] at hFront hCovered hBehind
  obtain ⟨gaps, after, hGaps, hAfter, rfl⟩ := sweep_cons_eq_ok_iff.1 h
  rw [hFront, hCovered, hBehind] at hGaps hAfter
  refine ⟨after, hAfter, ?_⟩
  rw [substitute, hCaret, markerAnchor_eq, placed] at hGaps
  simp only [front, covered, List.takeWhile_nil, List.dropWhile_nil, List.reverse_nil,
    List.nil_append, List.findSome?_nil, List.findSome?_cons, hSpan] at hGaps
  cases hGaps
  rw [hFront]
  rfl

/-- Such an exclusion may be applied before or after the later ones. -/
theorem normalize_step_of_stop_eq_zero {tokens : List Token} (hCanonical : Canonical tokens)
    (hGrounded : Grounded tokens) {e : Exclusion} (hStop : e.stop = 0) {later : List Exclusion}
    (hWithin : ∀ other ∈ later, other.stop ≤ totalWidth tokens) {swept whole stepped : List Token}
    (hSwept : sweep [] (placed 0 (atomize tokens)) later = .ok swept)
    (hWhole : sweep [] (placed 0 (atomize tokens)) (e :: later) = .ok whole)
    (hStepped : sweep [] (placed 0 (atomize (normalize swept))) [e] = .ok stepped) :
    normalize stepped = normalize whole := by
  obtain ⟨first, rest, span, hFirst, hSpan, -⟩ := hCanonical.first_atom hGrounded
  rw [hFirst] at hWhole
  obtain ⟨after, hAfter, rfl⟩ := exists_of_sweep_stop_eq_zero hStop hSpan hWhole
  rw [← hFirst] at hAfter
  obtain rfl : swept = after := Except.ok.inj (hSwept.symm.trans hAfter)
  obtain ⟨opening, tail, hNormal, hOpens⟩ :=
    (begins_sweep hCanonical hGrounded hWithin hFirst hSpan hSwept).normalize
  obtain ⟨whole, hOpening⟩ := Option.isSome_iff_exists.1 hOpens.span?_isSome
  obtain ⟨atom, atoms, part, hAtoms, hPart, hHead⟩ := exists_first_atom hOpening
    ((canonical_normalize swept).shows opening (by simp [hNormal])) tail
  rw [hNormal, hAtoms] at hStepped
  obtain ⟨divided, hDivided, rfl⟩ := exists_of_sweep_stop_eq_zero hStop hPart hStepped
  rw [sweep, map_snd_placed, ← hAtoms, ← hNormal] at hDivided
  cases hDivided
  calc normalize (.gap ⟨part.head, true⟩ :: atomize (normalize swept))
      = normalize (.gap ⟨whole.head, true⟩ :: normalize swept) := by
        rw [hHead, ← normalize_atomize (.gap ⟨whole.head, true⟩ :: normalize swept)]
        rfl
    _ = normalize (.gap ⟨span.head, true⟩ :: normalize swept) := by
        rw [hNormal, normalize_marker_congr hOpens rfl hOpening]
    _ = normalize (.gap ⟨span.head, true⟩ :: swept) :=
        normalize_append_normalize (tied_marker span.head) swept

/-- What an exclusion leaves of the atoms in front of its end, together with what it puts in place of
the others, ties a sequence to its source. -/
theorem tied_front_append_substitute {e : Exclusion} {first : Token} {tail : List Token}
    (hKept : effective (first :: tail) = first :: tail) (hSpan : first.span?.isSome = true)
    (hBefore : ∀ piece ∈ placed 0 (first :: tail), piece.1 < e.stop) {right : List Piece}
    {gaps : List Token}
    (h : e.substitute (e.front (placed 0 (first :: tail))).reverse
      (e.covered (placed 0 (first :: tail))) right = .ok gaps) :
    Tied ((e.front (placed 0 (first :: tail))).map (·.2) ++ gaps) := by
  obtain ⟨span, hSpan⟩ := Option.isSome_iff_exists.1 hSpan
  obtain ⟨-, hShows, hBusy⟩ := mem_effective.1 (hKept.symm ▸ List.mem_cons_self)
  rw [placed] at h hBefore ⊢
  obtain ⟨-, -, -, hBoth⟩ :=
    @parts_append e ((0, first) :: placed (0 + first.width) tail) [] hBefore (by simp)
  cases hTest : isBefore e.start (!e.isCaret) (0, first) with
  | true =>
      have hFront : e.front ((0, first) :: placed (0 + first.width) tail) =
          (0, first) :: (placed (0 + first.width) tail).takeWhile (isBefore e.start (!e.isCaret)) :=
        List.takeWhile_cons_of_pos hTest
      refine Tied.append ⟨first, mem_effective.2 ⟨?_, hShows, hBusy⟩, by rw [hSpan]; rfl⟩ gaps
      rw [hFront]
      exact List.mem_cons_self
  | false =>
      have hFront : e.front ((0, first) :: placed (0 + first.width) tail) = [] := by
        simp [front, hTest]
      rw [hFront, List.nil_append] at hBoth
      have hRooted : ∃ piece ∈ [] ++ e.covered ((0, first) :: placed (0 + first.width) tail),
          piece.2.span?.isSome = true :=
        ⟨(0, first), by rw [hBoth]; exact List.mem_cons_self, by rw [hSpan]; rfl⟩
      rw [hFront, List.reverse_nil, substitute_congr _ (e.behind _) hRooted] at h
      obtain ⟨g, rfl, hGap, -⟩ := substitute_first hSpan hShows hFront h
      rw [hFront]
      exact ⟨.gap g, by simp [effective, hGap, isEmptyExcerpt], rfl⟩

/-- A sweep looks at what stands in front of the end of its first exclusion, and then at the rest. -/
theorem exists_of_sweep_cons {e : Exclusion} {later : List Exclusion} {before after swept : List Token}
    (hWidth : totalWidth before = e.stop) (hBefore : ∀ piece ∈ placed 0 before, piece.1 < e.stop)
    (h : sweep [] (placed 0 (before ++ after)) (e :: later) = .ok swept) :
    ∃ gaps others,
      e.substitute (e.front (placed 0 before)).reverse (e.covered (placed 0 before))
        (placed e.stop after) = .ok gaps ∧
      sweep (placed 0 before).reverse (placed e.stop after) later = .ok others ∧
      swept = (e.front (placed 0 before)).map (·.2) ++ gaps ++ others := by
  rw [placed_append, Nat.zero_add, hWidth] at h
  obtain ⟨gaps, others, hGaps, hOthers, rfl⟩ := sweep_cons_eq_ok_iff.1 h
  obtain ⟨hFront, hCovered, hBehind, hBoth⟩ := @parts_append e (placed 0 before)
    (placed e.stop after) hBefore fun piece hPiece => (start_of_mem_placed hPiece).1
  rw [hFront, hCovered, hBehind, List.append_nil] at hGaps
  rw [hFront, hCovered, hBehind, hBoth, List.append_nil] at hOthers
  exact ⟨gaps, others, hGaps, hOthers, by rw [hFront]⟩

/-- The exclusion in front may be applied together with the later ones or after them. -/
theorem normalize_step {tokens : List Token} (hCanonical : Canonical tokens)
    (hGrounded : Grounded tokens) {e : Exclusion} (hStop : e.stop ≤ totalWidth tokens)
    {later : List Exclusion} (hLater : ∀ other ∈ later, e.stop ≤ other.start)
    (hWithin : ∀ other ∈ later, other.stop ≤ totalWidth tokens) {swept whole stepped : List Token}
    (hSwept : sweep [] (placed 0 (atomize tokens)) later = .ok swept)
    (hWhole : sweep [] (placed 0 (atomize tokens)) (e :: later) = .ok whole)
    (hStepped : sweep [] (placed 0 (atomize (normalize swept))) [e] = .ok stepped) :
    normalize stepped = normalize whole := by
  rcases Nat.eq_zero_or_pos e.stop with hZero | hPositive
  · exact normalize_step_of_stop_eq_zero hCanonical hGrounded hZero hWithin hSwept hWhole hStepped
  · obtain ⟨before, after, rest, hParts, hTied, hRest, rfl, hAtoms⟩ :=
      exists_prefix hCanonical hGrounded hPositive hStop hLater hSwept
    have hWidth := hParts.width_eq
    have hBefore := hParts.passed
    have hKept := hParts.effective_before hCanonical
    obtain ⟨first, others, span, hFirst, hSpan, -⟩ := hCanonical.first_atom hGrounded
    have hRooted : ∃ piece ∈ (e.front (placed 0 before)).reverse ++ e.covered (placed 0 before),
        piece.2.span?.isSome = true := by
      obtain ⟨-, -, -, hBoth⟩ := @parts_append e (placed 0 before) [] hBefore (by simp)
      obtain ⟨token, hToken, hSome⟩ := hTied
      rw [hKept, ← map_snd_placed 0 before] at hToken
      obtain ⟨piece, hPiece, rfl⟩ := List.mem_map.1 hToken
      rw [← hBoth] at hPiece
      exact ⟨piece, by simpa using hPiece, hSome⟩
    rw [hParts.atoms_eq] at hWhole
    rw [hAtoms] at hStepped
    -- Both sweeps come upon the same pieces in front of the end of the exclusion.
    obtain ⟨gaps, after', hGaps, hAfter, rfl⟩ := exists_of_sweep_cons hWidth hBefore hWhole
    obtain ⟨gaps', divided, hGaps', hDivided, rfl⟩ := exists_of_sweep_cons hWidth hBefore hStepped
    obtain rfl : rest = after' := Except.ok.inj (hRest.symm.trans hAfter)
    obtain rfl : gaps = gaps' := by
      rw [substitute_congr _ (placed e.stop after) hRooted, hGaps] at hGaps'
      exact Except.ok.inj hGaps'
    rw [sweep, map_snd_placed] at hDivided
    cases hDivided
    have hFrontTied : Tied ((e.front (placed 0 before)).map (·.2) ++ gaps) := by
      cases before with
      | nil =>
          rw [← hWidth] at hPositive
          exact absurd hPositive (Nat.lt_irrefl 0)
      | cons other tail =>
          obtain ⟨rfl, -⟩ := List.cons.inj (hFirst.symm.trans hParts.atoms_eq)
          exact tied_front_append_substitute hKept (by rw [hSpan]; rfl) hBefore hGaps
    have hFrontAtoms : atomize ((e.front (placed 0 before)).map (·.2)) =
        (e.front (placed 0 before)).map (·.2) := by
      apply atomize_eq_self
      intro token hToken
      have hMem : token ∈ before := by
        rw [← map_snd_placed 0 before]
        exact ((List.takeWhile_sublist _).map _).mem hToken
      exact (mem_atomize (hParts.mem_atomize hMem)).2.2
    have hDivided : (e.front (placed 0 before)).map (·.2) ++ gaps ++
        atomize (fuse (settle (before.any wakes) (effective rest))) =
        atomize ((e.front (placed 0 before)).map (·.2) ++ gaps ++
          fuse (settle (before.any wakes) (effective rest))) := by
      rw [atomize_append, atomize_append, hFrontAtoms, atomize_substitute hGaps]
    rw [hDivided, normalize_atomize, normalize_append_fuse hFrontTied]

end Exclusion
end SourceView
