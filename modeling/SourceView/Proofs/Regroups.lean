import SourceView.Proofs.Exclude

/-! What becomes of the spans behind a view. The canonical form and exclusions only regroup them:
empty spans come and go, neighbours become one and spans are divided, all in their places. How the
spans follow each other therefore stays as it is. -/
namespace SourceView

namespace Span

/-- Whether a list of spans is another one regrouped. -/
inductive Regroups : List Span → List Span → Prop
  | refl (spans : List Span) : Regroups spans spans
  | trans {first second third : List Span} (h : Regroups first second) (h' : Regroups second third) :
      Regroups first third
  | append {before before' after after' : List Span} (hBefore : Regroups before before')
      (hAfter : Regroups after after') : Regroups (before ++ after) (before' ++ after')
  | discard {span : Span} (h : span.start = span.stop) : Regroups [span] []
  | markHead (span : Span) : Regroups [span] [span.head, span]
  | markTail (span : Span) : Regroups [span] [span, span.tail]
  | merge (a b : Span) : Regroups [a, b] [a.hull b]
  | divide (span : Span) (n : Nat) : Regroups [span] [span.take n, span.drop n]

theorem Regroups.cons {before after : List Span} (span : Span) (h : Regroups before after) :
    Regroups (span :: before) (span :: after) :=
  .append (.refl [span]) h

/-- Spans that are made one over all of them are regrouped. -/
theorem Regroups.hullAll? {spans : List Span} {anchor : Span} (h : hullAll? spans = some anchor) :
    Regroups spans [anchor] := by
  cases spans with
  | nil => cases h
  | cons first rest =>
      cases h
      induction rest generalizing first with
      | nil => exact .refl _
      | cons second rest ih =>
          exact .trans (.append (.merge first second) (.refl rest)) (ih (first.hull second))

/-- The hull of two spans that touch has nothing else in it. -/
theorem hull_of_adjacent {a b : Span} (h : a.Adjacent b) :
    a.hull b = { source := a.source, start := a.start, stop := b.stop,
                 ordered := Nat.le_trans a.ordered (h.2 ▸ b.ordered) } := by
  have hBetween := h.2
  have hFirst := a.ordered
  have hSecond := b.ordered
  refine eq_of_parts rfl ?_ ?_
  · show min a.start b.start = a.start
    omega
  · show max a.stop b.stop = b.stop
    omega

/-- Relations of an offset to a later one that stay what they are when more offsets are taken in
between. -/
structure Following (r : Nat → Nat → Prop) : Prop where
  refl : ∀ offset, r offset offset
  trans : ∀ {first second third}, r first second → r second third → r first third
  le : ∀ {first second}, r first second → first ≤ second

theorem following_eq : Following (· = ·) := ⟨fun _ => rfl, Eq.trans, Nat.le_of_eq⟩

theorem following_le : Following (· ≤ ·) := ⟨Nat.le_refl, Nat.le_trans, id⟩

/-- Whether spans lead from one source offset to another, so that from each one's end to the next
one's start the relation holds. -/
def Chained (r : Nat → Nat → Prop) : Nat → List Span → Nat → Prop
  | start, [], stop => r start stop
  | start, span :: rest, stop => r start span.start ∧ Chained r span.stop rest stop

variable {r : Nat → Nat → Prop}

/-- What leads on from a later offset leads on from an earlier one that is related to it. -/
theorem Chained.of_following (hr : Following r) {start middle stop : Nat} {spans : List Span}
    (hStart : r start middle) (h : Chained r middle spans stop) : Chained r start spans stop := by
  cases spans with
  | nil => exact hr.trans hStart h
  | cons span rest => exact ⟨hr.trans hStart h.1, h.2⟩

/-- Spans lead through two parts by way of an offset between them. -/
theorem chained_append (hr : Following r) {start stop : Nat} {before after : List Span} :
    Chained r start (before ++ after) stop ↔
      ∃ middle, Chained r start before middle ∧ Chained r middle after stop := by
  induction before generalizing start with
  | nil =>
      constructor
      · exact fun h => ⟨start, hr.refl start, h⟩
      · rintro ⟨middle, hStart, hAfter⟩
        exact hAfter.of_following hr hStart
  | cons span rest ih =>
      simp only [List.cons_append, Chained, ih]
      constructor
      · rintro ⟨hStart, middle, hRest, hAfter⟩
        exact ⟨middle, ⟨hStart, hRest⟩, hAfter⟩
      · rintro ⟨middle, ⟨hStart, hRest⟩, hAfter⟩
        exact ⟨hStart, middle, hRest, hAfter⟩

/-- Regrouped spans lead as far as the spans did before. -/
theorem Regroups.chained (hr : Following r) {before after : List Span} (h : Regroups before after)
    {start stop : Nat} (hBefore : Chained r start before stop) : Chained r start after stop := by
  induction h generalizing start stop with
  | refl spans => exact hBefore
  | trans h h' ih ih' => exact ih' (ih hBefore)
  | append h h' ih ih' =>
      obtain ⟨middle, hFirst, hSecond⟩ := (chained_append hr).1 hBefore
      exact (chained_append hr).2 ⟨middle, ih hFirst, ih' hSecond⟩
  | discard h => exact hr.trans (h ▸ hBefore.1) hBefore.2
  | markHead span => exact ⟨hBefore.1, hr.refl _, hBefore.2⟩
  | markTail span => exact ⟨hBefore.1, hr.refl _, hBefore.2⟩
  | divide span n =>
      have hStop : (span.take n).stop = (span.drop n).start := rfl
      exact ⟨hBefore.1, hStop ▸ hr.refl _, hBefore.2⟩
  | merge a b =>
      obtain ⟨hStart, hBetween, hStop⟩ := hBefore
      have hFirst := a.ordered
      have hSecond := b.ordered
      have hLe := hr.le hBetween
      have hHullStart : (a.hull b).start = a.start := Nat.min_eq_left (by omega)
      have hHullStop : (a.hull b).stop = b.stop := Nat.max_eq_right (by omega)
      exact ⟨hHullStart ▸ hStart, hHullStop ▸ hStop⟩

end Span

namespace Token
open SourceView.Span

theorem spans_append (before after : List Token) :
    spans (before ++ after) = spans before ++ spans after := List.filterMap_append ..

theorem spans_cons (token : Token) (rest : List Token) :
    spans (token :: rest) = spans [token] ++ spans rest := spans_append [token] rest

/-- A sequence without spans has no source material. -/
theorem spans_eq_nil_iff {tokens : List Token} :
    spans tokens = [] ↔ tokens.any (·.span?.isSome) = false := by
  simp [spans, List.filterMap_eq_nil_iff]

/-- Separators have no spans, so settling leaves all of them. -/
theorem spans_settle (awake : Bool) (tokens : List Token) :
    spans (settle awake tokens) = spans tokens := by
  induction tokens generalizing awake with
  | nil => rfl
  | cons token rest ih =>
      cases token with
      | separator s => exact ih awake
      | excerpt e => exact congrArg (e.span :: ·) (ih _)
      | gap g => exact congrArg (g.anchor :: ·) (ih _)

theorem regroups_attach (token : Token) (rest : List Token) :
    Regroups (spans (token :: rest)) (spans (attach token rest)) := by
  unfold attach
  split
  · next a b tail =>
      split
      · next h =>
          have hWhole : (a.append b h).span = a.span.hull b.span := (hull_of_adjacent h).symm
          show Regroups ([a.span, b.span] ++ spans tail) ([(a.append b h).span] ++ spans tail)
          rw [hWhole]
          exact .append (.merge a.span b.span) (.refl _)
      · exact .refl _
  · next a b tail => exact .append (.merge a.anchor b.anchor) (.refl (spans tail))
  · exact .refl _

/-- Fusing makes one span of neighbours. -/
theorem regroups_fuse (tokens : List Token) : Regroups (spans tokens) (spans (fuse tokens)) := by
  induction tokens with
  | nil => exact .refl _
  | cons token rest ih =>
      refine .trans ?_ (regroups_attach token (fuse rest))
      rw [spans_cons, spans_cons token (fuse rest)]
      exact .append (.refl _) ih

/-- A token without an effect has nothing behind it. -/
theorem regroups_of_not_effective {token : Token}
    (h : ¬ (!token.isEmptyExcerpt && !token.isIdle) = true) : Regroups (spans [token]) [] := by
  cases token with
  | separator s => exact .refl _
  | gap g =>
      have hEmpty : g.unknown = false ∧ g.anchor.start = g.anchor.stop := by
        simpa [isEmptyExcerpt, isIdle, Range.isCaret] using h
      exact .discard hEmpty.2
  | excerpt e =>
      have hText : e.text = [] := by simpa [isEmptyExcerpt, isIdle] using h
      have hStop := e.stop_eq
      rw [hText, List.length_nil] at hStop
      exact .discard hStop.symm

/-- Only empty spans are dropped with the tokens that have no effect. -/
theorem regroups_effective (tokens : List Token) :
    Regroups (spans tokens) (spans (effective tokens)) := by
  induction tokens with
  | nil => exact .refl _
  | cons token rest ih =>
      rw [effective_cons, spans_cons]
      split
      · rw [spans_cons token (effective rest)]
        exact .append (.refl _) ih
      · next h => exact .append (regroups_of_not_effective h) ih

theorem regroups_anchored (tokens : List Token) :
    Regroups (spans tokens) (spans (anchored tokens)) := by
  unfold anchored
  split
  · exact regroups_effective tokens
  · next hNone =>
      have hNil : spans (effective tokens) = [] := spans_eq_nil_iff.2 (by simpa using hNone)
      rw [spans_append, hNil, List.append_nil]
      cases hFound : tokens.find? isIdle with
      | none =>
          have hOmitted := regroups_effective tokens
          rwa [hNil] at hOmitted
      | some idle =>
          obtain ⟨before, after, rfl⟩ := List.append_of_mem (List.mem_of_find?_eq_some hFound)
          rw [effective_append, effective_cons, if_neg (by simp [List.find?_some hFound]),
            spans_append, List.append_eq_nil_iff] at hNil
          have hBefore : Regroups (spans before) [] := hNil.1 ▸ regroups_effective before
          have hAfter : Regroups (spans after) [] := hNil.2 ▸ regroups_effective after
          have hKept := Regroups.append hBefore (.append (.refl (spans [idle])) hAfter)
          rwa [← spans_cons, ← spans_append, List.nil_append, List.append_nil] at hKept

/-- The canonical form regroups the spans of a sequence. -/
theorem regroups_normalize (tokens : List Token) :
    Regroups (spans tokens) (spans (normalize tokens)) := by
  have hFused := regroups_fuse (settle false (anchored tokens))
  rw [spans_settle] at hFused
  exact .trans (regroups_anchored tokens) hFused

theorem regroups_atoms (token : Token) : Regroups (spans [token]) (spans token.atoms) := by
  cases token with
  | separator s => exact .refl _
  | gap g => exact .refl _
  | excerpt e =>
      induction hLength : e.text.length generalizing e with
      | zero =>
          have hText : e.text = [] := List.length_eq_zero_iff.1 hLength
          rw [atoms_of_text_nil hText]
          exact regroups_of_not_effective (by simp [isEmptyExcerpt, hText])
      | succ n ih =>
          have hText : e.text ≠ [] := fun hNil => by simp [hNil] at hLength
          have hDrop : (e.drop 1).text.length = n := by simp [Excerpt.drop, hLength]
          rw [atoms_of_text_ne_nil hText]
          exact .trans (.divide e.span 1) (.cons _ (ih (e.drop 1) hDrop))

theorem regroups_atomize (tokens : List Token) :
    Regroups (spans tokens) (spans (atomize tokens)) := by
  induction tokens with
  | nil => exact .refl _
  | cons token rest ih =>
      rw [atomize_cons, spans_cons, spans_append]
      exact .append (regroups_atoms token) ih

end Token

namespace Exclusion
open SourceView.Span Token

def spansOf (pieces : List Piece) : List Span := pieces.filterMap (·.2.span?)

theorem spansOf_append (before after : List Piece) :
    spansOf (before ++ after) = spansOf before ++ spansOf after := List.filterMap_append ..

theorem spansOf_reverse (pieces : List Piece) : spansOf pieces.reverse = (spansOf pieces).reverse :=
  List.filterMap_reverse

theorem spans_map_snd (pieces : List Piece) : spans (pieces.map (·.2)) = spansOf pieces :=
  List.filterMap_map

theorem findSome?_eq_head?_spansOf (pieces : List Piece) :
    pieces.findSome? (·.2.span?) = (spansOf pieces).head? := List.head?_filterMap.symm

/-- A marker stands where the spans on one of its sides end or begin, so it may be put there before
or after those on the right are regrouped. -/
theorem regroups_marker {left right : List Piece} {anchor : Span} {after : List Span}
    (h : markerAnchor left right = .ok anchor)
    (hAfter : Regroups ((spansOf left).reverse ++ spansOf right) ((spansOf left).reverse ++ after)) :
    Regroups ((spansOf left).reverse ++ spansOf right)
      ((spansOf left).reverse ++ (anchor :: after)) := by
  rw [markerAnchor_eq, findSome?_eq_head?_spansOf, findSome?_eq_head?_spansOf] at h
  cases hLeft : spansOf left with
  | cons span rest =>
      rw [hLeft] at h hAfter
      cases h
      rw [List.reverse_cons, List.append_assoc, List.append_assoc] at hAfter ⊢
      have hMarked : Regroups ([span] ++ after) ([span, span.tail] ++ after) :=
        .append (.markTail span) (.refl after)
      exact .trans hAfter (.append (.refl _) hMarked)
  | nil =>
      rw [hLeft, List.reverse_nil, List.nil_append, List.nil_append] at hAfter
      cases hRight : spansOf right with
      | nil =>
          rw [hLeft, hRight] at h
          cases h
      | cons span rest =>
          rw [hLeft, hRight] at h
          cases h
          rw [hRight] at hAfter
          have hMarked : Regroups ([span] ++ rest) ([span.head, span] ++ rest) :=
            .append (.markHead span) (.refl rest)
          exact .trans hMarked (.cons _ hAfter)

/-- The gap that replaces hidden pieces regroups their spans, and a marker adds an empty span beside
another one. -/
theorem regroups_substitute {e : Exclusion} {left hidden right : List Piece} {gaps : List Token}
    {after : List Span} (h : e.substitute left hidden right = .ok gaps)
    (hCaret : e.isCaret = true → hidden = [])
    (hAfter : Regroups ((spansOf left).reverse ++ (spansOf hidden ++ spansOf right))
      ((spansOf left).reverse ++ (spansOf hidden ++ after))) :
    Regroups ((spansOf left).reverse ++ (spansOf hidden ++ spansOf right))
      ((spansOf left).reverse ++ (spans gaps ++ after)) := by
  have hEmpty (hNone : hullAll? (spansOf hidden) = none) : spansOf hidden = [] := by
    cases hSpans : spansOf hidden with
    | nil => rfl
    | cons first rest =>
        rw [hSpans] at hNone
        cases hNone
  rcases substitute_cases h with ⟨anchor, hAnchor, rfl, hMarks⟩ | ⟨-, anchor, hAnchor, rfl⟩ |
    ⟨-, -, hNone, rfl⟩
  · have hHidden : spansOf hidden = [] := by
      rcases hMarks with hMarks | ⟨-, hNone⟩
      · rw [hCaret hMarks]
        rfl
      · exact hEmpty hNone
    rw [← spansOf_append] at hAfter ⊢
    rw [hHidden, List.nil_append] at hAfter
    exact regroups_marker hAnchor hAfter
  · exact .trans hAfter (.append (.refl _) (.append (.hullAll? hAnchor) (.refl after)))
  · rw [hEmpty hNone] at hAfter ⊢
    exact hAfter

/-- A sweep regroups the spans of the pieces that it comes to. -/
theorem regroups_sweep {passed rest : List Piece} {exclusions : List Exclusion} {swept : List Token}
    (h : sweep passed rest exclusions = .ok swept) :
    Regroups ((spansOf passed).reverse ++ spansOf rest)
      ((spansOf passed).reverse ++ spans swept) := by
  induction exclusions generalizing passed rest swept with
  | nil =>
      cases h
      rw [spans_map_snd]
      exact .refl _
  | cons e later ih =>
      obtain ⟨gaps, after, hGaps, hAfter, rfl⟩ := sweep_cons_eq_ok_iff.1 h
      have hLater := ih hAfter
      have hParts : spansOf rest =
          spansOf (e.front rest) ++ (spansOf (e.covered rest) ++ spansOf (e.behind rest)) := by
        rw [← spansOf_append, ← spansOf_append, ← List.append_assoc,
          e.front_append_covered_append_behind]
      have hLeft : (spansOf ((e.front rest).reverse ++ passed)).reverse =
          (spansOf passed).reverse ++ spansOf (e.front rest) := by
        rw [spansOf_append, spansOf_reverse, List.reverse_append, List.reverse_reverse]
      have hReached : (spansOf ((e.front rest ++ e.covered rest).reverse ++ passed)).reverse =
          (spansOf ((e.front rest).reverse ++ passed)).reverse ++ spansOf (e.covered rest) := by
        rw [hLeft, spansOf_append, spansOf_reverse, spansOf_append, List.reverse_append,
          List.reverse_reverse, List.append_assoc]
      rw [hReached, List.append_assoc, List.append_assoc] at hLater
      have hStep := regroups_substitute hGaps (fun hCaret => covered_of_isCaret hCaret rest) hLater
      rw [hLeft] at hStep
      rwa [hParts, spans_append, spans_append, spans_map_snd, ← List.append_assoc,
        List.append_assoc (spansOf (e.front rest)), ← List.append_assoc (spansOf passed).reverse]

end Exclusion

namespace View
open SourceView.Span Token

/-- Exclusions regroup the spans behind a view. -/
theorem regroups_excludeAll {view after : View} {exclusions : List Exclusion}
    (hRooted : Rooted view.tokens) (h : view.excludeAll exclusions = .ok after) :
    Regroups (spans view.tokens) (spans after.tokens) := by
  obtain ⟨swept, found, hSwept, -, hFound, -, -, hTokens⟩ :=
    exists_excludeAll hRooted (validate_of_excludeAll h)
  obtain rfl : after = found := Except.ok.inj (h.symm.trans hFound)
  have hSweep := Exclusion.regroups_sweep hSwept
  rw [← Exclusion.spans_map_snd (placed 0 _), map_snd_placed] at hSweep
  rw [hTokens]
  exact .trans (regroups_atomize view.tokens) (.trans hSweep (regroups_normalize swept))

end View
end SourceView
