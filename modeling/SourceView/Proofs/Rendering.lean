import Mathlib.Data.List.Basic
import SourceView.Proofs.Offset
import SourceView.Proofs.Outcome
import SourceView.Proofs.Uncovered
import SourceView.View.Unknown

/-! Unknown positions, asked for and rendered. The unknown offsets of a view are strictly increasing,
so a binary search among them finds whether a range has any, and the text can be rendered stretch by
stretch from one of them to the next. Read position by position, the rendered text has a marker
exactly where the question for that position alone is answered with yes. -/
namespace SourceView

namespace Search

/-- Sorted entries are parted by a bound. -/
theorem exists_parts_of_sorted {entries : List Nat} (hSorted : entries.Pairwise (· ≤ ·))
    (bound : Nat) :
    ∃ before after, entries = before ++ after ∧ (∀ x ∈ before, x < bound) ∧
      ∀ x ∈ after, bound ≤ x := by
  induction entries with
  | nil => exact ⟨[], [], rfl, by simp, by simp⟩
  | cons first rest ih =>
      obtain ⟨hFirst, hRest⟩ := List.pairwise_cons.1 hSorted
      by_cases hBound : bound ≤ first
      · refine ⟨[], first :: rest, rfl, by simp, ?_⟩
        simp only [List.mem_cons, forall_eq_or_imp]
        exact ⟨hBound, fun x hx => Nat.le_trans hBound (hFirst x hx)⟩
      · obtain ⟨before, after, rfl, hBefore, hAfter⟩ := ih hRest
        refine ⟨first :: before, after, rfl, ?_, hAfter⟩
        simp only [List.mem_cons, forall_eq_or_imp]
        exact ⟨Nat.lt_of_not_le hBound, hBefore⟩

/-- The entry at which the search comes out tells whether any entry lies between two bounds. -/
theorem lowerBound_between_iff {entries : List Nat} (hSorted : entries.Pairwise (· ≤ ·))
    (lower upper : Nat) :
    (∃ x, entries.toArray[lowerBound entries.toArray lower]? = some x ∧ x ≤ upper) ↔
      ∃ x ∈ entries, lower ≤ x ∧ x ≤ upper := by
  obtain ⟨before, after, rfl, hBefore, hAfter⟩ := exists_parts_of_sorted hSorted lower
  have hOrder := (List.pairwise_append.1 hSorted).2.1
  rw [lowerBound_append hSorted hBefore hAfter, List.getElem?_toArray,
    List.getElem?_append_right (Nat.le_refl _), Nat.sub_self]
  constructor
  · rintro ⟨x, hFound, hUpper⟩
    have hx : x ∈ after := List.mem_of_getElem? hFound
    exact ⟨x, List.mem_append_right _ hx, hAfter x hx, hUpper⟩
  · rintro ⟨x, hx, hLower, hUpper⟩
    rcases List.mem_append.1 hx with hFront | hBehind
    · exact absurd (hBefore x hFront) (Nat.not_lt.2 hLower)
    · cases after with
      | nil => cases hBehind
      | cons first rest =>
          refine ⟨first, rfl, ?_⟩
          rcases List.mem_cons.1 hBehind with rfl | hLater
          · exact hUpper
          · exact Nat.le_trans ((List.pairwise_cons.1 hOrder).1 x hLater) hUpper

end Search

namespace View
open Token

variable {view : View} {wanted : Loose} {range : Range}

/-- Within the text, the question for a range is answered by the unknown offsets in it and at its
ends. -/
theorem hasUnknownIn_eq (hWanted : wanted.toRange = .ok range) (hStop : range.stop ≤ view.length) :
    view.hasUnknownIn wanted =
      .ok (decide (∃ u ∈ view.unknownOffsets, range.start ≤ u ∧ u ≤ range.stop)) := by
  have hSorted : view.unknownOffsets.Pairwise (· ≤ ·) :=
    (pairwise_unknownOffsets view).imp Nat.le_of_lt
  have hBetween := Search.lowerBound_between_iff hSorted range.start range.stop
  unfold hasUnknownIn
  rw [checkedRange_of_le hWanted hStop]
  simp only [bind, Except.bind, ← hBetween]
  cases view.unknownOffsets.toArray[Search.lowerBound view.unknownOffsets.toArray range.start]? <;>
    simp [pure, Except.pure]

variable {text marker : List Char} {cursor : Nat} {offsets : List Nat}

/-- At the first of its offsets a text has a marker in front of what is rendered from there on. -/
theorem renderFrom_cons_self (text marker : List Char) (cursor : Nat) (offsets : List Nat) :
    renderFrom text marker cursor (cursor :: offsets) =
      marker ++ renderFrom text marker cursor offsets := by
  have hNone : (text.take cursor).drop cursor = [] :=
    List.drop_eq_nil_of_le (List.length_take_le cursor text)
  rw [renderFrom, hNone, List.nil_append]

/-- In front of all its offsets a text is rendered as it is. -/
theorem renderFrom_of_lt (hCursor : cursor < text.length) (hOffsets : ∀ u ∈ offsets, cursor < u) :
    renderFrom text marker cursor offsets =
      text[cursor] :: renderFrom text marker (cursor + 1) offsets := by
  cases offsets with
  | nil => exact List.drop_eq_getElem_cons hCursor
  | cons first rest =>
      have hFirst := hOffsets first List.mem_cons_self
      have hTaken : cursor < (text.take first).length := by
        rw [List.length_take]
        omega
      rw [renderFrom, renderFrom, List.drop_eq_getElem_cons hTaken, List.getElem_take]
      rfl

/-- What is rendered at one position: the marker if it is among the offsets, and then the character
there, if there is one. -/
def renderedAt (text marker : List Char) (offsets : List Nat) (i : Nat) : List Char :=
  (if i ∈ offsets then marker else []) ++ text[i]?.toList

/-- The first position has a marker if it is an offset, and the others are left for later. -/
theorem renderFrom_of_le (hSorted : offsets.Pairwise (· < ·)) (hFrom : ∀ u ∈ offsets, cursor ≤ u) :
    renderFrom text marker cursor offsets =
      (if cursor ∈ offsets then marker else []) ++
        renderFrom text marker cursor (offsets.filter (cursor < ·)) := by
  cases offsets with
  | nil => rfl
  | cons first rest =>
      obtain ⟨hFirst, -⟩ := List.pairwise_cons.1 hSorted
      have hCursor := hFrom first List.mem_cons_self
      rcases Nat.eq_or_lt_of_le hCursor with rfl | hLater
      · have hRest : rest.filter (cursor < ·) = rest :=
          List.filter_eq_self.2 fun u hu => by simpa using hFirst u hu
        rw [if_pos List.mem_cons_self, List.filter_cons_of_neg (by simp), hRest,
          renderFrom_cons_self]
      · have hAll : ∀ u ∈ first :: rest, cursor < u := by
          simp only [List.mem_cons, forall_eq_or_imp]
          exact ⟨hLater, fun u hu => Nat.lt_trans hLater (hFirst u hu)⟩
        have hKept : (first :: rest).filter (cursor < ·) = first :: rest :=
          List.filter_eq_self.2 fun u hu => by simpa using hAll u hu
        rw [hKept, if_neg fun h => Nat.lt_irrefl _ (hAll cursor h), List.nil_append]

/-- From any position on, a text is rendered position by position. -/
theorem renderFrom_eq_flatMap (hCursor : cursor ≤ text.length) (hSorted : offsets.Pairwise (· < ·))
    (hOffsets : ∀ u ∈ offsets, cursor ≤ u ∧ u ≤ text.length) :
    renderFrom text marker cursor offsets =
      (List.range' cursor (text.length - cursor + 1)).flatMap (renderedAt text marker offsets) := by
  induction hLeft : text.length - cursor generalizing cursor offsets with
  | zero =>
      have hNone : offsets.filter (cursor < ·) = [] := by
        refine List.filter_eq_nil_iff.2 fun u hu => ?_
        have hWithin := (hOffsets u hu).2
        simp only [decide_eq_true_eq]
        omega
      have hEnd : text.length ≤ cursor := by omega
      rw [renderFrom_of_le hSorted fun u hu => (hOffsets u hu).1, hNone, renderFrom,
        List.drop_eq_nil_of_le hEnd]
      simp [renderedAt, hEnd]
  | succ left ih =>
      have hInside : cursor < text.length := by omega
      have hLater : ∀ u ∈ offsets.filter (cursor < ·), cursor + 1 ≤ u ∧ u ≤ text.length := by
        intro u hu
        obtain ⟨hMem, hBehind⟩ := List.mem_filter.1 hu
        exact ⟨of_decide_eq_true hBehind, (hOffsets u hMem).2⟩
      have hRest := ih hInside (hSorted.filter _) hLater (by omega)
      -- Behind the cursor the offsets that are left for later are all there are.
      have hSame : (List.range' (cursor + 1) (left + 1)).flatMap
          (renderedAt text marker (offsets.filter (cursor < ·))) =
            (List.range' (cursor + 1) (left + 1)).flatMap (renderedAt text marker offsets) := by
        apply List.flatMap_congr
        intro i hi
        have hBehind : cursor < i := (List.mem_range'_1.1 hi).1
        simp [renderedAt, hBehind]
      have hHere : renderedAt text marker offsets cursor =
          (if cursor ∈ offsets then marker else []) ++ [text[cursor]] := by
        rw [renderedAt, List.getElem?_eq_getElem hInside, Option.toList_some]
      rw [renderFrom_of_le hSorted fun u hu => (hOffsets u hu).1,
        renderFrom_of_lt hInside fun u hu => (hLater u hu).1, hRest, hSame,
        @List.range'_succ cursor (left + 1), List.flatMap_cons, hHere, List.append_assoc]
      rfl

/-- The rendered text of a view, position by position. -/
theorem render_eq_flatMap (view : View) (marker : List Char) :
    view.render marker =
      (List.range (view.length + 1)).flatMap (renderedAt view.text marker view.unknownOffsets) := by
  have hOffsets : ∀ u ∈ view.unknownOffsets, 0 ≤ u ∧ u ≤ view.text.length := by
    intro u hu
    obtain ⟨before, g, after, hTokens, -, rfl⟩ := mem_unknownOffsets_iff.1 hu
    have hLength : view.text.length = totalWidth view.tokens := length_eq_totalWidth view
    rw [hLength, hTokens, totalWidth_append]
    exact ⟨Nat.zero_le _, Nat.le_add_right _ _⟩
  rw [render, renderFrom_eq_flatMap (Nat.zero_le _) (pairwise_unknownOffsets view) hOffsets,
    List.range_eq_range']
  rfl

/-- The marker, if the question for a position alone is answered with yes. -/
def marked (view : View) (marker : List Char) (i : Nat) : List Char :=
  match view.hasUnknownIn (.range ⟨i, i, Nat.le_refl i⟩) with
  | .ok true => marker
  | _ => []

/-- A position is marked when it is among the unknown offsets. -/
theorem marked_eq (marker : List Char) {i : Nat} (hi : i ≤ view.length) :
    view.marked marker i = if i ∈ view.unknownOffsets then marker else [] := by
  have hAt : (∃ u ∈ view.unknownOffsets, i ≤ u ∧ u ≤ i) ↔ i ∈ view.unknownOffsets := by
    constructor
    · rintro ⟨u, hu, hFrom, hTo⟩
      obtain rfl := Nat.le_antisymm hFrom hTo
      exact hu
    · exact fun h => ⟨i, h, Nat.le_refl i, Nat.le_refl i⟩
  unfold marked
  rw [@hasUnknownIn_eq view (.range ⟨i, i, Nat.le_refl i⟩) ⟨i, i, Nat.le_refl i⟩ rfl hi]
  simp only [hAt]
  by_cases hMember : i ∈ view.unknownOffsets <;> simp [hMember]

/-- The question whether a range has something unknown is refused exactly for ranges that end beyond
the text. For any other range it is answered with yes exactly when an unknown gap stands in it or at
one of its ends, and the rendered text has a marker exactly at the positions for which the answer is
yes. -/
theorem unknown_rendered (view : View) :
    (∀ wanted range, Loose.toRange wanted = .ok range →
      (view.length < range.stop ↔
        ∃ fault, view.hasUnknownIn wanted = .error fault ∧ fault.misuse? = some .outOfRange) ∧
      (range.stop ≤ view.length → ∃ answer, view.hasUnknownIn wanted = .ok answer ∧
        (answer = true ↔ ∃ before g after, view.tokens = before ++ .gap g :: after ∧
          g.unknown = true ∧ range.start ≤ totalWidth before ∧
            totalWidth before ≤ range.stop))) ∧
    ∀ marker, view.render marker = (List.range (view.length + 1)).flatMap fun i =>
      view.marked marker i ++ view.text[i]?.toList := by
  constructor
  · intro wanted range hWanted
    have hWithin (hStop : range.stop ≤ view.length) := hasUnknownIn_eq hWanted hStop
    refine ⟨⟨fun hBeyond => ?_, ?_⟩, fun hStop => ⟨_, hWithin hStop, ?_⟩⟩
    · refine ⟨.offsetOutside "range end" range.stop view.length, ?_, rfl⟩
      rw [hasUnknownIn, checkedRange_of_lt hWanted hBeyond]
      rfl
    · rintro ⟨fault, hFault, -⟩
      apply Nat.lt_of_not_le
      intro hStop
      rw [hWithin hStop] at hFault
      cases hFault
    · simp only [decide_eq_true_eq, mem_unknownOffsets_iff]
      constructor
      · rintro ⟨u, ⟨before, g, after, hTokens, hUnknown, rfl⟩, hFrom, hTo⟩
        exact ⟨before, g, after, hTokens, hUnknown, hFrom, hTo⟩
      · rintro ⟨before, g, after, hTokens, hUnknown, hFrom, hTo⟩
        exact ⟨_, ⟨before, g, after, hTokens, hUnknown, rfl⟩, hFrom, hTo⟩
  · intro marker
    rw [render_eq_flatMap]
    apply List.flatMap_congr
    intro i hi
    have hLength : i ≤ view.length := Nat.le_of_lt_succ (List.mem_range.1 hi)
    rw [renderedAt, marked_eq marker hLength]

/-- A text with a marker in place of a character and another one at its end. -/
theorem unknown_rendered_twice :
    ∃ whole part view, View.ofSource ⟨"doc", ['a', 'b', 'c']⟩ = .ok whole ∧
      whole.mark (.range ⟨1, 2, by decide⟩) = .ok part ∧
      part.mark (.range ⟨2, 2, by decide⟩) = .ok view ∧ view.length = 2 ∧
      view.hasUnknownIn (.sequence [.integer 0, .integer 1]) = .ok true ∧
      (∃ fault, view.hasUnknownIn (.sequence [.integer 0, .integer 3]) = .error fault ∧
        fault.misuse? = some .outOfRange) ∧
      view.render ['|'] = ['a', '|', 'c', '|'] := by
  have hParts : ∃ whole part view, View.ofSource ⟨"doc", ['a', 'b', 'c']⟩ = .ok whole ∧
      whole.mark (.range ⟨1, 2, by decide⟩) = .ok part ∧
      part.mark (.range ⟨2, 2, by decide⟩) = .ok view ∧ view.length = 2 ∧
      (∃ before g after, view.tokens = before ++ .gap g :: after ∧ g.unknown = true ∧
        0 ≤ totalWidth before ∧ totalWidth before ≤ 1) ∧
      ((List.range 3).flatMap fun i => view.marked ['|'] i ++ view.text[i]?.toList) =
        ['a', '|', 'c', '|'] :=
    ⟨_, _, _, rfl, rfl, rfl, rfl, ⟨[_], _, _, rfl, rfl, by decide, by decide⟩, rfl⟩
  obtain ⟨whole, part, view, hWhole, hPart, hView, hLength, hMarker, hRendered⟩ := hParts
  obtain ⟨hQuery, hRender⟩ := unknown_rendered view
  obtain ⟨answer, hAnswer, hYes⟩ :=
    (hQuery (.sequence [.integer 0, .integer 1]) ⟨0, 1, by decide⟩ rfl).2 (by simp [hLength])
  have hBeyond := (hQuery (.sequence [.integer 0, .integer 3]) ⟨0, 3, by decide⟩ rfl).1.1
    (by simp [hLength])
  obtain rfl : answer = true := hYes.2 hMarker
  refine ⟨whole, part, view, hWhole, hPart, hView, hLength, hAnswer, hBeyond, ?_⟩
  rw [hRender, hLength, hRendered]

end View
end SourceView
