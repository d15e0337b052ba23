import SourceView.Proofs.Edited
import SourceView.Proofs.Merging
import SourceView.Proofs.ShownCells

/-! Hiding ranges of a plain text. A view that shows one stretch of a source, with nothing hidden, is
left with the characters that no range covers. Where linked ranges are, one of which is unknown, there
is a marker behind the characters that are left in front of them. -/
namespace SourceView

namespace Cell

theorem awaken_of_no_separator {cells : List Cell}
    (h : ∀ cell ∈ cells, ∀ c active, cell ≠ separator c active) (awake : Bool) :
    awaken awake cells = cells := by
  induction cells generalizing awake with
  | nil => rfl
  | cons cell rest ih =>
      simp only [List.mem_cons, forall_eq_or_imp] at h
      cases cell with
      | char position c => rw [awaken, ih h.2]
      | separator c active => exact absurd rfl (h.1 c active)
      | marker => rw [awaken, ih h.2]

theorem shownText_markers {α : Type} (items : List α) :
    shownText (items.map fun _ => marker) = [] := by
  simp [shownText, shown]

/-- Markers without anything between them stand at one offset. -/
theorem mem_markerOffsets_markers {α : Type} {items : List α} {offset wanted : Nat} :
    wanted ∈ markerOffsets offset (items.map fun _ => marker) ↔
      (∃ item, item ∈ items) ∧ wanted = offset := by
  induction items with
  | nil => simp [markerOffsets]
  | cons item rest ih =>
      rw [List.map_cons, markerOffsets, List.mem_cons, ih]
      constructor
      · rintro (rfl | ⟨-, rfl⟩) <;> exact ⟨⟨item, List.mem_cons_self⟩, rfl⟩
      · exact fun h => .inl h.2

end Cell

namespace Exclusion
open Token

/-- The characters of a text that no range covers, the first character standing at `offset`. -/
def uncovered (ranges : List Exclusion) (offset : Nat) : List Char → List Char
  | [] => []
  | c :: rest => (if Covered ranges offset then [] else [c]) ++ uncovered ranges (offset + 1) rest

/-- What is left of a text depends only on which of its characters are covered. -/
theorem uncovered_congr {ranges others : List Exclusion} {offset : Nat} {text : List Char}
    (h : ∀ position, offset ≤ position → position < offset + text.length →
      (Covered ranges position ↔ Covered others position)) :
    uncovered ranges offset text = uncovered others offset text := by
  induction text generalizing offset with
  | nil => rfl
  | cons c rest ih =>
      rw [List.length_cons] at h
      rw [uncovered, uncovered, ih fun position hStart hStop => h position (by omega) (by omega)]
      simp only [h offset (Nat.le_refl _) (by omega)]

theorem uncovered_append (ranges : List Exclusion) (offset : Nat) (front back : List Char) :
    uncovered ranges offset (front ++ back) =
      uncovered ranges offset front ++ uncovered ranges (offset + front.length) back := by
  induction front generalizing offset with
  | nil => rfl
  | cons c rest ih =>
      have hNext : offset + 1 + rest.length = offset + (c :: rest).length := by
        simp only [List.length_cons]
        omega
      rw [List.cons_append, uncovered, uncovered, ih, hNext, List.append_assoc]

/-- Nothing is left of a text that is covered. -/
theorem uncovered_eq_nil {ranges : List Exclusion} {offset : Nat} {text : List Char}
    (h : ∀ position, offset ≤ position → position < offset + text.length → Covered ranges position) :
    uncovered ranges offset text = [] := by
  induction text generalizing offset with
  | nil => rfl
  | cons c rest ih =>
      rw [List.length_cons] at h
      rw [uncovered, if_pos (h offset (Nat.le_refl _) (by omega)),
        ih fun position hStart hStop => h position (by omega) (by omega), List.append_nil]

/-- A text with no character covered is left as it is. -/
theorem uncovered_eq_self {ranges : List Exclusion} {offset : Nat} {text : List Char}
    (h : ∀ position, offset ≤ position → position < offset + text.length →
      ¬ Covered ranges position) : uncovered ranges offset text = text := by
  induction text generalizing offset with
  | nil => rfl
  | cons c rest ih =>
      rw [List.length_cons] at h
      rw [uncovered, if_neg (h offset (Nat.le_refl _) (by omega)),
        ih fun position hStart hStop => h position (by omega) (by omega), List.singleton_append]

def charCells (position offset : Nat) (text : List Char) : List (Nat × Cell) :=
  text.mapIdx fun i c => (offset + i, .char (position + i) c)

theorem charCells_cons (position offset : Nat) (c : Char) (rest : List Char) :
    charCells position offset (c :: rest) =
      (offset, .char position c) :: charCells (position + 1) (offset + 1) rest := by
  simp [charCells, List.mapIdx_cons, Nat.add_assoc, Nat.add_comm 1]

/-- Of the cells, exclusions delete those that are shown where one of them covers the text. -/
theorem any_deletes (exclusions : List Exclusion) (cell : Nat × Cell) :
    exclusions.any (·.deletes cell) = (cell.2.isShown && decide (Covered exclusions cell.1)) := by
  rw [Bool.eq_iff_iff, List.any_eq_true, Bool.and_eq_true, decide_eq_true_iff]
  constructor
  · rintro ⟨e, he, hDeletes⟩
    simp only [deletes, Bool.and_eq_true, decide_eq_true_eq, and_assoc] at hDeletes
    exact ⟨hDeletes.1, e, he, hDeletes.2⟩
  · rintro ⟨hShown, e, he, hStart, hStop⟩
    exact ⟨e, he, by simp [deletes, hShown, hStart, hStop]⟩

/-- A character is deleted when some range covers its offset. -/
theorem any_deletes_char (exclusions : List Exclusion) (offset position : Nat) (c : Char) :
    exclusions.any (·.deletes (offset, .char position c)) = decide (Covered exclusions offset) :=
  any_deletes exclusions (offset, .char position c)

/-- The marker of a range that is not empty is due at the first character of the range. -/
theorem reaches_char {e : Exclusion} (hProper : e.start < e.stop) {offset : Nat} (position : Nat)
    (c : Char) (hStart : offset ≤ e.start) :
    e.reaches (offset, .char position c) = decide (e.start = offset) := by
  have hCaret : e.isCaret = false := Range.not_isCaret_iff.2 hProper
  rw [Bool.eq_iff_iff, decide_eq_true_iff]
  simp only [reaches, hCaret, deletes, Cell.isShown, Bool.false_eq_true, if_false, Bool.true_and,
    Bool.and_eq_true, decide_eq_true_eq]
  omega

theorem forall_mem_edited {p : Cell → Prop} (hMarker : p .marker) {exclusions pending : List Exclusion}
    {cells : List (Nat × Cell)} (hCells : ∀ cell ∈ cells, p cell.2) :
    ∀ cell ∈ edited exclusions pending cells, p cell := by
  induction cells generalizing pending with
  | nil =>
      intro cell hCell
      obtain ⟨-, -, rfl⟩ := List.mem_map.1 hCell
      exact hMarker
  | cons first rest ih =>
      simp only [List.mem_cons, forall_eq_or_imp] at hCells
      intro cell hCell
      rw [edited, List.mem_append, List.mem_append] at hCell
      rcases hCell with (hMade | hHere) | hLater
      · obtain ⟨-, -, rfl⟩ := List.mem_map.1 hMade
        exact hMarker
      · split at hHere
        · cases hHere
        · obtain rfl := List.mem_singleton.1 hHere
          exact hCells.1
      · exact ih hCells.2 cell hLater

variable {exclusions pending : List Exclusion}

theorem shownText_left_char (exclusions : List Exclusion) (offset position : Nat) (c : Char) :
    Cell.shownText (if exclusions.any (·.deletes (offset, .char position c)) then []
      else [.char position c]) = uncovered exclusions offset [c] := by
  rw [any_deletes_char]
  by_cases hCovered : Covered exclusions offset <;>
    simp [hCovered, uncovered, Cell.shownText, Cell.shown]

/-- A text shows what is left uncovered of it, wherever markers are put. -/
theorem shownText_edited_chars (position offset : Nat) (text : List Char) :
    Cell.shownText (edited exclusions pending (charCells position offset text)) =
      uncovered exclusions offset text := by
  induction text generalizing position offset pending with
  | nil => exact Cell.shownText_markers pending
  | cons c rest ih =>
      rw [charCells_cons, edited, Cell.shownText_append, Cell.shownText_append, Cell.shownText_markers,
        shownText_left_char, ih, uncovered, uncovered, uncovered, List.append_nil, List.nil_append]

/-- Up to an offset behind it, a first character counts when it is left. -/
theorem length_uncovered_take {ranges : List Exclusion} {offset stop : Nat} (hStop : offset < stop)
    (c : Char) (rest : List Char) :
    (uncovered ranges offset ((c :: rest).take (stop - offset))).length =
      (uncovered ranges offset [c]).length +
        (uncovered ranges (offset + 1) (rest.take (stop - (offset + 1)))).length := by
  obtain ⟨n, rfl⟩ := Nat.exists_eq_add_of_lt hStop
  have hAll : offset + n + 1 - offset = n + 1 := by omega
  have hRest : offset + n + 1 - (offset + 1) = n := by omega
  rw [hAll, hRest, List.take_succ_cons, uncovered, uncovered, uncovered, List.append_nil,
    List.length_append]

/-- Each marker stands behind the characters that are left in front of its range. -/
theorem mem_markerOffsets_edited_chars {position offset shown wanted : Nat} {text : List Char}
    (hPending : ∀ e ∈ pending, offset ≤ e.start ∧ e.start < e.stop ∧ e.stop ≤ offset + text.length) :
    wanted ∈ Cell.markerOffsets shown (edited exclusions pending (charCells position offset text)) ↔
      ∃ e ∈ pending,
        wanted = shown + (uncovered exclusions offset (text.take (e.start - offset))).length := by
  induction text generalizing position offset shown pending with
  | nil =>
      have hNone : pending = [] := by
        refine List.eq_nil_iff_forall_not_mem.2 fun e he => ?_
        have hRange := hPending e he
        simp only [List.length_nil] at hRange
        omega
      subst hNone
      simp [charCells, edited, Cell.markerOffsets]
  | cons c rest ih =>
      have hReaches (e : Exclusion) (he : e ∈ pending) :
          e.reaches (offset, .char position c) = decide (e.start = offset) :=
        reaches_char (hPending e he).2.1 position c (hPending e he).1
      have hDue {e : Exclusion} :
          e ∈ pending.filter (·.reaches (offset, .char position c)) ↔
            e ∈ pending ∧ e.start = offset := by
        rw [List.mem_filter]
        exact and_congr_right fun he => by rw [hReaches e he, decide_eq_true_iff]
      have hLater {e : Exclusion} :
          e ∈ pending.filter (!·.reaches (offset, .char position c)) ↔
            e ∈ pending ∧ e.start ≠ offset := by
        rw [List.mem_filter]
        exact and_congr_right fun he => by simp [hReaches e he]
      have hNone (k : Nat) : Cell.markerOffsets k
          (if exclusions.any (·.deletes (offset, .char position c)) then []
            else [.char position c]) = [] := by split <;> rfl
      have hRest := @ih (pending.filter (!·.reaches (offset, .char position c))) (position + 1)
        (offset + 1) (shown + (uncovered exclusions offset [c]).length) (by
          intro e he
          have hRange := hPending e (hLater.1 he).1
          have hBehind := (hLater.1 he).2
          simp only [List.length_cons] at hRange
          omega)
      rw [charCells_cons, edited, Cell.markerOffsets_append, Cell.markerOffsets_append, hNone,
        List.append_nil, Cell.shownText_append, Cell.shownText_markers, List.nil_append,
        shownText_left_char, List.mem_append, Cell.mem_markerOffsets_markers, hRest]
      constructor
      · rintro (⟨⟨e, he⟩, rfl⟩ | ⟨e, he, rfl⟩)
        · obtain ⟨hMember, hStart⟩ := hDue.1 he
          exact ⟨e, hMember, by rw [hStart, Nat.sub_self]; rfl⟩
        · obtain ⟨hMember, hStart⟩ := hLater.1 he
          have hFirst := (hPending e hMember).1
          exact ⟨e, hMember, by rw [length_uncovered_take (by omega), Nat.add_assoc]⟩
      · rintro ⟨e, he, rfl⟩
        by_cases hStart : e.start = offset
        · exact .inl ⟨⟨e, hDue.2 ⟨he, hStart⟩⟩, by rw [hStart, Nat.sub_self]; rfl⟩
        · have hFirst := (hPending e he).1
          exact .inr ⟨e, hLater.2 ⟨he, hStart⟩,
            by rw [length_uncovered_take (by omega), Nat.add_assoc]⟩

end Exclusion

namespace View
open Token Exclusion

/-- What hiding ranges leaves of a text: the characters that no range covers, and a marker for all
linked ranges among which one is unknown, behind the characters that are left in front of the first
of them. Each marker stands at an offset of its own. -/
structure Hides (ranges : List Exclusion) (text : List Char) (view : View) : Prop where
  text_eq : view.text = uncovered ranges 0 text
  ascending : view.unknownOffsets.Pairwise (· < ·)
  mem_unknownOffsets : ∀ offset, offset ∈ view.unknownOffsets ↔
    ∃ a ∈ ranges, a.unknown = true ∧ ∃ first ∈ ranges, Linked ranges a first ∧
      (∀ b ∈ ranges, Linked ranges a b → first.start ≤ b.start) ∧
      offset = (uncovered ranges 0 (text.take first.start)).length

theorem pairwise_unknownOffsets (view : View) : view.unknownOffsets.Pairwise (· < ·) :=
  pairwise_markers view.canonical.shows view.canonical.separated view.canonical.settled

/-- A view of one stretch of a source, without anything hidden, is turned by merged ranges into one of
the same source in which the ranges are hidden. -/
theorem exists_excludeAll_merge {view : View} (hRooted : Rooted view.tokens) {position : Nat}
    (hCells : placedCells view.tokens = charCells position 0 view.text) {ranges : List Exclusion}
    (hRanges : ∀ a ∈ ranges, a.start < a.stop ∧ a.stop ≤ view.length) :
    ∃ after, view.excludeAll (Recipe.merge ranges) = .ok after ∧ after.domain = view.domain ∧
      after.source = view.source ∧ Hides ranges view.text after := by
  have hMerges := merges_merge fun a ha => (hRanges a ha).1
  have hMerged := hMerges.proper hRanges
  have hValid : validate (Recipe.merge ranges) view.length = .ok () :=
    validate_eq_ok_iff.2 ⟨hMerges.apart, fun e he => (hMerged e he).2⟩
  obtain ⟨swept, after, hSwept, -, hAfter, hDomain, hSource, hTokens⟩ :=
    exists_excludeAll hRooted hValid
  refine ⟨after, hAfter, hDomain, hSource, ?_⟩
  have hAfterCells : allCells after.tokens = Cell.collapse (edited (Recipe.merge ranges)
      ((Recipe.merge ranges).filter (·.unknown)) (charCells position 0 view.text)) := by
    rw [hTokens, allCells_of_sweep hValid hSwept, hCells, Cell.awaken_collapse,
      Cell.awaken_of_no_separator]
    refine forall_mem_edited (by simp) fun cell hCell => ?_
    obtain ⟨i, -, rfl⟩ := List.mem_mapIdx.1 hCell
    simp
  have hUncovered (offset : Nat) (text : List Char) :=
    @uncovered_congr _ _ offset text fun _ _ _ => hMerges.covered_iff
  refine ⟨?_, pairwise_unknownOffsets after, fun offset => ?_⟩
  · rw [text_eq_shownText, hAfterCells, Cell.shownText_collapse, shownText_edited_chars, hUncovered]
  · rw [unknownOffsets_eq_markerOffsets, hAfterCells, Cell.mem_markerOffsets_collapse,
      mem_markerOffsets_edited_chars]
    · simp only [List.mem_filter, and_assoc, hUncovered, Nat.zero_add, Nat.sub_zero]
      exact @Merges.exists_unknown_iff _ _ hMerges fun start =>
        offset = (uncovered ranges 0 (view.text.take start)).length
    · intro e he
      have hRange := hMerged e (List.mem_filter.1 he).1
      exact ⟨Nat.zero_le _, hRange.1, by rw [Nat.zero_add]; exact hRange.2⟩

end View
end SourceView
