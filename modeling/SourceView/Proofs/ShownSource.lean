import SourceView.Proofs.RangeTranslation
import SourceView.Proofs.Uncovered

/-! The characters of the source that a view shows, one by one. Cutting, fusing and awakening move no
character, so what exclusions leave of them is told offset by offset: the shown ranges of the result,
read one after the other, are the source offsets of the characters that no exclusion holds. -/
namespace SourceView

theorem filterMap_mapIdx {α β γ : Type} {items : List α} {f : Nat → α → β} {g : β → Option γ}
    {h : Nat → γ} (hSome : ∀ i item, g (f i item) = some (h i)) :
    (items.mapIdx f).filterMap g = (List.range items.length).map h := by
  rw [List.mapIdx_eq_zipIdx_map, List.filterMap_map]
  have hAll : g ∘ (fun pair : α × Nat => f pair.2 pair.1) = some ∘ (h ∘ Prod.snd) := by
    funext pair
    exact hSome pair.2 pair.1
  rw [hAll, List.filterMap_eq_map, ← List.map_map, List.zipIdx_map_snd, ← List.range_eq_range']

def Range.offsets (range : Range) : List Nat := List.range' range.start range.length

theorem Range.mem_offsets_iff {range : Range} {offset : Nat} :
    offset ∈ range.offsets ↔ range.start ≤ offset ∧ offset < range.stop := by
  have hOrdered := range.ordered
  rw [offsets, List.mem_range'_1, length]
  omega

namespace Cell

/-- Where the character of a cell stands in the source. Separators and markers are not from there. -/
def position? : Cell → Option Nat
  | char position _ => some position
  | _ => none

/-- Markers have no source offset, so making one of them changes none. -/
theorem filterMap_position?_collapse (cells : List Cell) :
    (collapse cells).filterMap position? = cells.filterMap position? := by
  rw [List.filterMap_eq_flatMap_toList, flatMap_collapse rfl, ← List.filterMap_eq_flatMap_toList]

/-- Separators have no source offset, so waking them changes none. -/
theorem filterMap_position?_awaken (awake : Bool) (cells : List Cell) :
    (awaken awake cells).filterMap position? = cells.filterMap position? := by
  induction cells generalizing awake with
  | nil => rfl
  | cons cell rest ih => cases cell <;> simp [awaken, List.filterMap_cons, position?, ih]

end Cell

namespace Token

/-- The characters of excerpts are those of their ranges. -/
theorem filterMap_position?_allCells (tokens : List Token) :
    (allCells tokens).filterMap Cell.position? =
      (tokens.filterMap View.excerptRange?).flatMap Range.offsets := by
  induction tokens with
  | nil => rfl
  | cons token rest ih =>
      rw [allCells_cons, List.filterMap_append, ih, List.filterMap_cons]
      cases token with
      | separator s => rfl
      | gap g => cases hUnknown : g.unknown <;> simp [cells, hUnknown, Cell.position?, View.excerptRange?]
      | excerpt e =>
          have hCells : (cells (excerpt e)).filterMap Cell.position? =
              (List.range e.text.length).map (e.span.start + ·) :=
            filterMap_mapIdx fun _ _ => rfl
          have hLength : e.span.length = e.text.length := e.fits.symm
          have hOffsets : e.span.offsets = (List.range e.text.length).map (e.span.start + ·) := by
            rw [Range.offsets, hLength, List.range'_eq_map_range]
          rw [hCells, ← hOffsets]
          rfl

end Token

namespace Exclusion

/-- Exclusions leave the characters that they do not delete. -/
theorem filterMap_position?_edited (exclusions pending : List Exclusion) (cells : List (Nat × Cell)) :
    (edited exclusions pending cells).filterMap Cell.position? =
      (cells.filter fun cell => !exclusions.any (·.deletes cell)).filterMap (·.2.position?) := by
  have hMarkers (due : List Exclusion) :
      (due.map fun _ => Cell.marker).filterMap Cell.position? = [] := by
    simp [Cell.position?]
  induction cells generalizing pending with
  | nil => exact hMarkers pending
  | cons cell rest ih =>
      rw [edited, List.filterMap_append, List.filterMap_append, hMarkers, ih, List.filter_cons]
      cases exclusions.any (·.deletes cell) with
      | true => rfl
      | false => cases hPosition : cell.2.position? <;> simp [hPosition]

end Exclusion

namespace View
open Token Exclusion

/-- The characters of a token that are from the source, each with its offset in the view and in the
source. -/
def backedAt (piece : Nat × Token) : List (Nat × Nat) :=
  match piece.2 with
  | .excerpt e => (List.range e.text.length).map fun i => (piece.1 + i, e.span.start + i)
  | _ => []

/-- The shown characters that are from the source, in the order of the view, each with its offset in
the view and in the source. -/
def backed (view : View) : List (Nat × Nat) := (placed 0 view.tokens).flatMap backedAt

variable {view after : View} {exclusions : List Exclusion}

/-- The list has just the characters that are shown from the source. -/
theorem mem_backed_iff {offset position : Nat} :
    (offset, position) ∈ view.backed ↔ ShowsAt view offset position := by
  rw [showsAt_iff, backed, List.mem_flatMap]
  constructor
  · rintro ⟨⟨start, token⟩, hPlaced, hMem⟩
    cases token with
    | gap g => cases hMem
    | separator s => cases hMem
    | excerpt e =>
        obtain ⟨i, hi, hEq⟩ := List.mem_map.1 hMem
        obtain ⟨rfl, rfl⟩ := Prod.mk.inj hEq
        exact ⟨start, e, i, hPlaced, List.mem_range.1 hi, rfl, rfl⟩
  · rintro ⟨start, e, i, hPlaced, hi, rfl, rfl⟩
    exact ⟨_, hPlaced, List.mem_map.2 ⟨i, List.mem_range.2 hi, rfl⟩⟩

theorem offset_of_mem_backedAt {piece : Nat × Token} {shown : Nat × Nat} (h : shown ∈ backedAt piece) :
    piece.1 ≤ shown.1 ∧ shown.1 < piece.1 + piece.2.width := by
  obtain ⟨start, token⟩ := piece
  cases token with
  | gap g => cases h
  | separator s => cases h
  | excerpt e =>
      obtain ⟨i, hi, rfl⟩ := List.mem_map.1 h
      have hLength := List.mem_range.1 hi
      rw [width_excerpt]
      omega

/-- The characters stand at increasing offsets of the view. -/
theorem pairwise_backed (view : View) : view.backed.Pairwise fun a b => a.1 < b.1 := by
  refine List.pairwise_flatMap.2 ⟨fun piece _ => ?_, ?_⟩
  · obtain ⟨start, token⟩ := piece
    cases token with
    | gap g => exact .nil
    | separator s => exact .nil
    | excerpt e =>
        refine List.pairwise_map.2 (List.pairwise_lt_range.imp ?_)
        exact fun h => Nat.add_lt_add_left h start
  · refine (pairwise_placed 0 view.tokens).imp ?_
    intro a b hOrder first hFirst second hSecond
    have hBefore := offset_of_mem_backedAt hFirst
    have hBehind := offset_of_mem_backedAt hSecond
    omega

/-- The characters of a view are those of its cells. -/
theorem backed_eq_filterMap (view : View) :
    view.backed = (placedCells view.tokens).filterMap fun cell =>
      cell.2.position?.map (cell.1, ·) := by
  rw [backed, placedCells, List.filterMap_flatMap]
  congr 1
  funext piece
  obtain ⟨start, token⟩ := piece
  cases token with
  | separator s => rfl
  | gap g => cases hUnknown : g.unknown <;> simp [backedAt, cellsAt, cells, hUnknown, Cell.position?]
  | excerpt e =>
      have hCells : (cellsAt (start, excerpt e)).filterMap (fun cell =>
          cell.2.position?.map (cell.1, ·)) = backedAt (start, excerpt e) := by
        rw [cellsAt_excerpt]
        exact @filterMap_mapIdx _ _ _ e.text _ _ (fun i => (start + i, e.span.start + i))
          fun _ _ => rfl
      exact hCells.symm

/-- The characters that exclusions do not delete are those at offsets that no range covers. -/
theorem filterMap_position?_kept (exclusions : List Exclusion) (cells : List (Nat × Cell)) :
    (cells.filter fun cell => !exclusions.any (·.deletes cell)).filterMap (·.2.position?) =
      ((cells.filterMap fun cell => cell.2.position?.map (cell.1, ·)).filter
        fun shown => ¬ Covered exclusions shown.1).map (·.2) := by
  rw [List.filterMap_filter, List.filter_filterMap, List.map_filterMap]
  congr 1
  funext cell
  obtain ⟨offset, cell⟩ := cell
  cases cell with
  | separator c active => simp [Cell.position?]
  | marker => simp [Cell.position?]
  | char position c =>
      rw [any_deletes_char]
      by_cases hCovered : Covered exclusions offset <;>
        simp [Cell.position?, Option.filter, hCovered]

/-- A source offset is listed when it lies in one of the shown ranges. -/
theorem mem_flatMap_offsets_iff {position : Nat} :
    position ∈ after.shownRanges.flatMap Range.offsets ↔
      ∃ range ∈ after.shownRanges, range.start ≤ position ∧ position < range.stop := by
  simp only [List.mem_flatMap, Range.mem_offsets_iff]

/-- A source range is asked for with success when one of its offsets is shown. -/
theorem showsAnyOf_eq {wanted : Loose} {range : Range} (hWanted : wanted.toRange = .ok range) :
    ∃ answer, after.showsAnyOf wanted = .ok answer ∧ (answer = true ↔
      ∃ position ∈ after.shownRanges.flatMap Range.offsets,
        range.start ≤ position ∧ position < range.stop) := by
  refine ⟨after.shownRanges.any (·.meets range), by rw [showsAnyOf, hWanted]; rfl, ?_⟩
  simp only [List.any_eq_true, Range.meets_iff, mem_flatMap_offsets_iff]
  constructor
  · rintro ⟨shown, hShown, position, hStart, hStop, hWithin⟩
    exact ⟨position, ⟨shown, hShown, hStart, hStop⟩, hWithin⟩
  · rintro ⟨position, ⟨shown, hShown, hStart, hStop⟩, hWithin⟩
    exact ⟨shown, hShown, position, hStart, hStop, hWithin⟩

/-- What is seen of the source behind exclusions. The offsets of the shown ranges are those of the
characters that no exclusion covers, in the order of the view before, and a source range is found
when one of these characters is in it. -/
structure LeavesShown (exclusions : List Exclusion) (view after : View) : Prop where
  listed : ∃ kept : List (Nat × Nat), kept.Pairwise (fun a b => a.1 < b.1) ∧
    (∀ offset position, (offset, position) ∈ kept ↔
      ShowsAt view offset position ∧ ¬ Covered exclusions offset) ∧
    after.shownRanges.flatMap Range.offsets = kept.map (·.2)
  found : ∀ wanted range, Loose.toRange wanted = .ok range →
    ∃ answer, after.showsAnyOf wanted = .ok answer ∧ (answer = true ↔
      ∃ offset position, ShowsAt view offset position ∧ ¬ Covered exclusions offset ∧
        range.start ≤ position ∧ position < range.stop)

/-- Valid exclusions leave of the source material in a view exactly the characters that they do not
cover. -/
theorem shownRanges_excludeAll (hView : SourceBuilt view)
    (hValid : Exclusion.validate exclusions view.length = .ok ()) :
    ∃ after, view.excludeAll exclusions = .ok after ∧ LeavesShown exclusions view after := by
  obtain ⟨swept, after, hSwept, -, hAfter, -, -, hTokens⟩ :=
    exists_excludeAll hView.grounded.rooted hValid
  have hOffsets : after.shownRanges.flatMap Range.offsets =
      (view.backed.filter fun shown => ¬ Covered exclusions shown.1).map (·.2) := by
    rw [shownRanges, ← filterMap_position?_allCells, hTokens, allCells_of_sweep hValid hSwept,
      Cell.filterMap_position?_awaken, Cell.filterMap_position?_collapse, filterMap_position?_edited,
      filterMap_position?_kept, ← backed_eq_filterMap]
  have hKept (offset position : Nat) :
      (offset, position) ∈ view.backed.filter (fun shown => ¬ Covered exclusions shown.1) ↔
        ShowsAt view offset position ∧ ¬ Covered exclusions offset := by
    rw [List.mem_filter, mem_backed_iff, decide_eq_true_iff]
  refine ⟨after, hAfter, ⟨_, (pairwise_backed view).filter _, hKept, hOffsets⟩, ?_⟩
  intro wanted range hWanted
  obtain ⟨answer, hAnswer, hIff⟩ := showsAnyOf_eq hWanted
  refine ⟨answer, hAnswer, hIff.trans ?_⟩
  rw [hOffsets]
  constructor
  · rintro ⟨position, hMem, hWithin⟩
    obtain ⟨⟨offset, _⟩, hShown, rfl⟩ := List.mem_map.1 hMem
    obtain ⟨hShows, hOutside⟩ := (hKept offset _).1 hShown
    exact ⟨offset, _, hShows, hOutside, hWithin⟩
  · rintro ⟨offset, position, hShows, hOutside, hWithin⟩
    exact ⟨position, List.mem_map.2 ⟨(offset, position), (hKept offset position).2 ⟨hShows, hOutside⟩,
      rfl⟩, hWithin⟩

/-- Two parts of a source with a separator between them, behind a marked character and a range that
holds the separator and what stands on either side of it. -/
theorem shownRanges_excludeAll_separated :
    ∃ first second view,
      View.ofSpan (⟨"doc", ['a', 'b', 'c', 'd', 'e', 'f']⟩ : Source) ⟨⟨0, 3, by decide⟩, "doc"⟩ =
        .ok first ∧
      View.ofSpan (⟨"doc", ['a', 'b', 'c', 'd', 'e', 'f']⟩ : Source) ⟨⟨3, 6, by decide⟩, "doc"⟩ =
        .ok second ∧
      View.joinWithBlank [first, second] = .ok (some view) ∧
      ∃ after, view.excludeAll [⟨⟨0, 1, by decide⟩, true⟩, ⟨⟨2, 5, by decide⟩, false⟩] = .ok after ∧
        LeavesShown [⟨⟨0, 1, by decide⟩, true⟩, ⟨⟨2, 5, by decide⟩, false⟩] view after := by
  have hParts : ∃ first second view,
      View.ofSpan (⟨"doc", ['a', 'b', 'c', 'd', 'e', 'f']⟩ : Source) ⟨⟨0, 3, by decide⟩, "doc"⟩ =
        .ok first ∧
      View.ofSpan (⟨"doc", ['a', 'b', 'c', 'd', 'e', 'f']⟩ : Source) ⟨⟨3, 6, by decide⟩, "doc"⟩ =
        .ok second ∧
      View.joinWithBlank [first, second] = .ok (some view) ∧
      Exclusion.validate [⟨⟨0, 1, by decide⟩, true⟩, ⟨⟨2, 5, by decide⟩, false⟩] view.length = .ok () :=
    ⟨_, _, _, rfl, rfl, rfl, rfl⟩
  obtain ⟨first, second, view, hFirst, hSecond, hView, hValid⟩ := hParts
  refine ⟨first, second, view, hFirst, hSecond, hView, shownRanges_excludeAll ?_ hValid⟩
  refine .joinWithBlank [' '] ?_ hView
  simp only [List.mem_cons, forall_eq_or_imp]
  exact ⟨.ofSpan _ _ _ hFirst, .ofSpan _ _ _ hSecond, by simp⟩

end View
end SourceView
