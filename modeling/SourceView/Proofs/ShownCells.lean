import SourceView.Proofs.Cells
import SourceView.View

/-! What cells show. The shown text of a view and the offsets of its markers can be read off its
cells, and making one of markers that meet changes neither. -/
namespace SourceView

namespace Cell

def shown : Cell → List Char
  | char _ c => [c]
  | separator c active => if active then [c] else []
  | marker => []

def shownText (cells : List Cell) : List Char := cells.flatMap shown

/-- The offsets of the shown text at which markers stand when the first cell stands at `offset`. -/
def markerOffsets (offset : Nat) : List Cell → List Nat
  | [] => []
  | marker :: rest => offset :: markerOffsets offset rest
  | cell :: rest => markerOffsets (offset + cell.shown.length) rest

theorem shownText_cons (cell : Cell) (rest : List Cell) :
    shownText (cell :: rest) = cell.shown ++ shownText rest := rfl

theorem shownText_append (before after : List Cell) :
    shownText (before ++ after) = shownText before ++ shownText after := List.flatMap_append ..

/-- Making one of markers that meet changes nothing that markers do not have. -/
theorem flatMap_press {α : Type} {f : Cell → List α} (hMarker : f marker = []) (cell : Cell)
    (cells : List Cell) : (press cell cells).flatMap f = (cell :: cells).flatMap f := by
  cases cell with
  | char position c => rfl
  | separator c active => rfl
  | marker =>
      cases cells with
      | nil => rfl
      | cons other rest => cases other <;> simp [press, hMarker]

/-- What markers contribute nothing to can be read off the collapsed cells. -/
theorem flatMap_collapse {α : Type} {f : Cell → List α} (hMarker : f marker = [])
    (cells : List Cell) : (collapse cells).flatMap f = cells.flatMap f := by
  induction cells with
  | nil => rfl
  | cons cell rest ih =>
      rw [collapse_cons, flatMap_press hMarker, List.flatMap_cons, ih, ← List.flatMap_cons]

theorem shownText_collapse (cells : List Cell) : shownText (collapse cells) = shownText cells :=
  flatMap_collapse rfl cells

theorem markerOffsets_append (offset : Nat) (before after : List Cell) :
    markerOffsets offset (before ++ after) =
      markerOffsets offset before ++ markerOffsets (offset + (shownText before).length) after := by
  induction before generalizing offset with
  | nil => rfl
  | cons cell rest ih =>
      cases cell <;>
        simp [markerOffsets, ih, shownText_cons, shown, Nat.add_assoc, Nat.add_comm]

theorem markerOffsets_chars {chars : List Cell}
    (h : ∀ cell ∈ chars, ∃ position c, cell = .char position c) (offset : Nat) :
    markerOffsets offset chars = [] := by
  induction chars generalizing offset with
  | nil => rfl
  | cons cell rest ih =>
      simp only [List.mem_cons, forall_eq_or_imp] at h
      obtain ⟨⟨position, c, rfl⟩, hRest⟩ := h
      exact ih hRest _

/-- Where several markers meet, they all stand at one offset. -/
theorem mem_markerOffsets_press {offset wanted : Nat} {cell : Cell} {cells : List Cell} :
    wanted ∈ markerOffsets offset (press cell cells) ↔
      wanted ∈ markerOffsets offset (cell :: cells) := by
  cases cell with
  | char position c => rfl
  | separator c active => rfl
  | marker =>
      cases cells with
      | nil => rfl
      | cons other rest => cases other <;> simp [press, markerOffsets]

/-- Making one of markers that meet loses no offset with a marker. -/
theorem mem_markerOffsets_collapse {offset wanted : Nat} {cells : List Cell} :
    wanted ∈ markerOffsets offset (collapse cells) ↔ wanted ∈ markerOffsets offset cells := by
  induction cells generalizing offset with
  | nil => rfl
  | cons cell rest ih =>
      rw [collapse_cons, mem_markerOffsets_press]
      cases cell <;> simp [markerOffsets, ih]

end Cell

namespace Token

theorem shownText_cells (token : Token) : Cell.shownText token.cells = token.shown := by
  cases token with
  | separator s => simp [cells, Cell.shownText, Cell.shown, shown]
  | gap g => cases hUnknown : g.unknown <;> simp [cells, Cell.shownText, Cell.shown, shown, hUnknown]
  | excerpt e =>
      simp only [cells, Cell.shownText, List.mapIdx_eq_zipIdx_map, List.flatMap_map, Cell.shown, shown]
      rw [← List.map_eq_flatMap]
      exact List.zipIdx_map_fst 0 e.text

theorem shownText_allCells (tokens : List Token) :
    Cell.shownText (allCells tokens) = shownText tokens := by
  induction tokens with
  | nil => rfl
  | cons token rest ih =>
      rw [allCells_cons, Cell.shownText_append, shownText_cells, ih]
      rfl

/-- Markers of a single token stand where it begins. -/
theorem markerOffsets_cells (offset : Nat) (token : Token) :
    Cell.markerOffsets offset token.cells = if token.isMarker then [offset] else [] := by
  cases token with
  | separator s => rfl
  | gap g => cases hUnknown : g.unknown <;> simp [cells, Cell.markerOffsets, isMarker, hUnknown]
  | excerpt e => exact Cell.markerOffsets_chars (fun cell hCell => char_of_mem_cells hCell) offset

/-- Markers among the cells stand where the unknown gaps stand among the tokens. -/
theorem markerOffsets_allCells (offset : Nat) (tokens : List Token) :
    Cell.markerOffsets offset (allCells tokens) =
      ((placed offset tokens).filter (·.2.isMarker)).map (·.1) := by
  induction tokens generalizing offset with
  | nil => rfl
  | cons token rest ih =>
      rw [allCells_cons, Cell.markerOffsets_append, markerOffsets_cells, shownText_cells, ih]
      cases hMarker : token.isMarker <;> simp [placed, hMarker, width]

end Token

namespace View
open Token

theorem text_eq_shownText (view : View) : view.text = Cell.shownText (allCells view.tokens) :=
  (shownText_allCells view.tokens).symm

theorem unknownOffsets_eq_markerOffsets (view : View) :
    view.unknownOffsets = Cell.markerOffsets 0 (allCells view.tokens) :=
  (markerOffsets_allCells 0 view.tokens).symm

/-- The separators of a view are active where something precedes them already. -/
theorem awaken_allCells (view : View) :
    Cell.awaken false (allCells view.tokens) = allCells view.tokens := by
  rw [← allCells_settle false view.canonical.shows, settle_of_settled view.canonical.settled]

end View
end SourceView
