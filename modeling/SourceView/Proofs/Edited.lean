import SourceView.Proofs.Cells
import SourceView.Proofs.Exclude
import SourceView.Proofs.Tidy
import SourceView.View.Join

/-! What exclusions do to the cells of a view. Shown cells within an exclusion are deleted, dormant
separators and markers stay, and each exclusion that asks for it leaves a marker. -/
namespace SourceView

def Cell.isShown : Cell → Bool
  | char _ _ => true
  | separator _ active => active
  | marker => false

namespace Token

def cellsAt (piece : Piece) : List (Nat × Cell) :=
  piece.2.cells.mapIdx fun i cell => (piece.1 + i, cell)

def placedCells (tokens : List Token) : List (Nat × Cell) := (placed 0 tokens).flatMap cellsAt

theorem map_snd_cellsAt (piece : Piece) : (cellsAt piece).map (·.2) = piece.2.cells := by
  apply List.ext_getElem (by simp [cellsAt])
  intro i _ _
  simp [cellsAt]

theorem cellsAt_excerpt (start : Nat) (e : Excerpt) :
    cellsAt (start, excerpt e) =
      e.text.mapIdx fun i c => (start + i, .char (e.span.start + i) c) := by
  simp [cellsAt, cells, List.mapIdx_mapIdx, Function.comp_def]

/-- Without their offsets, placed cells are the cells of the tokens. -/
theorem map_snd_flatMap_cellsAt (pieces : List Piece) :
    (pieces.flatMap cellsAt).map (·.2) = allCells (pieces.map (·.2)) := by
  induction pieces with
  | nil => rfl
  | cons piece rest ih =>
      rw [List.flatMap_cons, List.map_append, map_snd_cellsAt, ih]
      rfl

/-- The atoms of a token have its cells, each at the same offset. -/
theorem flatMap_cellsAt_atoms (start : Nat) (token : Token) :
    (placed start token.atoms).flatMap cellsAt = cellsAt (start, token) := by
  cases token with
  | gap g => simp [atoms, placed]
  | separator s => simp [atoms, placed]
  | excerpt e =>
      induction hLength : e.text.length generalizing e start with
      | zero =>
          have hNil : e.text = [] := List.length_eq_zero_iff.1 hLength
          simp [atoms_of_text_nil hNil, placed, cellsAt, cells, hNil]
      | succ n ih =>
          have hDrop : (e.drop 1).text.length = n := by simp [Excerpt.drop, hLength]
          cases hText : e.text with
          | nil => simp [hText] at hLength
          | cons c text =>
              have hNe : e.text ≠ [] := by simp [hText]
              have hStop := e.stop_eq
              have hNext : min (e.span.start + 1) e.span.stop = e.span.start + 1 := by omega
              have hWidth : (excerpt (e.take 1)).width = 1 := by
                simp [width_excerpt, Excerpt.take, hText]
              rw [atoms_of_text_ne_nil hNe, placed, List.flatMap_cons, hWidth, ih _ _ hDrop,
                cellsAt_excerpt, cellsAt_excerpt, cellsAt_excerpt, hText, List.mapIdx_cons]
              simp only [Excerpt.take, Excerpt.drop, Span.take, Span.drop, hText, hNext]
              simp [Nat.add_assoc, Nat.add_comm 1]

/-- Dividing tokens leaves all cells where they are. -/
theorem placedCells_atomize (tokens : List Token) : placedCells (atomize tokens) = placedCells tokens := by
  have hFrom (offset : Nat) : (placed offset (atomize tokens)).flatMap cellsAt =
      (placed offset tokens).flatMap cellsAt := by
    induction tokens generalizing offset with
    | nil => rfl
    | cons token rest ih =>
        rw [atomize_cons, placed_append, List.flatMap_append, flatMap_cellsAt_atoms, totalWidth_atoms,
          ih, placed, List.flatMap_cons]
  exact hFrom 0

end Token

namespace Exclusion
open Token

/-- Whether an exclusion deletes a cell: a shown one that stands in its range. -/
def deletes (e : Exclusion) (cell : Nat × Cell) : Bool :=
  cell.2.isShown && decide (e.start ≤ cell.1) && decide (cell.1 < e.stop)

/-- Whether the marker of an exclusion is due at a cell. One of an empty range marks in front of the
first cell that does not stand before it, any other in place of the first cell that it deletes. -/
def reaches (e : Exclusion) (cell : Nat × Cell) : Bool :=
  if e.isCaret then decide (e.start ≤ cell.1) else e.deletes cell

/-- The cells that exclusions leave, with the markers that are still due for those in `pending`. -/
def edited (exclusions : List Exclusion) : List Exclusion → List (Nat × Cell) → List Cell
  | pending, [] => pending.map fun _ => .marker
  | pending, cell :: rest =>
    ((pending.filter (·.reaches cell)).map fun _ => .marker)
      ++ (if exclusions.any (·.deletes cell) then [] else [cell.2])
      ++ edited exclusions (pending.filter (!·.reaches cell)) rest

theorem edited_nil (cells : List (Nat × Cell)) : edited [] [] cells = cells.map (·.2) := by
  induction cells with
  | nil => rfl
  | cons cell rest ih =>
      rw [List.map_cons, ← ih]
      rfl

/-- Up to where no marker is due, the cells that no exclusion deletes are left. -/
theorem edited_append {exclusions pending : List Exclusion} {before : List (Nat × Cell)}
    (h : ∀ e ∈ pending, ∀ cell ∈ before, e.reaches cell = false) (after : List (Nat × Cell)) :
    edited exclusions pending (before ++ after) =
      (before.filter fun cell => !exclusions.any (·.deletes cell)).map (·.2)
        ++ edited exclusions pending after := by
  induction before with
  | nil => rfl
  | cons cell rest ih =>
      simp only [List.mem_cons, forall_eq_or_imp] at h
      have hNone : pending.filter (·.reaches cell) = [] :=
        List.filter_eq_nil_iff.2 fun e he => by simp [(h e he).1]
      have hAll : pending.filter (!·.reaches cell) = pending :=
        List.filter_eq_self.2 fun e he => by simp [(h e he).1]
      rw [List.cons_append, edited, hNone, hAll, ih fun e he => (h e he).2, List.filter_cons]
      cases exclusions.any (·.deletes cell) <;> simp

/-- Of exclusions without markers it only counts which cells they delete. -/
theorem edited_congr {exclusions others : List Exclusion} {cells : List (Nat × Cell)}
    (h : ∀ cell ∈ cells, exclusions.any (·.deletes cell) = others.any (·.deletes cell))
    (pending : List Exclusion) : edited exclusions pending cells = edited others pending cells := by
  induction cells generalizing pending with
  | nil => rfl
  | cons cell rest ih =>
      simp only [List.mem_cons, forall_eq_or_imp] at h
      rw [edited, edited, h.1, ih h.2]

/-- A marker that is due at once stands in front. -/
theorem edited_cons_pending {e : Exclusion} {cells : List (Nat × Cell)}
    (h : ∀ cell ∈ cells, e.reaches cell = true) (exclusions pending : List Exclusion) :
    edited exclusions (e :: pending) cells = .marker :: edited exclusions pending cells := by
  cases cells with
  | nil => rfl
  | cons cell rest => simp [edited, h cell List.mem_cons_self]

/-- A marker that is due at a deleted cell stands in its place. -/
theorem edited_cons_deleted {e : Exclusion} {exclusions pending : List Exclusion}
    {cell : Nat × Cell} (hDeleted : exclusions.any (·.deletes cell) = true)
    (hReaches : e.reaches cell = true) (hOthers : ∀ other ∈ pending, other.reaches cell = false)
    (rest : List (Nat × Cell)) :
    edited exclusions (e :: pending) (cell :: rest) = .marker :: edited exclusions pending rest := by
  have hNone : pending.filter (·.reaches cell) = [] :=
    List.filter_eq_nil_iff.2 fun other hOther => by simp [hOthers other hOther]
  have hAll : pending.filter (!·.reaches cell) = pending :=
    List.filter_eq_self.2 fun other hOther => by simp [hOthers other hOther]
  simp [edited, hReaches, hNone, hAll, hDeleted]

/-- A cell in front of an exclusion is neither deleted by it nor a place for its marker. -/
theorem deletes_of_lt {e : Exclusion} {cell : Nat × Cell} (h : cell.1 < e.start) :
    e.deletes cell = false ∧ e.reaches cell = false := by
  have hDeletes : e.deletes cell = false := by
    have hStart : ¬ e.start ≤ cell.1 := Nat.not_le.2 h
    simp [deletes, hStart]
  refine ⟨hDeletes, ?_⟩
  unfold reaches
  split
  · simpa using h
  · exact hDeletes

/-- Hidden cells are never deleted, and only an exclusion of an empty range marks at one. -/
theorem deletes_of_not_isShown {e : Exclusion} {cell : Nat × Cell} (hCaret : e.isCaret = false)
    (h : cell.2.isShown = false) : e.deletes cell = false ∧ e.reaches cell = false := by
  have hDeletes : e.deletes cell = false := by simp [deletes, h]
  exact ⟨hDeletes, by simp [reaches, hCaret, hDeletes]⟩

/-- How an exclusion parts atoms that begin at an offset. -/
structure Parting (e : Exclusion) (offset : Nat) (tokens before hidden after : List Token) : Prop where
  whole : tokens = before ++ hidden ++ after
  start : offset + totalWidth before = e.start
  stop : e.start + totalWidth hidden = e.stop
  front_eq : e.front (placed offset tokens) = placed offset before
  covered_eq : e.covered (placed offset tokens) = placed e.start hidden
  behind_eq : e.behind (placed offset tokens) = placed e.stop after
  passed : ∀ piece ∈ placed offset before,
    piece.1 < e.start ∨ e.isCaret = false ∧ piece.2.isVisible = false
  reached : ∀ piece ∈ placed e.start hidden, piece.1 < e.stop
  first : e.isCaret = false → ∃ token rest, hidden = token :: rest ∧ token.isVisible = true

/-- Atoms are parted by what they show in front of the exclusion and within it. Those at its start
that show nothing go to the side that the exclusion decides on. -/
theorem parting_of_widths {e : Exclusion} {offset : Nat} {before hidden : List Token}
    (hStart : offset + totalWidth before = e.start) (hStop : e.start + totalWidth hidden = e.stop)
    (hPassed : ∀ piece ∈ placed offset before,
      piece.1 < e.start ∨ e.isCaret = false ∧ piece.1 = e.start ∧ piece.2.isVisible = false)
    (hReached : ∀ piece ∈ placed e.start hidden, piece.1 < e.stop)
    (hFirst : e.isCaret = false → ∃ token rest, hidden = token :: rest ∧ token.isVisible = true)
    (after : List Token) : Parting e offset (before ++ hidden ++ after) before hidden after := by
  have hPlaced : placed offset (before ++ hidden ++ after) =
      placed offset before ++ (placed e.start hidden ++ placed e.stop after) := by
    rw [List.append_assoc, placed_append, hStart, placed_append, hStop]
  have hBefore : ∀ piece ∈ placed offset before, isBefore e.start (!e.isCaret) piece = true := by
    intro piece hPiece
    rcases hPassed piece hPiece with hLt | ⟨hCaret, hEq, hInvisible⟩
    · simp [isBefore, hLt]
    · simp [isBefore, hEq, hInvisible, hCaret]
  have hShown : ∀ piece ∈ (placed e.start hidden ++ placed e.stop after).head?,
      isBefore e.start (!e.isCaret) piece = false := by
    intro piece hPiece
    cases hCaret : e.isCaret with
    | true =>
        have hMem := List.mem_of_mem_head? hPiece
        rw [← hStop, ← placed_append] at hMem
        have hBehind := (start_of_mem_placed hMem).1
        rw [Bool.not_true, isBefore_false, decide_eq_false_iff_not]
        omega
    | false =>
        obtain ⟨token, rest, rfl, hVisible⟩ := hFirst hCaret
        cases hPiece
        simp [isBefore, hVisible]
  have hBehind : ∀ piece ∈ (placed e.stop after).head?, e.stop ≤ piece.1 := by
    intro piece hPiece
    exact (start_of_mem_placed (List.mem_of_mem_head? hPiece)).1
  obtain ⟨hFrontEq, hCoveredEq, hBehindEq⟩ := parts_eq hBefore hShown hReached hBehind
  rw [← hPlaced] at hFrontEq hCoveredEq hBehindEq
  exact ⟨rfl, hStart, hStop, hFrontEq, hCoveredEq, hBehindEq,
    fun piece hPiece => (hPassed piece hPiece).imp_right fun h => ⟨h.1, h.2.2⟩, hReached, hFirst⟩

/-- An exclusion within the text parts the atoms of every sequence. -/
theorem exists_parting {e : Exclusion} {offset : Nat} {tokens : List Token}
    (hNarrow : ∀ token ∈ tokens, token.width ≤ 1) (hStart : offset ≤ e.start)
    (hStop : e.stop ≤ offset + totalWidth tokens) :
    ∃ before hidden after, Parting e offset tokens before hidden after := by
  have hOrdered := e.ordered
  obtain ⟨left, right, rfl, hLeft, hPassed⟩ :=
    exists_append_of_narrow hNarrow hStart (Nat.le_trans hOrdered hStop)
  cases hCaret : e.isCaret with
  | true =>
      have hEnds : e.start = e.stop := Nat.le_antisymm hOrdered (Range.isCaret_iff.1 hCaret)
      refine ⟨left, [], right, ?_⟩
      have hWhole : left ++ right = left ++ [] ++ right := by simp
      rw [hWhole]
      apply parting_of_widths
      · exact hLeft
      · exact hEnds
      · exact fun piece hPiece => .inl (hPassed piece hPiece)
      · simp [placed]
      · simp [hCaret]
  | false =>
      have hProper := Range.not_isCaret_iff.1 hCaret
      -- What takes no room at the start of the range is in front of it.
      obtain ⟨blanks, shown, rfl, hBlanks, hShown⟩ := exists_leading_blanks right
      have hNone : totalWidth blanks = 0 := totalWidth_eq_zero_iff.2 hBlanks
      rw [totalWidth_append, totalWidth_append] at hStop
      simp only [List.mem_append] at hNarrow
      obtain ⟨hidden, after, rfl, hHidden, hReached⟩ := @exists_append_of_narrow e.start e.stop shown
        (fun token h => hNarrow token (.inr (.inr h))) hOrdered (by omega)
      refine ⟨left ++ blanks, hidden, after, ?_⟩
      rw [← List.append_assoc, ← List.append_assoc]
      apply parting_of_widths
      · rw [totalWidth_append]
        omega
      · exact hHidden
      · intro piece hPiece
        rw [placed_append, hLeft, List.mem_append] at hPiece
        rcases hPiece with hPiece | hPiece
        · exact .inl (hPassed piece hPiece)
        · have hWithin := start_of_mem_placed hPiece
          exact .inr ⟨hCaret, by omega, hBlanks piece.2 (mem_of_mem_placed hPiece)⟩
      · exact hReached
      · intro _
        cases hidden with
        | nil =>
            simp only [totalWidth] at hHidden
            omega
        | cons token rest => exact ⟨token, rest, rfl, hShown token rfl⟩

/-- The cells of an atom stand where the atom begins. -/
theorem mem_cellsAt_of_narrow {piece : Piece} (hNarrow : piece.2.width ≤ 1) {cell : Nat × Cell}
    (h : cell ∈ cellsAt piece) : cell.1 = piece.1 ∧ cell.2.isShown = piece.2.isVisible := by
  obtain ⟨start, token⟩ := piece
  obtain ⟨i, hi, rfl⟩ := List.mem_mapIdx.1 h
  cases token with
  | gap g =>
      cases hUnknown : g.unknown with
      | false => simp [cells, hUnknown] at hi
      | true =>
          simp only [cells, hUnknown, if_true, List.length_singleton, Nat.lt_one_iff] at hi
          simp [cells, hUnknown, hi, Cell.isShown, isVisible, shown]
  | separator s =>
      simp only [cells, List.length_singleton, Nat.lt_one_iff] at hi
      cases hActive : s.active <;> simp [cells, hi, Cell.isShown, isVisible, shown, hActive]
  | excerpt e =>
      rw [width_excerpt] at hNarrow
      simp only [cells, List.length_mapIdx] at hi
      have hVisible : (Token.excerpt e).isVisible = true := isVisible_iff.2 (by
        rw [width_excerpt]
        omega)
      simp only [cells, List.getElem_mapIdx, Cell.isShown, hVisible]
      exact ⟨by omega, trivial⟩

/-- Each cell of a sequence of atoms comes from an atom that begins at its offset. -/
theorem mem_flatMap_cellsAt {offset : Nat} {tokens : List Token}
    (hNarrow : ∀ token ∈ tokens, token.width ≤ 1) {cell : Nat × Cell}
    (h : cell ∈ (placed offset tokens).flatMap cellsAt) :
    ∃ piece ∈ placed offset tokens, cell.1 = piece.1 ∧ cell.2.isShown = piece.2.isVisible := by
  obtain ⟨piece, hPiece, hCell⟩ := List.mem_flatMap.1 h
  exact ⟨piece, hPiece, mem_cellsAt_of_narrow (hNarrow piece.2 (mem_of_mem_placed hPiece)) hCell⟩

theorem exists_cellsAt_of_visible {start : Nat} {token : Token} (h : token.isVisible = true) :
    ∃ cell cells, cellsAt (start, token) = cell :: cells := by
  cases token with
  | gap g => cases h
  | separator s => exact ⟨_, _, rfl⟩
  | excerpt e =>
      cases hText : e.text with
      | nil => simp [isVisible, shown, hText] at h
      | cons c text => exact ⟨_, _, by rw [cellsAt_excerpt, hText, List.mapIdx_cons]⟩

/-- Of tokens in which every separator is active, only the markers stay. -/
theorem kept_of_active {offset : Nat} {tokens : List Token}
    (hActive : ∀ s, .separator s ∈ tokens → s.active = true) :
    (((placed offset tokens).flatMap cellsAt).filter (!·.2.isShown)).map (·.2) =
      (tokens.filter isMarker).map fun _ => .marker := by
  induction tokens generalizing offset with
  | nil => rfl
  | cons token rest ih =>
      have hRest := @ih (offset + token.width) fun s hs => hActive s (List.mem_cons_of_mem _ hs)
      rw [placed, List.flatMap_cons, List.filter_append, List.map_append, hRest, List.filter_cons]
      cases token with
      | gap g =>
          cases hUnknown : g.unknown <;> simp [cellsAt, cells, hUnknown, isMarker, Cell.isShown]
      | separator s =>
          have hShown := hActive s List.mem_cons_self
          simp [cellsAt, cells, isMarker, Cell.isShown, hShown]
      | excerpt e =>
          have hNone : (cellsAt (offset, .excerpt e)).filter (!·.2.isShown) = [] := by
            apply List.filter_eq_nil_iff.2
            intro cell hCell
            rw [cellsAt_excerpt] at hCell
            obtain ⟨i, hi, rfl⟩ := List.mem_mapIdx.1 hCell
            simp [Cell.isShown]
          rw [hNone]
          rfl

namespace Parting
variable {e : Exclusion} {later : List Exclusion} {offset : Nat}
  {tokens before hidden after : List Token}

theorem narrow (h : Parting e offset tokens before hidden after)
    (hNarrow : ∀ token ∈ tokens, token.width ≤ 1) :
    (∀ token ∈ before, token.width ≤ 1) ∧ (∀ token ∈ hidden, token.width ≤ 1) ∧
      ∀ token ∈ after, token.width ≤ 1 := by
  rw [h.whole] at hNarrow
  simp only [List.mem_append] at hNarrow
  exact ⟨fun token hToken => hNarrow token (.inl (.inl hToken)),
    fun token hToken => hNarrow token (.inl (.inr hToken)),
    fun token hToken => hNarrow token (.inr hToken)⟩

theorem cells_eq (h : Parting e offset tokens before hidden after) :
    (placed offset tokens).flatMap cellsAt =
      (placed offset before).flatMap cellsAt ++ ((placed e.start hidden).flatMap cellsAt ++
        (placed e.stop after).flatMap cellsAt) := by
  rw [h.whole, placed_append, placed_append, totalWidth_append, h.start, ← Nat.add_assoc, h.start,
    h.stop, List.flatMap_append, List.flatMap_append, List.append_assoc]

/-- An exclusion of an empty range hides no atom. -/
theorem hidden_of_isCaret (h : Parting e offset tokens before hidden after)
    (hCaret : e.isCaret = true) : hidden = [] := by
  have hCovered := h.covered_eq
  rw [covered_of_isCaret hCaret] at hCovered
  rw [← map_snd_placed e.start hidden, ← hCovered]
  rfl

/-- Nothing happens to the cells in front. -/
theorem spares (h : Parting e offset tokens before hidden after)
    (hNarrow : ∀ token ∈ tokens, token.width ≤ 1) (hLater : ∀ other ∈ later, e.stop ≤ other.start)
    {other : Exclusion} (hOther : other ∈ e :: later) {cell : Nat × Cell}
    (hCell : cell ∈ (placed offset before).flatMap cellsAt) :
    other.deletes cell = false ∧ other.reaches cell = false := by
  obtain ⟨piece, hPiece, hAt, hShown⟩ := mem_flatMap_cellsAt (h.narrow hNarrow).1 hCell
  have hWithin := start_of_mem_placed hPiece
  have hStart := h.start
  have hOrdered := e.ordered
  rcases List.mem_cons.1 hOther with rfl | hOther
  · rcases h.passed piece hPiece with hLt | ⟨hCaret, hInvisible⟩
    · apply deletes_of_lt
      omega
    · exact deletes_of_not_isShown hCaret (hShown.trans hInvisible)
  · have hBehind := hLater other hOther
    apply deletes_of_lt
    rcases h.passed piece hPiece with hLt | ⟨hCaret, -⟩
    · omega
    · have hProper := Range.not_isCaret_iff.1 hCaret
      omega

/-- Of the hidden cells the shown ones are deleted, and by this exclusion only. -/
theorem deletes_hidden (h : Parting e offset tokens before hidden after)
    (hNarrow : ∀ token ∈ tokens, token.width ≤ 1) (hLater : ∀ other ∈ later, e.stop ≤ other.start)
    {cell : Nat × Cell} (hCell : cell ∈ (placed e.start hidden).flatMap cellsAt) :
    e.deletes cell = cell.2.isShown ∧
      ∀ other ∈ later, other.deletes cell = false ∧ other.reaches cell = false := by
  obtain ⟨piece, hPiece, hAt, -⟩ := mem_flatMap_cellsAt (h.narrow hNarrow).2.1 hCell
  have hFirst := (start_of_mem_placed hPiece).1
  have hLast := h.reached piece hPiece
  rw [← hAt] at hFirst hLast
  constructor
  · simp [deletes, hFirst, hLast]
  · intro other hOther
    apply deletes_of_lt
    exact Nat.lt_of_lt_of_le hLast (hLater other hOther)

theorem stop_le (h : Parting e offset tokens before hidden after)
    (hNarrow : ∀ token ∈ tokens, token.width ≤ 1) {cell : Nat × Cell}
    (hCell : cell ∈ (placed e.stop after).flatMap cellsAt) : e.stop ≤ cell.1 := by
  obtain ⟨piece, hPiece, hAt, -⟩ := mem_flatMap_cellsAt (h.narrow hNarrow).2.2 hCell
  rw [hAt]
  exact (start_of_mem_placed hPiece).1

/-- The cells behind an exclusion are left to the later ones. -/
theorem edited_behind (h : Parting e offset tokens before hidden after)
    (hNarrow : ∀ token ∈ tokens, token.width ≤ 1) (later pending : List Exclusion) :
    edited (e :: later) pending ((placed e.stop after).flatMap cellsAt) =
      edited later pending ((placed e.stop after).flatMap cellsAt) := by
  apply edited_congr
  intro cell hCell
  have hStop : ¬ cell.1 < e.stop := Nat.not_lt.2 (h.stop_le hNarrow hCell)
  simp [deletes, hStop]

/-- What is left of the cells in front. -/
theorem kept_before (h : Parting e offset tokens before hidden after)
    (hNarrow : ∀ token ∈ tokens, token.width ≤ 1) (hLater : ∀ other ∈ later, e.stop ≤ other.start) :
    (((placed offset before).flatMap cellsAt).filter
      fun cell => !(e :: later).any (·.deletes cell)).map (·.2) = allCells before := by
  rw [List.filter_eq_self.2, map_snd_flatMap_cellsAt, map_snd_placed]
  intro cell hCell
  simp only [Bool.not_eq_true', List.any_eq_false, Bool.not_eq_true]
  exact fun other hOther => (h.spares hNarrow hLater hOther hCell).1

/-- What is left of the hidden cells. -/
theorem kept_hidden (h : Parting e offset tokens before hidden after)
    (hNarrow : ∀ token ∈ tokens, token.width ≤ 1) (hLater : ∀ other ∈ later, e.stop ≤ other.start)
    (hAwake : ∀ s, .separator s ∈ hidden → s.active = true) :
    (((placed e.start hidden).flatMap cellsAt).filter
      fun cell => !(e :: later).any (·.deletes cell)).map (·.2) =
        (hidden.filter isMarker).map fun _ => .marker := by
  rw [← @kept_of_active e.start hidden hAwake]
  apply congrArg
  apply List.filter_congr
  intro cell hCell
  obtain ⟨hDeletes, hOthers⟩ := h.deletes_hidden hNarrow hLater hCell
  have hNone : later.any (·.deletes cell) = false :=
    List.any_eq_false.2 fun other hOther => by simp [(hOthers other hOther).1]
  rw [List.any_cons, hDeletes, hNone, Bool.or_false]

/-- An exclusion that is not empty marks the first cell that it hides. -/
theorem exists_first_cell (h : Parting e offset tokens before hidden after)
    (hNarrow : ∀ token ∈ tokens, token.width ≤ 1) (hCaret : e.isCaret = false) :
    ∃ cell cells, (placed e.start hidden).flatMap cellsAt = cell :: cells ∧
      cell.2.isShown = true := by
  obtain ⟨token, rest, rfl, hVisible⟩ := h.first hCaret
  obtain ⟨cell, cells, hCells⟩ := @exists_cellsAt_of_visible e.start token hVisible
  have hMem : cell ∈ cellsAt (e.start, token) := by simp [hCells]
  have hWidth := (h.narrow hNarrow).2.1 token List.mem_cons_self
  refine ⟨cell, _, by rw [placed, List.flatMap_cons, hCells, List.cons_append], ?_⟩
  rw [(mem_cellsAt_of_narrow hWidth hMem).2, hVisible]

end Parting

/-- An exclusion leaves the cells in front of it, and in its place a marker where it asks for one or
hides one. -/
theorem exists_markers {e : Exclusion} {later : List Exclusion} {offset : Nat}
    {tokens before hidden after : List Token} (h : Parting e offset tokens before hidden after)
    (hNarrow : ∀ token ∈ tokens, token.width ≤ 1) (hLater : ∀ other ∈ later, e.stop ≤ other.start)
    (hAwake : ∀ s, .separator s ∈ hidden → s.active = true) :
    ∃ markers : List Cell, (∀ cell ∈ markers, cell = .marker) ∧
      markers.isEmpty = !(e.unknown || hidden.any isMarker) ∧
      edited (e :: later) ((e :: later).filter (·.unknown))
          ((placed offset tokens).flatMap cellsAt) =
        allCells before ++ (markers ++ edited later (later.filter (·.unknown))
          ((placed e.stop after).flatMap cellsAt)) := by
  have hSpares (other : Exclusion) (hOther : other ∈ (e :: later).filter (·.unknown))
      (cell : Nat × Cell) (hCell : cell ∈ (placed offset before).flatMap cellsAt) :
      other.reaches cell = false :=
    (h.spares hNarrow hLater (List.mem_filter.1 hOther).1 hCell).2
  have hHidden (other : Exclusion) (hOther : other ∈ later.filter (·.unknown))
      (cell : Nat × Cell) (hCell : cell ∈ (placed e.start hidden).flatMap cellsAt) :
      other.reaches cell = false :=
    ((h.deletes_hidden hNarrow hLater hCell).2 other (List.mem_filter.1 hOther).1).2
  have hMarkers : ∀ cell ∈ (hidden.filter isMarker).map (fun _ => Cell.marker), cell = .marker := by
    intro cell hCell
    obtain ⟨_, _, rfl⟩ := List.mem_map.1 hCell
    rfl
  have hKept := h.kept_hidden hNarrow hLater hAwake
  rw [h.cells_eq, edited_append hSpares, h.kept_before hNarrow hLater]
  cases hUnknown : e.unknown with
  | false =>
      refine ⟨_, hMarkers, ?_, ?_⟩
      · rw [Bool.eq_iff_iff]
        simp [List.filter_eq_nil_iff]
      · rw [List.filter_cons_of_neg (by simp [hUnknown]), edited_append hHidden, hKept,
          h.edited_behind hNarrow]
  | true =>
      rw [List.filter_cons_of_pos hUnknown]
      cases hCaret : e.isCaret with
      | true =>
          have hNil := h.hidden_of_isCaret hCaret
          have hReaches (cell : Nat × Cell) (hCell : cell ∈ (placed e.stop after).flatMap cellsAt) :
              e.reaches cell = true := by
            have hStart := Nat.le_trans e.ordered (h.stop_le hNarrow hCell)
            simp [reaches, hCaret, hStart]
          refine ⟨[.marker], by simp, rfl, ?_⟩
          rw [hNil, placed, List.flatMap_nil, List.nil_append, edited_cons_pending hReaches,
            h.edited_behind hNarrow]
          rfl
      | false =>
          obtain ⟨cell, cells, hCells, hShown⟩ := h.exists_first_cell hNarrow hCaret
          rw [hCells] at hHidden hKept
          have hDeletes : e.deletes cell = true := by
            rw [(h.deletes_hidden hNarrow hLater (hCells ▸ List.mem_cons_self)).1, hShown]
          have hReaches : e.reaches cell = true := by simp [reaches, hCaret, hDeletes]
          have hFirst : (e :: later).any (·.deletes cell) = true := by simp [hDeletes]
          rw [List.filter_cons_of_neg (by simp [hFirst])] at hKept
          refine ⟨.marker :: (hidden.filter isMarker).map fun _ => .marker, ?_, rfl, ?_⟩
          · intro found hFound
            exact (List.mem_cons.1 hFound).elim id (hMarkers found)
          · have hOthers (other : Exclusion) (hOther : other ∈ later.filter (·.unknown)) :
                other.reaches cell = false := hHidden other hOther cell List.mem_cons_self
            have hRest (other : Exclusion) (hOther : other ∈ later.filter (·.unknown))
                (found : Nat × Cell) (hFound : found ∈ cells) : other.reaches found = false :=
              hHidden other hOther found (List.mem_cons_of_mem _ hFound)
            rw [hCells, List.cons_append, edited_cons_deleted hFirst hReaches hOthers,
              edited_append hRest, hKept, h.edited_behind hNarrow]
            rfl

/-- What replaces hidden atoms has no cells but markers. There are some exactly when the exclusion
marks or a marker was hidden. -/
theorem cells_substitute {e : Exclusion} {left right : List Piece} {offset : Nat}
    {hidden gaps : List Token} (hActive : e.isActive = true)
    (h : e.substitute left (placed offset hidden) right = .ok gaps) :
    (∀ cell ∈ allCells gaps, cell = .marker) ∧
      (allCells gaps).isEmpty = !(e.unknown || hidden.any isMarker) := by
  have hAny : (placed offset hidden).any (·.2.isMarker) = hidden.any isMarker := by
    rw [← map_snd_placed offset hidden, List.any_map, map_snd_placed]
    rfl
  rcases substitute_cases h with ⟨anchor, -, rfl, hMarks⟩ | ⟨-, anchor, -, rfl⟩ |
    ⟨-, hKnown, hNone, rfl⟩
  · have hUnknown : e.unknown = true := by
      rcases hMarks with hCaret | ⟨hUnknown, -⟩
      · simpa [isActive, hCaret] using hActive
      · exact hUnknown
    exact ⟨by simp [allCells, cells], by simp [allCells, cells, hUnknown]⟩
  · rw [hAny]
    cases hMarks : e.unknown || hidden.any isMarker <;> simp [allCells, cells]
  · have hNoMarker : hidden.any isMarker = false := by
      apply List.any_eq_false.2
      intro token hToken hMarker
      rw [← map_snd_placed offset hidden] at hToken
      obtain ⟨piece, hPiece, rfl⟩ := List.mem_map.1 hToken
      cases hSpans : (placed offset hidden).filterMap (·.2.span?) with
      | cons span spans =>
          rw [hSpans] at hNone
          cases hNone
      | nil =>
          have hSpan := List.filterMap_eq_nil_iff.1 hSpans piece hPiece
          cases hPieceToken : piece.2 with
          | gap g => simp [hPieceToken, span?] at hSpan
          | excerpt e => simp [hPieceToken, isMarker] at hMarker
          | separator s => simp [hPieceToken, isMarker] at hMarker
    exact ⟨by simp [allCells], by simp [allCells, hKnown, hNoMarker]⟩

/-- Behind something shown no separator is dormant. -/
theorem active_of_visible {awake : Bool} {token : Token} {rest : List Token}
    (hSettled : Settled awake (token :: rest)) (hVisible : token.isVisible = true) :
    ∀ s, .separator s ∈ token :: rest → s.active = true := by
  intro s hs
  obtain ⟨before, after, hEq⟩ := List.append_of_mem hs
  have hActive := settled_iff.1 hSettled before s after hEq
  cases before with
  | nil =>
      obtain ⟨rfl, -⟩ := List.cons.inj hEq
      cases h : s.active with
      | true => rfl
      | false => simp [isVisible, shown, h] at hVisible
  | cons first before =>
      obtain ⟨rfl, -⟩ := List.cons.inj hEq
      cases token with
      | excerpt e => simpa [wakes] using hActive
      | gap g => cases hVisible
      | separator other =>
          have hAwake : other.active = awake := hSettled.1
          cases h : other.active with
          | true => simpa [← hAwake, h] using hActive
          | false => simp [isVisible, shown, h] at hVisible

/-- A sweep leaves the cells that the exclusions leave, where markers that meet are one. -/
theorem collapse_sweep {exclusions : List Exclusion} {passed : List Piece} {offset : Nat}
    {awake : Bool} {tokens swept : List Token} (hNarrow : ∀ token ∈ tokens, token.width ≤ 1)
    (hSettled : Settled awake tokens) (hActive : ∀ e ∈ exclusions, e.isActive = true)
    (hOrder : exclusions.Pairwise (fun a b => a.stop ≤ b.start))
    (hStart : ∀ e ∈ exclusions, offset ≤ e.start)
    (hStop : ∀ e ∈ exclusions, e.stop ≤ offset + totalWidth tokens)
    (h : sweep passed (placed offset tokens) exclusions = .ok swept) :
    Cell.collapse (allCells swept) =
      Cell.collapse (edited exclusions (exclusions.filter (·.unknown))
        ((placed offset tokens).flatMap cellsAt)) := by
  induction exclusions generalizing passed offset awake tokens swept with
  | nil =>
      cases h
      rw [List.filter_nil, edited_nil, map_snd_flatMap_cellsAt]
  | cons e later ih =>
      simp only [List.mem_cons, forall_eq_or_imp] at hActive hStart hStop
      obtain ⟨hFirst, hLaterOrder⟩ := List.pairwise_cons.1 hOrder
      obtain ⟨before, hidden, after, hParting⟩ := exists_parting hNarrow hStart.1 hStop.1
      obtain ⟨gaps, rest, hGaps, hRest, rfl⟩ := sweep_cons_eq_ok_iff.1 h
      rw [hParting.front_eq, hParting.covered_eq, hParting.behind_eq] at hGaps hRest
      rw [hParting.front_eq, map_snd_placed]
      have hWhole := hParting.whole
      have hParts : Settled awake before ∧ Settled (awake || before.any wakes) (hidden ++ after) := by
        rw [hWhole, List.append_assoc] at hSettled
        exact settled_append.1 hSettled
      have hAwake (s : Separator) (hs : .separator s ∈ hidden) : s.active = true := by
        cases hCaret : e.isCaret with
        | true =>
            rw [hParting.hidden_of_isCaret hCaret] at hs
            cases hs
        | false =>
            obtain ⟨token, others, rfl, hVisible⟩ := hParting.first hCaret
            exact active_of_visible (settled_append.1 hParts.2).1 hVisible s hs
      obtain ⟨markers, hMarkers, hEmpty, hEdited⟩ :=
        exists_markers hParting hNarrow hFirst hAwake
      obtain ⟨hGapMarkers, hGapEmpty⟩ := cells_substitute hActive.1 hGaps
      have hAfterNarrow := (hParting.narrow hNarrow).2.2
      have hWidth : offset + totalWidth tokens = e.stop + totalWidth after := by
        rw [hWhole, totalWidth_append, totalWidth_append, ← hParting.stop, ← hParting.start]
        omega
      have hLater := ih hAfterNarrow (settled_append.1 hParts.2).2 hActive.2 hLaterOrder hFirst
        (by rw [← hWidth]; exact hStop.2) hRest
      rw [hEdited, allCells_append, allCells_append, List.append_assoc]
      apply Cell.collapse_append_congr _
      exact Cell.collapse_markers_congr hGapMarkers hMarkers (hGapEmpty.trans hEmpty.symm) hLater

end Exclusion
namespace View
open Token

theorem edited_active (exclusions : List Exclusion) (cells : List (Nat × Cell)) :
    Exclusion.edited (exclusions.filter Exclusion.isActive)
        ((exclusions.filter Exclusion.isActive).filter (·.unknown)) cells =
      Exclusion.edited exclusions (exclusions.filter (·.unknown)) cells := by
  have hPending : (exclusions.filter Exclusion.isActive).filter (·.unknown) =
      exclusions.filter (·.unknown) := by
    rw [List.filter_filter]
    apply List.filter_congr
    intro e _
    cases hUnknown : e.unknown <;> simp [Exclusion.isActive, hUnknown]
  rw [hPending]
  refine Exclusion.edited_congr (fun cell _ => ?_) _
  rw [List.any_filter]
  apply List.any_congr rfl
  intro e
  cases hActive : e.isActive with
  | true => rfl
  | false =>
      have hEmpty : e.stop ≤ e.start := by
        simp only [Exclusion.isActive, Bool.or_eq_false_iff, Bool.not_eq_false',
          Range.isCaret_iff] at hActive
        exact hActive.2
      have hNone : e.deletes cell = false := by
        simp only [Exclusion.deletes, Bool.and_eq_false_iff, decide_eq_false_iff_not]
        omega
      rw [hNone]
      rfl

/-- The cells of what exclusions make of a view, once the sweep has come to an end. -/
theorem allCells_of_sweep {view : View} {exclusions : List Exclusion} {swept : List Token}
    (hValid : Exclusion.validate exclusions view.length = .ok ())
    (hSwept : Exclusion.sweep [] (placed 0 (atomize view.tokens))
      (exclusions.filter Exclusion.isActive) = .ok swept) :
    allCells (normalize swept) = Cell.awaken false (Cell.collapse
      (Exclusion.edited exclusions (exclusions.filter (·.unknown)) (placedCells view.tokens))) := by
  obtain ⟨hOrder, hStops⟩ := Exclusion.validate_eq_ok_iff.1 hValid
  have hSettled : Settled false (atomize view.tokens) := by
    rw [← settle_of_settled view.canonical.settled, ← settle_atomize false view.canonical.shows]
    exact settled_settle false _
  have hStop (e : Exclusion) (he : e ∈ exclusions.filter Exclusion.isActive) :
      e.stop ≤ 0 + totalWidth (atomize view.tokens) := by
    rw [Nat.zero_add, totalWidth_atomize, ← length_shownText]
    exact hStops e (List.mem_filter.1 he).1
  have hCells := Exclusion.collapse_sweep (fun token hToken => (mem_atomize hToken).2.1) hSettled
    (fun e he => (List.mem_filter.1 he).2) (hOrder.filter _) (fun e _ => Nat.zero_le _) hStop hSwept
  rw [edited_active] at hCells
  rw [allCells_normalize, hCells]
  have hPlaced := placedCells_atomize view.tokens
  rw [placedCells] at hPlaced
  rw [hPlaced]

/-- Without source material nothing is shown. -/
theorem length_of_unrooted {view : View} (h : ∀ token ∈ view.tokens, token.span? = none) :
    view.length = 0 := by
  rw [length_eq_totalWidth]
  apply totalWidth_of_settled view.canonical.settled
  intro token hToken
  have hSpan := h token hToken
  cases token with
  | separator s => rfl
  | excerpt e => cases hSpan
  | gap g => cases hSpan

/-- A view without source material shows nothing, so valid exclusions of it have empty ranges. -/
theorem isCaret_of_unrooted {view : View} {exclusions : List Exclusion}
    (hValid : Exclusion.validate exclusions view.length = .ok ())
    (hUnrooted : ∀ token ∈ view.tokens, token.span? = none) :
    ∀ e ∈ exclusions, e.isCaret = true := by
  intro e he
  have hStop := (Exclusion.validate_eq_ok_iff.1 hValid).2 e he
  rw [length_of_unrooted hUnrooted] at hStop
  apply Range.isCaret_iff.2
  omega

/-- Where there is no source material, only marking changes anything. -/
theorem filter_isActive_of_unrooted {view : View} {exclusions : List Exclusion}
    (hValid : Exclusion.validate exclusions view.length = .ok ())
    (hUnrooted : ¬ ∃ token ∈ view.tokens, token.span?.isSome = true)
    (hKnown : ∀ e ∈ exclusions, e.unknown = false) : exclusions.filter Exclusion.isActive = [] := by
  have hNone : ∀ token ∈ view.tokens, token.span? = none := by simpa using hUnrooted
  exact Exclusion.filter_isActive_eq_nil hKnown (isCaret_of_unrooted hValid hNone)

/-- Dividing tokens brings up no source material. -/
theorem span?_of_unrooted {tokens : List Token} (h : ∀ token ∈ tokens, token.span? = none) :
    ∀ piece ∈ placed 0 (atomize tokens), piece.2.span? = none := by
  intro piece hPiece
  have hAtom := mem_of_mem_placed hPiece
  cases hSpan : piece.2.span? with
  | none => rfl
  | some span =>
      obtain ⟨token, hToken, -, hSome⟩ :=
        rooted_atomize.1 ⟨piece.2, hAtom, (mem_atomize hAtom).1, by rw [hSpan]; rfl⟩
      rw [h token hToken] at hSome
      cases hSome

/-- Without source material a marker has no place. -/
theorem sweep_of_unrooted {e : Exclusion} (hCaret : e.isCaret = true) (later : List Exclusion)
    {pieces : List Piece} (h : ∀ piece ∈ pieces, piece.2.span? = none) :
    Exclusion.sweep [] pieces (e :: later) = .error .noAnchor := by
  have hWhole := e.front_append_covered_append_behind pieces
  have hLeft : (e.front pieces).reverse.findSome? (·.2.span?) = none := by
    apply List.findSome?_eq_none_iff.2
    intro piece hPiece
    apply h
    rw [← hWhole]
    simp [List.mem_reverse.1 hPiece]
  have hRight : (e.covered pieces ++ e.behind pieces).findSome? (·.2.span?) = none := by
    apply List.findSome?_eq_none_iff.2
    intro piece hPiece
    apply h
    rw [← hWhole, List.append_assoc]
    exact List.mem_append_right _ hPiece
  rw [Exclusion.sweep_cons, Exclusion.substitute, hCaret, List.append_nil, Exclusion.markerAnchor_eq,
    hLeft, hRight]
  rfl

/-- Where there is no source material, an exclusion that marks fails for want of an anchor. -/
theorem excludeAll_of_unrooted {view : View} {exclusions : List Exclusion}
    (hValid : Exclusion.validate exclusions view.length = .ok ())
    (hUnrooted : ∀ token ∈ view.tokens, token.span? = none)
    (hUnknown : ∃ e ∈ exclusions, e.unknown = true) :
    view.excludeAll exclusions = .error .noAnchor := by
  have hSwept : Exclusion.sweep [] (placed 0 (atomize view.tokens))
      (exclusions.filter Exclusion.isActive) = .error .noAnchor := by
    cases hActive : exclusions.filter Exclusion.isActive with
    | nil =>
        obtain ⟨e, he, hMarks⟩ := hUnknown
        have hInactive := List.filter_eq_nil_iff.1 hActive e he
        simp [Exclusion.isActive, hMarks] at hInactive
    | cons e later =>
        have hMem : e ∈ exclusions.filter Exclusion.isActive := hActive ▸ List.mem_cons_self
        have hCaret := isCaret_of_unrooted hValid hUnrooted e (List.mem_filter.1 hMem).1
        exact sweep_of_unrooted hCaret later (span?_of_unrooted hUnrooted)
  unfold excludeAll
  rw [hValid, Exclusion.applyAll_of_canonical view.canonical, hSwept]
  rfl

/-- Valid exclusions leave exactly the cells that they do not delete, and a marker for each of them
that asks for one; markers that meet are one, and the separators wake up or fall asleep with what
then precedes them. Only where there is no source material at all is there no place for a marker. -/
theorem cells_excludeAll {view : View} {exclusions : List Exclusion}
    (hValid : Exclusion.validate exclusions view.length = .ok ()) :
    ((∃ token ∈ view.tokens, token.span?.isSome = true) ∨ (∀ e ∈ exclusions, e.unknown = false) →
      ∃ after, view.excludeAll exclusions = .ok after ∧
        allCells after.tokens = Cell.awaken false (Cell.collapse (Exclusion.edited exclusions
          (exclusions.filter (·.unknown)) (placedCells view.tokens)))) ∧
    ((∀ token ∈ view.tokens, token.span? = none) → (∃ e ∈ exclusions, e.unknown = true) →
      view.excludeAll exclusions = .error .noAnchor) := by
  constructor
  · intro hPossible
    by_cases hRooted : ∃ token ∈ view.tokens, token.span?.isSome = true
    · obtain ⟨swept, after, hSwept, -, hAfter, -, -, hTokens⟩ :=
        exists_excludeAll (rooted_iff.2 hRooted) hValid
      exact ⟨after, hAfter, by rw [hTokens, allCells_of_sweep hValid hSwept]⟩
    · have hKnown := hPossible.resolve_left hRooted
      have hInactive := filter_isActive_of_unrooted hValid hRooted hKnown
      have hSwept : Exclusion.sweep [] (placed 0 (atomize view.tokens))
          (exclusions.filter Exclusion.isActive) = .ok (atomize view.tokens) := by
        rw [hInactive, Exclusion.sweep, map_snd_placed]
      refine ⟨view, excludeAll_of_inactive hValid hInactive, ?_⟩
      rw [← allCells_of_sweep hValid hSwept, normalize_atomize, normalize_of_canonical view.canonical]
  · exact excludeAll_of_unrooted hValid

/-- A separator falls asleep when the only character in front of it is hidden. -/
theorem cells_excludeAll_of_joined :
    ∃ part view, View.ofSource ⟨"doc", ['a']⟩ .plainText = .ok part ∧
      View.joinWithBlank [part, part] = .ok (some view) ∧
      ∃ after, view.excludeAll [⟨⟨0, 1, by decide⟩, false⟩, ⟨⟨3, 3, by decide⟩, true⟩] = .ok after ∧
        allCells after.tokens = [.separator ' ' false, .char 0 'a', .marker] := by
  refine ⟨_, _, rfl, rfl, ?_⟩
  refine Exists.imp (fun after h => ⟨h.1, h.2.trans ?hCells⟩) ((cells_excludeAll ?hValid).1 (.inl ?hRooted))
  case hValid => rfl
  case hRooted => exact ⟨_, List.mem_cons_self, rfl⟩
  case hCells => rfl

/-- An empty excerpt names a source but is dropped, and then a marker finds no place. -/
theorem no_place_for_marker :
    ∃ view, View.ofTokens .plainText [.excerpt ⟨⟨⟨0, 0, by decide⟩, "doc"⟩, [], rfl⟩] = .ok view ∧
      Exclusion.validate [⟨⟨0, 0, by decide⟩, true⟩] view.length = .ok () ∧
      view.excludeAll [⟨⟨0, 0, by decide⟩, true⟩] = .error .noAnchor :=
  ⟨_, rfl, rfl, rfl⟩

end View
end SourceView
