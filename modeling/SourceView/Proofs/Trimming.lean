import Mathlib.Data.List.DropRight
import SourceView.Proofs.Conceal
import SourceView.Proofs.Uncovered

/-! Trimming. The text between the white space at both ends of a view is a window of its text, and
trimming deletes what is shown outside of it. Whatever takes no room stays. The first character in the
window is not blank, hence no separator, so those behind it stay active, and a separator that is
dormant has nothing in front of it before and after. -/
namespace SourceView

namespace Text

/-- Behind the leading white space stands no blank. -/
theorem isBlank_head_trimStart {text : List Char} {c : Char} (h : (trimStart text).head? = some c) :
    isBlank c = false := by
  have hHead := List.head?_dropWhile_not isBlank text
  rw [show text.dropWhile isBlank = trimStart text from rfl, h] at hHead
  simpa using hHead

/-- Text in front does not matter to the end, unless all of the rest is blank. -/
theorem trimEnd_append {before after : List Char} (h : trimEnd after ≠ []) :
    trimEnd (before ++ after) = before ++ trimEnd after := by
  have hLeft : (after.reverse.dropWhile isBlank).isEmpty = false := by
    simpa [trimEnd] using h
  simp [trimEnd, List.dropWhile_append, hLeft]

/-- A trimmed text has no white space in front. -/
theorem trimStart_trim (text : List Char) : trimStart (trim text) = trim text := by
  refine List.dropWhile_eq_self_iff.2 fun hLength => ?_
  have hPrefix : trim text <+: trimStart text := List.rdropWhile_prefix isBlank _
  rw [hPrefix.getElem]
  exact List.dropWhile_get_zero_not isBlank text (Nat.lt_of_lt_of_le hLength hPrefix.length_le)

theorem trim_trim (text : List Char) : trim (trim text) = trim text := by
  have hEnd : trimEnd (trim text) = trim text := List.rdropWhile_idempotent isBlank _
  rw [trim, trimStart_trim, hEnd]

/-- Where the text between the white space at both ends begins and stops. In a text that is all white
space this is where the text stops. -/
structure Inner (text : List Char) (start stop : Nat) : Prop where
  start_eq : start = (text.takeWhile isBlank).length
  ordered : start ≤ stop
  stop_le : stop ≤ text.length
  trim_eq : trim text = (text.take stop).drop start
  first : start < stop → ∃ c, text[start]? = some c ∧ isBlank c = false

theorem length_trimStart (text : List Char) :
    (text.takeWhile isBlank).length + (trimStart text).length = text.length := by
  rw [trimStart, ← List.length_append, List.takeWhile_append_dropWhile]

/-- A text of white space has nothing between its ends. -/
theorem inner_of_blank {text : List Char} (h : trim text = []) :
    Inner text text.length text.length := by
  have hRest : trimStart text = [] := by
    cases hText : trimStart text with
    | nil => rfl
    | cons c rest =>
        have hBlank := List.rdropWhile_eq_nil_iff.1 h c (by simp [hText])
        rw [isBlank_head_trimStart (by rw [hText]; rfl)] at hBlank
        cases hBlank
  have hLength := length_trimStart text
  rw [hRest, List.length_nil, Nat.add_zero] at hLength
  refine ⟨hLength.symm, Nat.le_refl _, Nat.le_refl _, ?_, fun h => absurd h (Nat.lt_irrefl _)⟩
  rw [h, List.take_length, List.drop_length]

/-- Any other text has its leading white space in front, and stops in front of its trailing one. -/
theorem inner_of_shown {text : List Char} (h : trim text ≠ []) :
    Inner text (text.takeWhile isBlank).length (trimEnd text).length := by
  have hText : text.takeWhile isBlank ++ trimStart text = text := List.takeWhile_append_dropWhile
  have hEnd : trimEnd text = text.takeWhile isBlank ++ trim text := by
    rw [trim, ← trimEnd_append h, hText]
  have hLength : (trimEnd text).length = (text.takeWhile isBlank).length + (trim text).length := by
    rw [hEnd, List.length_append]
  refine ⟨rfl, by omega, length_trimEnd_le text, ?_, fun _ => ?_⟩
  · have hPrefix : trimEnd text <+: text := List.rdropWhile_prefix isBlank _
    rw [← List.prefix_iff_eq_take.1 hPrefix, hEnd, List.drop_left]
  · cases hRest : trimStart text with
    | nil => simp [trim, hRest, trimEnd] at h
    | cons c rest =>
        have hHere : (text.takeWhile isBlank ++ trimStart text)[(text.takeWhile isBlank).length]? =
            some c := by
          rw [List.getElem?_append_right (Nat.le_refl _), Nat.sub_self, hRest]
          rfl
        rw [hText] at hHere
        exact ⟨c, hHere, isBlank_head_trimStart (by rw [hRest]; rfl)⟩

end Text

namespace Cell

def place (offset : Nat) : List Cell → List (Nat × Cell)
  | [] => []
  | cell :: rest => (offset, cell) :: place (offset + cell.shown.length) rest

/-- The cells that stand in a window of the text, with those that take no room wherever they are. -/
def window (start stop offset : Nat) (cells : List Cell) : List Cell :=
  ((place offset cells).filter fun cell =>
    !cell.2.isShown || (start ≤ cell.1 && cell.1 < stop)).map (·.2)

theorem place_append (offset : Nat) (before after : List Cell) :
    place offset (before ++ after) =
      place offset before ++ place (offset + (shownText before).length) after := by
  induction before generalizing offset with
  | nil => rfl
  | cons cell rest ih =>
      rw [List.cons_append, place, ih, place, shownText_cons, List.length_append, Nat.add_assoc,
        List.cons_append]

theorem length_shown (cell : Cell) : cell.shown.length = if cell.isShown then 1 else 0 := by
  cases cell with
  | char position c => rfl
  | marker => rfl
  | separator c active => cases active <;> rfl

/-- A shown cell is in the window when it stands there. -/
theorem window_of_isShown {cell : Cell} (h : cell.isShown = true) (start stop offset : Nat)
    (rest : List Cell) :
    window start stop offset (cell :: rest) =
      (if start ≤ offset ∧ offset < stop then [cell] else []) ++
        window start stop (offset + 1) rest := by
  have hLength : cell.shown.length = 1 := by rw [length_shown, h, if_pos rfl]
  rw [window, place, List.filter_cons, hLength]
  by_cases hWithin : start ≤ offset ∧ offset < stop
  · simp [h, hWithin, window]
  · have hOutside : (!cell.isShown || (decide (start ≤ offset) && decide (offset < stop))) = false := by
      simpa [h] using hWithin
    simp [hOutside, hWithin, window]

theorem window_of_not_isShown {cell : Cell} (h : cell.isShown = false) (start stop offset : Nat)
    (rest : List Cell) :
    window start stop offset (cell :: rest) = cell :: window start stop offset rest := by
  have hLength : cell.shown.length = 0 := by simp [length_shown, h]
  rw [window, place, List.filter_cons, hLength]
  simp [h, window]

theorem shown_of_isShown {cell : Cell} (h : cell.isShown = true) : ∃ c, cell.shown = [c] := by
  rw [← List.length_eq_one_iff, length_shown, h, if_pos rfl]

theorem shown_of_not_isShown {cell : Cell} (h : cell.isShown = false) : cell.shown = [] := by
  rw [← List.length_eq_zero_iff, length_shown, h]
  rfl

/-- The first character of a text is in a part of it that does not begin later and does not stop in
front of it. -/
theorem drop_take_cons (start stop offset : Nat) (c : Char) (rest : List Char) :
    ((c :: rest).take (stop - offset)).drop (start - offset) =
      (if start ≤ offset ∧ offset < stop then [c] else []) ++
        (rest.take (stop - (offset + 1))).drop (start - (offset + 1)) := by
  rcases Nat.lt_or_ge offset stop with hStop | hStop
  · have hTake : stop - offset = stop - (offset + 1) + 1 := by omega
    rw [hTake, List.take_succ_cons]
    rcases Nat.lt_or_ge offset start with hStart | hStart
    · have hDrop : start - offset = start - (offset + 1) + 1 := by omega
      rw [if_neg fun h => Nat.not_lt.2 h.1 hStart, hDrop, List.drop_succ_cons, List.nil_append]
    · have hDrop : start - offset = 0 := Nat.sub_eq_zero_of_le hStart
      have hDropRest : start - (offset + 1) = 0 := by omega
      rw [if_pos ⟨hStart, hStop⟩, hDrop, hDropRest, List.drop_zero, List.drop_zero,
        List.singleton_append]
  · have hTake : stop - offset = 0 := Nat.sub_eq_zero_of_le hStop
    have hTakeRest : stop - (offset + 1) = 0 := by omega
    rw [if_neg fun h => Nat.not_lt.2 hStop h.2, hTake, hTakeRest, List.take_zero, List.take_zero,
      List.drop_nil, List.drop_nil, List.nil_append]

/-- A window shows that part of the text. -/
theorem shownText_window (start stop offset : Nat) (cells : List Cell) :
    shownText (window start stop offset cells) =
      ((shownText cells).take (stop - offset)).drop (start - offset) := by
  induction cells generalizing offset with
  | nil => simp [window, place, shownText]
  | cons cell rest ih =>
      cases hShown : cell.isShown with
      | false =>
          rw [window_of_not_isShown hShown, shownText_cons, shownText_cons, ih,
            shown_of_not_isShown hShown]
          rfl
      | true =>
          obtain ⟨c, hCell⟩ := shown_of_isShown hShown
          rw [window_of_isShown hShown, shownText_append, ih, shownText_cons, hCell,
            List.singleton_append, drop_take_cons]
          congr 1
          split
          · rw [shownText, List.flatMap_singleton, hCell]
          · rfl

/-- A shown cell moves the markers behind it by one. -/
theorem markerOffsets_of_isShown {cell : Cell} (h : cell.isShown = true) (offset : Nat)
    (rest : List Cell) : markerOffsets offset (cell :: rest) = markerOffsets (offset + 1) rest := by
  have hLength : cell.shown.length = 1 := by rw [length_shown, h, if_pos rfl]
  cases cell with
  | char position c => rfl
  | marker => cases h
  | separator c active => rw [markerOffsets, hLength]; simp

/-- Markers in front of the window move to its start, those behind it to its end. -/
theorem markerOffsets_window (start stop offset : Nat) (cells : List Cell) :
    markerOffsets (min offset stop - start) (window start stop offset cells) =
      (markerOffsets offset cells).map fun u => min u stop - start := by
  induction cells generalizing offset with
  | nil => rfl
  | cons cell rest ih =>
      cases hShown : cell.isShown with
      | false =>
          rw [window_of_not_isShown hShown]
          cases cell with
          | char position c => cases hShown
          | marker => rw [markerOffsets, markerOffsets, ih, List.map_cons]
          | separator c active =>
              obtain rfl : active = false := hShown
              exact ih offset
      | true =>
          rw [window_of_isShown hShown, markerOffsets_of_isShown hShown, ← ih]
          by_cases hWithin : start ≤ offset ∧ offset < stop
          · have hNext : min (offset + 1) stop - start = min offset stop - start + 1 := by omega
            rw [if_pos hWithin, List.singleton_append, markerOffsets_of_isShown hShown, hNext]
          · have hSame : min (offset + 1) stop - start = min offset stop - start := by omega
            rw [if_neg hWithin, List.nil_append, hSame]

theorem lt_of_mem_place {offset : Nat} {cells : List Cell} {cell : Nat × Cell}
    (hCell : cell ∈ place offset cells) (hShown : cell.2.isShown = true) :
    cell.1 < offset + (shownText cells).length := by
  induction cells generalizing offset with
  | nil => cases hCell
  | cons first rest ih =>
      rw [shownText_cons, List.length_append]
      rcases List.mem_cons.1 hCell with rfl | hRest
      · rw [length_shown, hShown, if_pos rfl]
        omega
      · have hBefore := ih hRest
        omega

/-- How the cells from an offset on are read in a window that begins with a character that is not
blank. Separators are active as they are when everything is read; `awake` says whether anything
precedes them then, `inside` whether anything in the window does. -/
structure Reading (start stop offset : Nat) (awake inside : Bool) (cells : List Cell) : Prop where
  blank : ∀ c active, separator c active ∈ cells → Text.isBlank c = true
  settled : awaken awake cells = cells
  less : inside = true → awake = true
  past : start < offset → start < stop → inside = true
  first : offset ≤ start → start < stop →
    ∃ c, (shownText cells)[start - offset]? = some c ∧ Text.isBlank c = false

namespace Reading
variable {start stop offset position : Nat} {awake inside : Bool} {c : Char} {cell : Cell}
  {rest : List Cell}

theorem blank_rest (h : Reading start stop offset awake inside (cell :: rest)) :
    ∀ c active, separator c active ∈ rest → Text.isBlank c = true :=
  fun c active hMem => h.blank c active (List.mem_cons_of_mem _ hMem)

/-- A cell that takes no room leaves the first character of the window where it was. -/
theorem first_of_not_isShown (h : Reading start stop offset awake inside (cell :: rest))
    (hShown : cell.isShown = false) : offset ≤ start → start < stop →
      ∃ c, (shownText rest)[start - offset]? = some c ∧ Text.isBlank c = false := by
  have hFirst := h.first
  rwa [shownText_cons, shown_of_not_isShown hShown] at hFirst

/-- A shown cell in front of the window leaves the first character of the window further on. -/
theorem first_of_isShown (h : Reading start stop offset awake inside (cell :: rest))
    (hShown : cell.isShown = true) : offset + 1 ≤ start → start < stop →
      ∃ c, (shownText rest)[start - (offset + 1)]? = some c ∧ Text.isBlank c = false := by
  intro hStart hStop
  obtain ⟨c, hCell⟩ := shown_of_isShown hShown
  have hIndex : start - offset = start - (offset + 1) + 1 := by omega
  have hThere := h.first (by omega) hStop
  rwa [shownText_cons, hCell, hIndex, List.singleton_append, List.getElem?_cons_succ] at hThere

/-- Behind a marker separators are active, whatever is left out. -/
theorem of_marker (h : Reading start stop offset awake inside (marker :: rest)) :
    Reading start stop offset true true rest :=
  ⟨h.blank_rest, (List.cons.inj h.settled).2, fun _ => rfl, fun _ _ => rfl, h.first_of_not_isShown rfl⟩

/-- A dormant separator has nothing in front of it, in the window neither. -/
theorem of_dormant (h : Reading start stop offset awake inside (separator c false :: rest)) :
    inside = false ∧ Reading start stop offset awake inside rest := by
  obtain ⟨hHere, hRest⟩ := List.cons.inj h.settled
  obtain rfl : awake = false := (separator.inj hHere).2
  refine ⟨?_, h.blank_rest, hRest, h.less, h.past, h.first_of_not_isShown rfl⟩
  cases inside with
  | false => rfl
  | true => exact (h.less rfl).symm

/-- A character in the window wakes the separators behind it, and one in front of the window does so
only in the whole text. -/
theorem of_char (h : Reading start stop offset awake inside (char position c :: rest)) :
    Reading start stop (offset + 1) true (inside || decide (start ≤ offset ∧ offset < stop)) rest := by
  refine ⟨h.blank_rest, (List.cons.inj h.settled).2, fun _ => rfl, ?_, h.first_of_isShown rfl⟩
  intro hStart hStop
  rw [Bool.or_eq_true, decide_eq_true_iff]
  by_cases hBehind : start < offset
  · exact .inl (h.past hBehind hStop)
  · exact .inr (by omega)

/-- The window does not begin with a separator. -/
theorem separator_ne_start (h : Reading start stop offset awake inside (separator c true :: rest)) :
    start < stop → offset ≠ start := by
  rintro hStop rfl
  obtain ⟨first, hThere, hNoBlank⟩ := h.first (Nat.le_refl _) hStop
  rw [Nat.sub_self, shownText_cons] at hThere
  obtain rfl : c = first := by simpa [shown] using hThere
  rw [h.blank c true List.mem_cons_self] at hNoBlank
  cases hNoBlank

/-- An active separator in the window has the first character of it in front. -/
theorem of_active (h : Reading start stop offset awake inside (separator c true :: rest)) :
    (start ≤ offset → offset < stop → inside = true) ∧
      Reading start stop (offset + 1) true inside rest := by
  obtain ⟨hHere, hRest⟩ := List.cons.inj h.settled
  obtain rfl : awake = true := (separator.inj hHere).2
  have hPast (hStart : start ≤ offset) (hStop : start < stop) : inside = true :=
    h.past (Nat.lt_of_le_of_ne hStart (h.separator_ne_start hStop).symm) hStop
  refine ⟨fun hStart hStop => hPast hStart (Nat.lt_of_le_of_lt hStart hStop), h.blank_rest, hRest,
    fun _ => rfl, fun hStart => hPast (Nat.le_of_lt_succ hStart), h.first_of_isShown rfl⟩

end Reading

/-- The separators that are left in a window are active where something precedes them. -/
theorem Reading.awaken_window {start stop offset : Nat} {awake inside : Bool} {cells : List Cell}
    (h : Reading start stop offset awake inside cells) :
    awaken inside (window start stop offset cells) = window start stop offset cells := by
  induction cells generalizing offset awake inside with
  | nil => rfl
  | cons cell rest ih =>
      cases cell with
      | marker =>
          rw [window_of_not_isShown rfl, awaken, ih h.of_marker]
      | char position c =>
          have hRest := ih h.of_char
          rw [window_of_isShown rfl]
          by_cases hWithin : start ≤ offset ∧ offset < stop
          · rw [decide_eq_true hWithin, Bool.or_true] at hRest
            rw [if_pos hWithin, List.singleton_append, awaken, hRest]
          · rw [decide_eq_false hWithin, Bool.or_false] at hRest
            rw [if_neg hWithin, List.nil_append, hRest]
      | separator c active =>
          cases active with
          | false =>
              obtain ⟨hInside, hRest⟩ := h.of_dormant
              rw [window_of_not_isShown rfl, awaken, ih hRest, hInside]
          | true =>
              obtain ⟨hInside, hRest⟩ := h.of_active
              rw [window_of_isShown rfl]
              by_cases hWithin : start ≤ offset ∧ offset < stop
              · rw [if_pos hWithin, List.singleton_append, awaken, ih hRest,
                  hInside hWithin.1 hWithin.2]
              · rw [if_neg hWithin, List.nil_append, ih hRest]

end Cell

namespace Token

/-- The characters of a text stand one behind the other. -/
theorem place_chars (position offset : Nat) (text : List Char) :
    Cell.place offset (text.mapIdx fun i c => .char (position + i) c) =
      Exclusion.charCells position offset text := by
  induction text generalizing position offset with
  | nil => rfl
  | cons c rest ih =>
      have hRest := ih (position + 1) (offset + 1)
      simp only [Nat.add_assoc, Nat.add_comm 1] at hRest
      rw [Exclusion.charCells_cons, List.mapIdx_cons, Cell.place, ← hRest]
      rfl

/-- The cells of a token stand one behind the other. -/
theorem cellsAt_eq_place (start : Nat) (token : Token) :
    cellsAt (start, token) = Cell.place start token.cells := by
  cases token with
  | separator s => rfl
  | gap g => cases hUnknown : g.unknown <;> simp [cellsAt, cells, Cell.place, hUnknown]
  | excerpt e =>
      rw [cellsAt_excerpt]
      exact (place_chars e.span.start start e.text).symm

theorem placedCells_eq_place (tokens : List Token) :
    placedCells tokens = Cell.place 0 (allCells tokens) := by
  have hFrom (offset : Nat) :
      (placed offset tokens).flatMap cellsAt = Cell.place offset (allCells tokens) := by
    induction tokens generalizing offset with
    | nil => rfl
    | cons token rest ih =>
        rw [placed, List.flatMap_cons, ih, cellsAt_eq_place, allCells_cons, Cell.place_append,
          shownText_cells]
        rfl
  exact hFrom 0

theorem isBlank_of_mem_allCells {tokens : List Token} {c : Char} {active : Bool}
    (h : Cell.separator c active ∈ allCells tokens) : Text.isBlank c = true := by
  obtain ⟨token, -, hCell⟩ := List.mem_flatMap.1 h
  cases token with
  | gap g => cases hUnknown : g.unknown <;> simp [cells, hUnknown] at hCell
  | separator s =>
      simp only [cells, List.mem_singleton, Cell.separator.injEq] at hCell
      rw [hCell.1]
      exact s.blank
  | excerpt e =>
      obtain ⟨position, other, hChar⟩ := char_of_mem_cells hCell
      cases hChar

end Token

namespace Exclusion

theorem edited_nil_pending (exclusions : List Exclusion) (cells : List (Nat × Cell)) :
    edited exclusions [] cells =
      (cells.filter fun cell => !exclusions.any (·.deletes cell)).map (·.2) := by
  have hWhole := @edited_append exclusions [] cells (by simp) []
  rwa [List.append_nil, edited, List.map_nil, List.append_nil] at hWhole

end Exclusion

namespace View
open Token Exclusion
variable {view : View} {exclusions : List Exclusion} {start stop : Nat}

/-- Exclusions that mark nothing and cover all but a window leave the window. -/
theorem exists_window (hValid : validate exclusions view.length = .ok ())
    (hKnown : ∀ e ∈ exclusions, e.unknown = false)
    (hCovered : ∀ offset < view.length,
      (Covered exclusions offset ↔ ¬ (start ≤ offset ∧ offset < stop)))
    (hFirst : start < stop → ∃ c, view.text[start]? = some c ∧ Text.isBlank c = false) :
    ∃ after, view.excludeAll exclusions = .ok after ∧
      allCells after.tokens = Cell.collapse (Cell.window start stop 0 (allCells view.tokens)) := by
  obtain ⟨after, hAfter, -, -, -, hTokens⟩ := exists_concealed hValid hKnown
  have hSwept := @sweep_eq_conceal [] (placed 0 (atomize view.tokens)) _ (hides_of_active hKnown)
  have hNone : exclusions.filter (·.unknown) = [] :=
    List.filter_eq_nil_iff.2 fun e he => by simp [hKnown e he]
  have hKept : edited exclusions [] (placedCells view.tokens) =
      Cell.window start stop 0 (allCells view.tokens) := by
    rw [edited_nil_pending, placedCells_eq_place, Cell.window]
    refine congrArg _ (List.filter_congr fun cell hCell => ?_)
    rw [any_deletes]
    cases hShown : cell.2.isShown with
    | false => rfl
    | true =>
        have hWithin := Cell.lt_of_mem_place hCell hShown
        rw [Nat.zero_add, ← text_eq_shownText] at hWithin
        rw [Bool.eq_iff_iff]
        simp [hCovered cell.1 hWithin]
  have hSettled : Cell.awaken false (Cell.window start stop 0 (allCells view.tokens)) =
      Cell.window start stop 0 (allCells view.tokens) := by
    have hReading : Cell.Reading start stop 0 false false (allCells view.tokens) := by
      refine ⟨fun c active h => isBlank_of_mem_allCells h, awaken_allCells view, id,
        fun h => absurd h (Nat.not_lt_zero _), fun _ hStop => ?_⟩
      rw [Nat.sub_zero, ← text_eq_shownText]
      exact hFirst hStop
    exact hReading.awaken_window
  refine ⟨after, hAfter, ?_⟩
  rw [hTokens, allCells_of_sweep hValid hSwept, hNone, hKept, Cell.awaken_collapse, hSettled]

/-- Trimming excludes what is not between the white space at both ends of the text. -/
theorem exists_trim_exclusions (view : View) :
    ∃ start stop exclusions, Text.Inner view.text start stop ∧
      view.trim = view.excludeAll exclusions ∧ validate exclusions view.length = .ok () ∧
      (∀ e ∈ exclusions, e.unknown = false) ∧
      ∀ offset < view.length, (Covered exclusions offset ↔ ¬ (start ≤ offset ∧ offset < stop)) := by
  by_cases hText : Text.trim view.text = []
  · refine ⟨_, _, [⟨⟨0, view.length, Nat.zero_le _⟩, false⟩], Text.inner_of_blank hText, ?_, ?_, ?_, ?_⟩
    · rw [View.trim, hText]
      rfl
    · exact validate_eq_ok_iff.2 ⟨by simp, by simp⟩
    · simp
    · intro offset hOffset
      simp only [Covered, List.mem_singleton, exists_eq_left]
      have hLength : view.length = view.text.length := rfl
      omega
  · have hInner := Text.inner_of_shown hText
    have hOrdered := hInner.ordered
    have hLength := Text.length_trimStart view.text
    have hNotEmpty : (Text.trim view.text).isEmpty = false := by simpa using hText
    refine ⟨_, _, [leadingBlank view.text, trailingBlank view.text], hInner, ?_, ?_, ?_, ?_⟩
    · rw [View.trim, hNotEmpty]
      rfl
    · refine validate_eq_ok_iff.2 ⟨?_, ?_⟩
      · simp only [List.pairwise_cons, List.mem_singleton, forall_eq, List.not_mem_nil, false_imp_iff,
          implies_true, List.Pairwise.nil, and_true, leadingBlank, trailingBlank]
        omega
      · simp [leadingBlank, trailingBlank, View.length]
    · simp [leadingBlank, trailingBlank]
    · intro offset hOffset
      have hText : view.length = view.text.length := rfl
      simp only [Covered, List.mem_cons, List.not_mem_nil, or_false, exists_eq_or_imp, exists_eq_left,
        leadingBlank, trailingBlank]
      omega

/-- A view without white space at either end is left as it is. -/
theorem trim_of_trimmed (hText : Text.trim view.text = view.text) : view.trim = .ok view := by
  obtain ⟨start, stop, exclusions, hInner, hTrim, hValid, hKnown, hCovered⟩ :=
    exists_trim_exclusions view
  have hOrdered := hInner.ordered
  have hStop := hInner.stop_le
  have hLength := congrArg List.length (hInner.trim_eq.symm.trans hText)
  rw [List.length_drop, List.length_take] at hLength
  have hCaret (e : Exclusion) (he : e ∈ exclusions) : e.isCaret = true := by
    apply Range.isCaret_iff.2
    apply Nat.le_of_not_lt
    intro hProper
    have hWithin : e.stop ≤ view.text.length := (validate_eq_ok_iff.1 hValid).2 e he
    have hOutside := (hCovered e.start (Nat.lt_of_lt_of_le hProper hWithin)).1
      ⟨e, he, Nat.le_refl _, hProper⟩
    omega
  rw [hTrim]
  exact excludeAll_of_inactive hValid (filter_isActive_eq_nil hKnown hCaret)

/-- What trimming leaves of a view: the text without white space at either end, and every unknown
position, moved to the nearest end where it was in that white space. Nothing is left to trim. -/
structure Trimmed (view after : View) : Prop where
  text_eq : after.text = Text.trim view.text
  ascending : after.unknownOffsets.Pairwise (· < ·)
  mem_unknownOffsets : ∀ offset, offset ∈ after.unknownOffsets ↔ ∃ u ∈ view.unknownOffsets,
    offset = min (u - (view.text.takeWhile Text.isBlank).length) after.length
  again : after.trim = .ok after

/-- Every view can be trimmed. -/
theorem trimmed_trim (view : View) : ∃ after, view.trim = .ok after ∧ Trimmed view after := by
  obtain ⟨start, stop, exclusions, hInner, hTrim, hValid, hKnown, hCovered⟩ :=
    exists_trim_exclusions view
  obtain ⟨after, hAfter, hCells⟩ := exists_window hValid hKnown hCovered hInner.first
  have hText : after.text = Text.trim view.text := by
    rw [text_eq_shownText, hCells, Cell.shownText_collapse, Cell.shownText_window, Nat.sub_zero,
      Nat.sub_zero, ← text_eq_shownText, hInner.trim_eq]
  have hLength : after.length = stop - start := by
    have hStop := hInner.stop_le
    rw [View.length, hText, hInner.trim_eq, List.length_drop, List.length_take, Nat.min_eq_left hStop]
  refine ⟨after, hTrim.trans hAfter, hText, pairwise_unknownOffsets after, fun offset => ?_, ?_⟩
  · have hPlaces := Cell.markerOffsets_window start stop 0 (allCells view.tokens)
    rw [Nat.zero_min, Nat.zero_sub] at hPlaces
    rw [unknownOffsets_eq_markerOffsets, hCells, Cell.mem_markerOffsets_collapse, hPlaces,
      List.mem_map, ← unknownOffsets_eq_markerOffsets, ← hInner.start_eq, hLength]
    refine exists_congr fun u => and_congr_right fun _ => ?_
    omega
  · apply trim_of_trimmed
    rw [hText, Text.trim_trim]

end View
end SourceView
