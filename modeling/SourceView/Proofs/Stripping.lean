import Mathlib.Data.List.DropRight
import SourceView.Proofs.Building
import SourceView.Proofs.ShownSource

/-! Stripping lines. What a recipe finds in a line where it looks for indents and suffixes only is the
front and the end of that line, which may lie over each other. So every line is left without its longest
beginning and then without its longest end, and the line feeds between the lines stay. -/
namespace SourceView

namespace Recipe
open Exclusion

/-- What is left of a line without its longest beginning of some characters, and of that without its
longest end of some others. -/
def strippedLine (indent suffix line : List Char) : List Char :=
  (line.dropWhile indent.contains).rdropWhile suffix.contains

def lineRuns (indent suffix : List Char) (start : Nat) (line : List Char) : List Exclusion :=
  (run? start (indentWidth indent line)).toList ++
    (run? (start + line.length - suffixWidth suffix line) (suffixWidth suffix line)).toList

def allLineRuns (indent suffix : List Char) (offset : Nat) (text : List Char) : List Exclusion :=
  (linesFrom offset text).flatMap fun piece => lineRuns indent suffix piece.1 piece.2

variable {indent suffix line rest text : List Char} {start offset position : Nat}

/-- The end of a line is as wide as its longest run of the characters there. -/
theorem suffixWidth_eq (suffix line : List Char) :
    suffixWidth suffix line = (line.rtakeWhile suffix.contains).length := by
  rw [suffixWidth, indentWidth, List.rtakeWhile, List.length_reverse]

theorem suffixWidth_le (suffix line : List Char) : suffixWidth suffix line ≤ line.length := by
  rw [suffixWidth_eq]
  exact (List.rtakeWhile_suffix _ _).length_le

/-- The longest end of a line goes beyond a part of it only where it takes that part whole. -/
theorem suffixWidth_append (front rest : List Char) :
    suffixWidth suffix (front ++ rest) =
      if rest.rdropWhile suffix.contains = [] then rest.length + suffixWidth suffix front
      else suffixWidth suffix rest := by
  have hAll : (rest.reverse.takeWhile suffix.contains).length = rest.reverse.length ↔
      rest.rdropWhile suffix.contains = [] := by
    rw [List.rdropWhile_eq_nil_iff]
    constructor
    · intro hLength c hc
      have hSame := (List.takeWhile_prefix suffix.contains).eq_of_length hLength
      exact List.takeWhile_eq_self_iff.1 hSame c (List.mem_reverse.2 hc)
    · intro hMember
      rw [List.takeWhile_eq_self_iff.2 fun c hc => hMember c (List.mem_reverse.1 hc)]
  simp only [suffixWidth, indentWidth, List.reverse_append, List.takeWhile_append, hAll]
  split
  · rw [List.length_append, List.length_reverse]
  · rfl

/-- A line is what is stripped off in front, what is left, and what is stripped off behind. The longest
end of the line is what is stripped off behind, or it leaves nothing. -/
theorem exists_strippedLine_parts (indent suffix line : List Char) :
    ∃ front back, line = front ++ (strippedLine indent suffix line ++ back) ∧
      front.length = indentWidth indent line ∧ back.length ≤ suffixWidth suffix line ∧
      (strippedLine indent suffix line ≠ [] → back.length = suffixWidth suffix line) := by
  obtain ⟨rest, hRest⟩ : ∃ rest, rest = line.dropWhile indent.contains := ⟨_, rfl⟩
  have hLine : line = line.takeWhile indent.contains ++ rest := by
    rw [hRest, List.takeWhile_append_dropWhile]
  have hWidth := @suffixWidth_append suffix (line.takeWhile indent.contains) rest
  rw [← hLine, suffixWidth_eq suffix rest] at hWidth
  refine ⟨_, rest.rtakeWhile suffix.contains, ?_, rfl, ?_, fun hSome => ?_⟩
  · rw [strippedLine, ← hRest, List.rdropWhile_append_rtakeWhile, ← hLine]
  · have hShort := (List.rtakeWhile_suffix suffix.contains rest).length_le
    split at hWidth <;> omega
  · rw [strippedLine, ← hRest] at hSome
    rw [hWidth, if_neg hSome]

theorem covered_run?_iff {width : Nat} :
    Covered (run? start width).toList position ↔ start ≤ position ∧ position < start + width := by
  unfold run?
  split
  · next hNone =>
      subst hNone
      simp only [Covered, Option.toList_none, List.not_mem_nil, false_and, exists_false, false_iff]
      omega
  · simp [Covered]

/-- The runs of a line lie over its longest beginning and its longest end. -/
theorem covered_lineRuns_iff :
    Covered (lineRuns indent suffix start line) position ↔
      (start ≤ position ∧ position < start + indentWidth indent line) ∨
      (start + line.length ≤ position + suffixWidth suffix line ∧ position < start + line.length) := by
  have hSuffix := suffixWidth_le suffix line
  rw [lineRuns, covered_append_iff, covered_run?_iff, covered_run?_iff]
  omega

/-- The runs of a line leave the stripped line. -/
theorem uncovered_lineRuns (indent suffix : List Char) (start : Nat) (line : List Char) :
    uncovered (lineRuns indent suffix start line) start line = strippedLine indent suffix line := by
  obtain ⟨front, back, hLine, hFront, hShort, hLong⟩ := exists_strippedLine_parts indent suffix line
  have hLength := congrArg List.length hLine
  simp only [List.length_append] at hLength
  have hCovered (position : Nat) := @covered_lineRuns_iff indent suffix line start position
  generalize lineRuns indent suffix start line = runs at hCovered
  rw [hLine, uncovered_append, uncovered_append, ← hLine]
  have hBefore : uncovered runs start front = [] :=
    uncovered_eq_nil fun position _ _ => (hCovered position).2 (by omega)
  have hBehind : uncovered runs
      (start + front.length + (strippedLine indent suffix line).length) back = [] :=
    uncovered_eq_nil fun position _ _ => (hCovered position).2 (by omega)
  have hLeft : uncovered runs (start + front.length) (strippedLine indent suffix line) =
      strippedLine indent suffix line := by
    refine uncovered_eq_self fun position hStart hStop => ?_
    have hWidth := hLong (List.length_pos_iff.1 (by omega))
    rw [hCovered]
    omega
  rw [hBefore, hLeft, hBehind, List.nil_append, List.append_nil]

/-- The runs of a text are those of its first line and those of the rest. -/
theorem allLineRuns_append_newline (hLine : '\n' ∉ line) (rest : List Char) :
    allLineRuns indent suffix offset (line ++ '\n' :: rest) =
      lineRuns indent suffix offset line ++
        allLineRuns indent suffix (offset + line.length + 1) rest := by
  rw [allLineRuns, linesFrom_append_newline hLine, List.flatMap_cons, allLineRuns]

/-- The runs of a line lie within the line. -/
theorem within_of_covered_lineRuns (h : Covered (lineRuns indent suffix start line) position) :
    start ≤ position ∧ position < start + line.length := by
  have hIndent : indentWidth indent line ≤ line.length := (List.takeWhile_prefix _).length_le
  have hSuffix := suffixWidth_le suffix line
  rw [covered_lineRuns_iff] at h
  omega

/-- The runs of a text hold nothing in front of it. -/
theorem le_of_covered_allLineRuns (h : Covered (allLineRuns indent suffix offset text) position) :
    offset ≤ position := by
  induction text using induction_on_lines generalizing offset with
  | last line hLine =>
      rw [allLineRuns, linesFrom_of_not_mem hLine, List.flatMap_singleton] at h
      exact (within_of_covered_lineRuns h).1
  | next line rest hLine ih =>
      rw [allLineRuns_append_newline hLine, covered_append_iff] at h
      rcases h with hFirst | hRest
      · exact (within_of_covered_lineRuns hFirst).1
      · have hBehind := ih hRest
        omega

/-- No run holds the line feed behind a line. -/
theorem not_covered_behind_line (hLine : '\n' ∉ line) (rest : List Char) :
    ¬ Covered (allLineRuns indent suffix offset (line ++ '\n' :: rest)) (offset + line.length) := by
  rw [allLineRuns_append_newline hLine, covered_append_iff]
  rintro (hHere | hLater)
  · have hStop := within_of_covered_lineRuns hHere
    omega
  · have hStart := le_of_covered_allLineRuns hLater
    omega

/-- Of a line behind the first one, what covers it is a run of its own text. -/
theorem covered_rest_iff (hLine : '\n' ∉ line) (hBehind : offset + line.length < position) :
    Covered (allLineRuns indent suffix offset (line ++ '\n' :: rest)) position ↔
      Covered (allLineRuns indent suffix (offset + line.length + 1) rest) position := by
  rw [allLineRuns_append_newline hLine, covered_append_iff]
  refine or_iff_right fun hHere => ?_
  have hStop := within_of_covered_lineRuns hHere
  omega

/-- No run holds a line feed. -/
theorem not_covered_newline {i : Nat} (h : text[i]? = some '\n') :
    ¬ Covered (allLineRuns indent suffix offset text) (offset + i) := by
  induction text using induction_on_lines generalizing offset i with
  | last line hLine => exact absurd (List.mem_of_getElem? h) hLine
  | next line rest hLine ih =>
      rcases Nat.lt_trichotomy i line.length with hFront | rfl | hBehind
      · rw [List.getElem?_append_left hFront] at h
        exact absurd (List.mem_of_getElem? h) hLine
      · exact not_covered_behind_line hLine rest
      · obtain ⟨k, rfl⟩ := Nat.exists_eq_add_of_lt hBehind
        have hIndex : line.length + k + 1 - line.length = k + 1 := by omega
        have hOffset : offset + (line.length + k + 1) = offset + line.length + 1 + k := by omega
        rw [List.getElem?_append_right (Nat.le_of_lt hBehind), hIndex, List.getElem?_cons_succ] at h
        rw [covered_rest_iff hLine (by omega), hOffset]
        exact ih h

/-- The runs of all lines leave the stripped lines and the line feeds between them. -/
theorem uncovered_allLineRuns (indent suffix : List Char) (offset : Nat) (text : List Char) :
    uncovered (allLineRuns indent suffix offset text) offset text =
      ['\n'].intercalate ((text.splitOn '\n').map (strippedLine indent suffix)) := by
  induction text using induction_on_lines generalizing offset with
  | last line hLine =>
      rw [allLineRuns, linesFrom_of_not_mem hLine, List.flatMap_singleton, uncovered_lineRuns,
        List.splitOn_eq_singleton hLine, List.map_singleton, List.intercalate_singleton]
  | next line rest hLine ih =>
      have hFirst : uncovered (allLineRuns indent suffix offset (line ++ '\n' :: rest)) offset line =
          strippedLine indent suffix line := by
        rw [← uncovered_lineRuns indent suffix offset line, allLineRuns_append_newline hLine]
        refine uncovered_congr fun position _ hStop => ?_
        rw [covered_append_iff]
        refine or_iff_left fun hLater => ?_
        have hStart := le_of_covered_allLineRuns hLater
        omega
      have hRest : uncovered (allLineRuns indent suffix offset (line ++ '\n' :: rest))
          (offset + line.length + 1) rest =
          ['\n'].intercalate ((rest.splitOn '\n').map (strippedLine indent suffix)) := by
        rw [← ih]
        exact uncovered_congr fun position hStart _ => covered_rest_iff hLine (by omega)
      rw [uncovered_append, uncovered, if_neg (not_covered_behind_line hLine rest),
        hFirst, hRest,
        List.splitOn_append_cons_self_of_not_mem hLine, List.map_cons,
        List.intercalate_cons_of_ne_nil (by simp), List.append_assoc]

/-- A recipe for indents and suffixes only finds the runs of the lines. -/
theorem mem_found_stripping_iff {a : Exclusion} :
    a ∈ ((({} : Recipe).removingIndents indent).removingSuffixes suffix).found text ↔
      a ∈ allLineRuns indent suffix 0 text := by
  simp [found, removingIndents, removingSuffixes, indentRuns, suffixRuns, allLineRuns, lineRuns,
    List.mem_flatMap, and_or_left, exists_or]

theorem known_of_mem_allLineRuns {a : Exclusion} (h : a ∈ allLineRuns indent suffix offset text) :
    a.unknown = false := by
  simp only [allLineRuns, lineRuns, List.mem_flatMap, List.mem_append, Option.mem_toList,
    run?_eq_some_iff] at h
  obtain ⟨-, -, ⟨-, -, -, hKnown⟩ | ⟨-, -, -, hKnown⟩⟩ := h <;> exact hKnown

end Recipe

namespace View
open Token Exclusion Recipe

/-- Of a view that shows one stretch of a source, exclusions leave those characters that they do not
cover. -/
theorem exists_shown_of_not_covered {view after : View} {exclusions : List Exclusion} {start i : Nat}
    (hRooted : Rooted view.tokens) (hCells : placedCells view.tokens = charCells start 0 view.text)
    (hAfter : view.excludeAll exclusions = .ok after) (hLength : i < view.length)
    (hLeft : ¬ Covered exclusions i) :
    ∃ range ∈ after.shownRanges, range.start ≤ start + i ∧ start + i < range.stop := by
  have hValid := validate_of_excludeAll hAfter
  obtain ⟨swept, same, hSwept, -, hSame, -, -, hTokens⟩ := exists_excludeAll hRooted hValid
  obtain rfl : after = same := Except.ok.inj (hAfter.symm.trans hSame)
  rw [← mem_flatMap_offsets_iff, shownRanges, ← filterMap_position?_allCells, hTokens,
    allCells_of_sweep hValid hSwept, Cell.filterMap_position?_awaken,
    Cell.filterMap_position?_collapse, filterMap_position?_edited, hCells, List.mem_filterMap]
  have hSome : i < view.text.length := hLength
  refine ⟨(i, .char (start + i) view.text[i]), List.mem_filter.2 ⟨?_, ?_⟩, rfl⟩
  · refine List.mem_mapIdx.2 ⟨i, hSome, ?_⟩
    rw [Nat.zero_add]
  · simp [any_deletes_char, hLeft]

/-- A recipe for indents and suffixes only can be followed for every source. The view shows the lines
of the text, each without its longest beginning and then without its longest end of the characters
that were named, and between them all line feeds of the source. Nothing is marked. -/
theorem build_strips (indent suffix : List Char) (source : Source) (domain : Domain) :
    ∃ view, ((({} : Recipe).removingIndents indent).removingSuffixes suffix).build source none domain =
        .ok view ∧
      view.text = ['\n'].intercalate ((source.text.splitOn '\n').map (strippedLine indent suffix)) ∧
      (∀ position, source.text[position]? = some '\n' →
        ∃ range ∈ view.shownRanges, range.start ≤ position ∧ position < range.stop) ∧
      view.unknownOffsets = [] := by
  generalize hRecipe : (({} : Recipe).removingIndents indent).removingSuffixes suffix = recipe
  obtain ⟨whole, hWhole, -, -, hText, hRooted, hCells⟩ :=
    @exists_ofSpan source source.wholeSpan rfl (Nat.le_refl _) domain
  have hAll : whole.text = source.text := hText.trans (by simp [Source.wholeSpan])
  have hFound (a : Exclusion) :
      a ∈ recipe.found whole.text ↔ a ∈ allLineRuns indent suffix 0 whole.text := by
    rw [← hRecipe, mem_found_stripping_iff]
  have hCovered (position : Nat) : Covered (recipe.found whole.text) position ↔
      Covered (allLineRuns indent suffix 0 whole.text) position :=
    ⟨.mono fun a ha => (hFound a).1 ha, .mono fun a ha => (hFound a).2 ha⟩
  have hProper : ∀ a ∈ recipe.found whole.text, a.start < a.stop ∧ a.stop ≤ whole.length :=
    fun _ ha => @proper_of_mem_foundBy Pattern.matchesIn recipe whole.text _ ha
  obtain ⟨view, hView, -, -, hHides⟩ := exists_excludeAll_merge hRooted hCells hProper
  rw [← hAll]
  refine ⟨view, ?_, ?_, fun position hNewline => ?_, ?_⟩
  · have hChosen : Recipe.chosenSpan source none = .ok source.wholeSpan := rfl
    simp only [Recipe.build, hChosen, hWhole, bind, Except.bind]
    exact hView
  · rw [hHides.text_eq, ← uncovered_allLineRuns indent suffix 0]
    exact uncovered_congr fun position _ _ => hCovered position
  · have hLeft : ¬ Covered (Recipe.merge (recipe.found whole.text)) position := by
      rw [(merges_merge fun a ha => (hProper a ha).1).covered_iff, hCovered]
      have hOutside := @not_covered_newline indent suffix whole.text 0 position hNewline
      rwa [Nat.zero_add] at hOutside
    have hLength : position < whole.text.length := (List.getElem?_eq_some_iff.1 hNewline).1
    have hShown := exists_shown_of_not_covered hRooted hCells hView hLength hLeft
    have hStart : source.wholeSpan.start = 0 := rfl
    rwa [hStart, Nat.zero_add] at hShown
  · refine List.eq_nil_iff_forall_not_mem.2 fun offset hOffset => ?_
    obtain ⟨a, ha, hUnknown, -⟩ := (hHides.mem_unknownOffsets offset).1 hOffset
    have hKnown := known_of_mem_allLineRuns ((hFound a).1 ha)
    rw [hKnown] at hUnknown
    cases hUnknown

end View
end SourceView
