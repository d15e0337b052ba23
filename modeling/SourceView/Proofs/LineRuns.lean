import SourceView.Proofs.Passing
import SourceView.Recipe.Lines

/-! Lines and runs. A line is what stands between two line feeds, or between one and an end of the
text. The runs at the beginnings and ends of lines are the longest ones of the given characters there,
as far as there are any. -/
namespace SourceView.Recipe
open Exclusion

def Opens (before : List Char) : Prop := ∀ c ∈ before.getLast?, c = '\n'

def Closes (after : List Char) : Prop := ∀ c ∈ after.head?, c = '\n'

/-- A text is one line, or a line with a line feed and a text behind it. -/
@[elab_as_elim]
theorem induction_on_lines {motive : List Char → Prop} (last : ∀ line, '\n' ∉ line → motive line)
    (next : ∀ line rest, '\n' ∉ line → motive rest → motive (line ++ '\n' :: rest))
    (text : List Char) : motive text := by
  induction hLength : text.length using Nat.strongRecOn generalizing text with
  | ind length ih =>
      by_cases hNewline : '\n' ∈ text
      · obtain ⟨line, rest, rfl, hLine⟩ := List.eq_append_cons_of_mem hNewline
        exact next line rest hLine (ih rest.length (by simp at hLength; omega) rest rfl)
      · exact last text hNewline

theorem linesFrom_of_not_mem {line : List Char} (h : '\n' ∉ line) (offset : Nat) :
    linesFrom offset line = [(offset, line)] := by
  induction line generalizing offset with
  | nil => rfl
  | cons c rest ih =>
      obtain ⟨hFirst, hRest⟩ := not_or.1 (mt List.mem_cons.2 h)
      rw [linesFrom, if_neg (Ne.symm hFirst), ih hRest]

/-- The first line ends at the first line feed, and the others begin behind it. -/
theorem linesFrom_append_newline {line : List Char} (h : '\n' ∉ line) (offset : Nat)
    (rest : List Char) :
    linesFrom offset (line ++ '\n' :: rest) =
      (offset, line) :: linesFrom (offset + line.length + 1) rest := by
  induction line generalizing offset with
  | nil => simp [linesFrom]
  | cons c line ih =>
      obtain ⟨hFirst, hLine⟩ := not_or.1 (mt List.mem_cons.2 h)
      have hNext : offset + 1 + line.length + 1 = offset + (c :: line).length + 1 := by
        simp only [List.length_cons]
        omega
      rw [List.cons_append, linesFrom, if_neg (Ne.symm hFirst), ih hLine, hNext]

/-- What stands in front of the first line feed can be told from the whole. -/
theorem line_of_closes {line after : List Char} (hLine : '\n' ∉ line) (hCloses : Closes after) :
    (line ++ after).takeWhile (· != '\n') = line ∧ (line ++ after).dropWhile (· != '\n') = after := by
  apply takeWhile_of_boundary
  · intro c hc
    simpa using fun hSame : c = '\n' => hLine (hSame ▸ hc)
  · intro c hc
    simpa using hCloses c hc

/-- A text is divided at its first line feed in one way only. -/
theorem eq_of_append_newline {first other rest tail : List Char} (hFirst : '\n' ∉ first)
    (hOther : '\n' ∉ other) (h : first ++ '\n' :: rest = other ++ '\n' :: tail) :
    first = other ∧ rest = tail := by
  obtain ⟨hFront, hBack⟩ := line_of_closes hFirst (by simp [Closes] : Closes ('\n' :: rest))
  obtain ⟨hOtherFront, hOtherBack⟩ :=
    line_of_closes hOther (by simp [Closes] : Closes ('\n' :: tail))
  rw [h, hOtherFront] at hFront
  rw [h, hOtherBack, List.cons.injEq] at hBack
  exact ⟨hFront.symm, hBack.2.symm⟩

/-- In front of the first line there is nothing without a line feed. -/
theorem Opens.eq_nil {before : List Char} (h : Opens before) (hNone : '\n' ∉ before) : before = [] := by
  cases hLast : before.getLast? with
  | none => exact List.getLast?_eq_none_iff.1 hLast
  | some last => exact absurd (h last hLast ▸ List.mem_of_getLast? hLast) hNone

/-- Behind the last line there is nothing without a line feed. -/
theorem Closes.eq_nil {after : List Char} (h : Closes after) (hNone : '\n' ∉ after) : after = [] := by
  cases hFirst : after.head? with
  | none => exact List.head?_eq_none_iff.1 hFirst
  | some first => exact absurd (h first hFirst ▸ List.mem_of_head? hFirst) hNone

/-- Where a line begins is not decided by what stands in front of an earlier line feed. -/
theorem opens_append_newline {first before : List Char} :
    Opens (first ++ '\n' :: before) ↔ Opens before := by
  rcases before.eq_nil_or_concat with rfl | ⟨front, last, rfl⟩
  · simp [Opens]
  · have hLast : (first ++ '\n' :: front.concat last).getLast? = some last := by
      rw [List.concat_eq_append, ← List.cons_append, ← List.append_assoc, List.getLast?_concat]
    rw [Opens, Opens, hLast, List.concat_eq_append, List.getLast?_concat]

/-- The lines of a text are its stretches without line feeds that begin and end at one or at an end of
the text. -/
theorem mem_linesFrom_iff {offset start : Nat} {line text : List Char} :
    (start, line) ∈ linesFrom offset text ↔ ∃ before after, text = before ++ (line ++ after) ∧
      start = offset + before.length ∧ Opens before ∧ '\n' ∉ line ∧ Closes after := by
  induction text using induction_on_lines generalizing offset with
  | last whole hNewline =>
      rw [linesFrom_of_not_mem hNewline, List.mem_singleton, Prod.mk.injEq]
      constructor
      · rintro ⟨rfl, rfl⟩
        exact ⟨[], [], by simp, rfl, by simp [Opens], hNewline, by simp [Closes]⟩
      · rintro ⟨before, after, rfl, rfl, hOpens, hLine, hAfter⟩
        simp only [List.mem_append, not_or] at hNewline
        have hBefore := hOpens.eq_nil hNewline.1
        have hBehind := hAfter.eq_nil hNewline.2.2
        subst hBefore hBehind
        simp
  | next first rest hFirst ih =>
      have hCloses : Closes ('\n' :: rest) := by simp [Closes]
      rw [linesFrom_append_newline hFirst, List.mem_cons, Prod.mk.injEq, ih]
      constructor
      · rintro (⟨rfl, rfl⟩ | ⟨before, after, rfl, rfl, hOpens, hLine, hAfter⟩)
        · exact ⟨[], _, rfl, rfl, by simp [Opens], hFirst, hCloses⟩
        · refine ⟨first ++ '\n' :: before, after, by simp, ?_, opens_append_newline.2 hOpens, hLine,
            hAfter⟩
          simp only [List.length_append, List.length_cons]
          omega
      · rintro ⟨before, after, hText, rfl, hOpens, hLine, hAfter⟩
        by_cases hInside : '\n' ∈ before
        · obtain ⟨other, tail, rfl, hOther⟩ := List.eq_append_cons_of_mem hInside
          rw [List.append_assoc, List.cons_append] at hText
          obtain ⟨rfl, rfl⟩ := eq_of_append_newline hFirst hOther hText
          refine .inr ⟨tail, after, rfl, ?_, opens_append_newline.1 hOpens, hLine, hAfter⟩
          simp only [List.length_append, List.length_cons]
          omega
        · have hBefore := hOpens.eq_nil hInside
          subst hBefore
          rw [List.nil_append] at hText
          have hFront := (line_of_closes hFirst hCloses).1
          rw [hText, (line_of_closes hLine hAfter).1] at hFront
          exact .inl ⟨rfl, hFront⟩

/-- A run is an exclusion of as many characters as it is wide, and there is none without characters. -/
theorem run?_eq_some_iff {start width : Nat} {a : Exclusion} :
    run? start width = some a ↔
      0 < width ∧ a.start = start ∧ a.stop = start + width ∧ a.unknown = false := by
  obtain ⟨⟨first, last, hOrdered⟩, unknown⟩ := a
  unfold run?
  split
  · next hNone => simp [hNone]
  · next hSome =>
      simp only [Option.some.injEq, Exclusion.mk.injEq, Range.mk.injEq, Nat.pos_iff_ne_zero]
      constructor
      · rintro ⟨⟨rfl, rfl⟩, rfl⟩
        exact ⟨hSome, rfl, rfl, rfl⟩
      · rintro ⟨-, rfl, rfl, rfl⟩
        exact ⟨⟨rfl, rfl⟩, rfl⟩

/-- Whether a range is the run of some characters, as long as it can be, at the beginning of a line. -/
def IndentRun (chars text : List Char) (range : Range) : Prop :=
  ∃ before run after, text = before ++ (run ++ after) ∧ range.start = before.length ∧
    range.stop = before.length + run.length ∧ run ≠ [] ∧ Opens before ∧
    (∀ c ∈ run, c ∈ chars ∧ c ≠ '\n') ∧ ∀ c ∈ after.head?, c ∈ chars → c = '\n'

/-- Whether a range is the run of some characters, as long as it can be, at the end of a line. -/
def SuffixRun (chars text : List Char) (range : Range) : Prop :=
  ∃ before run after, text = before ++ (run ++ after) ∧ range.start = before.length ∧
    range.stop = before.length + run.length ∧ run ≠ [] ∧ Closes after ∧
    (∀ c ∈ run, c ∈ chars ∧ c ≠ '\n') ∧ ∀ c ∈ before.getLast?, c ∈ chars → c = '\n'

/-- A stretch of a text that is not empty is a range within it. -/
theorem proper_of_parts {before run after : List Char} {range : Range}
    (hStart : range.start = before.length) (hStop : range.stop = before.length + run.length)
    (hNe : run ≠ []) :
    range.start < range.stop ∧ range.stop ≤ (before ++ (run ++ after)).length := by
  have hPositive := List.length_pos_iff.2 hNe
  simp only [List.length_append]
  omega

theorem IndentRun.proper {chars text : List Char} {range : Range} (h : IndentRun chars text range) :
    range.start < range.stop ∧ range.stop ≤ text.length := by
  obtain ⟨before, run, after, rfl, hStart, hStop, hNe, -⟩ := h
  exact proper_of_parts hStart hStop hNe

theorem SuffixRun.proper {chars text : List Char} {range : Range} (h : SuffixRun chars text range) :
    range.start < range.stop ∧ range.stop ≤ text.length := by
  obtain ⟨before, run, after, rfl, hStart, hStop, hNe, -⟩ := h
  exact proper_of_parts hStart hStop hNe

theorem closes_reverse {before : List Char} : Closes before.reverse ↔ Opens before := by
  rw [Closes, Opens, List.head?_reverse]

variable {chars line run before after text : List Char}

/-- A run that is taken from a line ends where the line does or in front of another character. -/
theorem stops_behind_run (hCloses : Closes after) :
    ∀ c ∈ (line.dropWhile chars.contains ++ after).head?, c ∈ chars → c = '\n' := by
  intro c hc hMember
  cases hRest : line.dropWhile chars.contains with
  | nil => exact hCloses c (by simpa [hRest] using hc)
  | cons first rest =>
      have hFails := List.head?_dropWhile_not chars.contains line
      obtain rfl : first = c := by simpa [hRest] using hc
      simp [hRest, hMember] at hFails

/-- A run consists of the given characters and stays within its line. -/
theorem mem_run (hLine : '\n' ∉ line) {c : Char} (hc : c ∈ line.takeWhile chars.contains) :
    c ∈ chars ∧ c ≠ '\n' := by
  refine ⟨by simpa using List.all_eq_true.1 List.all_takeWhile c hc, ?_⟩
  rintro rfl
  exact hLine ((List.takeWhile_sublist _).mem hc)

/-- What a text ends with can be split off from behind. -/
theorem dropWhile_append_takeWhile_reverse (p : Char → Bool) (text : List Char) :
    (text.reverse.dropWhile p).reverse ++ (text.reverse.takeWhile p).reverse = text := by
  rw [← List.reverse_append, List.takeWhile_append_dropWhile, List.reverse_reverse]

/-- The line that a run begins. -/
theorem line_of_run (hRun : ∀ c ∈ run, c ∈ chars ∧ c ≠ '\n')
    (hStop : ∀ c ∈ after.head?, c ∈ chars → c = '\n') :
    '\n' ∉ run ++ after.takeWhile (· != '\n') ∧ Closes (after.dropWhile (· != '\n')) ∧
      (run ++ after.takeWhile (· != '\n')).takeWhile chars.contains = run := by
  refine ⟨?_, ?_, ?_⟩
  · intro hNewline
    rcases List.mem_append.1 hNewline with hIn | hBehind
    · exact (hRun _ hIn).2 rfl
    · simpa using List.all_eq_true.1 List.all_takeWhile _ hBehind
  · intro c hc
    have hFails := List.head?_dropWhile_not (· != '\n') after
    rw [hc] at hFails
    simpa using hFails
  · refine (takeWhile_of_boundary (fun c hc => by simpa using (hRun c hc).1) ?_).1
    intro c hc
    have hKept := List.mem_of_mem_head? hc
    have hFirst : c ∈ after.head? := by
      cases after with
      | nil => cases hc
      | cons first rest =>
          rw [List.takeWhile_cons] at hc
          split at hc
          · exact hc
          · cases hc
    simpa using fun hMember => by
      have hNewline := List.all_eq_true.1 List.all_takeWhile _ hKept
      simp [hStop c hFirst hMember] at hNewline

/-- The runs that are found at the beginnings of lines are all the longest ones there. -/
theorem mem_indentRuns_iff {a : Exclusion} :
    a ∈ indentRuns chars text ↔ a.unknown = false ∧ IndentRun chars text a.toRange := by
  simp only [indentRuns, List.mem_filterMap, Prod.exists, mem_linesFrom_iff, run?_eq_some_iff,
    Nat.zero_add]
  constructor
  · rintro ⟨_, line, ⟨before, after, rfl, rfl, hOpens, hLine, hCloses⟩, hWidth, hStart, hStop, hKnown⟩
    refine ⟨hKnown, before, line.takeWhile chars.contains, line.dropWhile chars.contains ++ after,
      ?_, hStart, hStop, List.length_pos_iff.1 hWidth, hOpens, fun c hc => mem_run hLine hc,
      stops_behind_run hCloses⟩
    rw [← List.append_assoc (line.takeWhile _), List.takeWhile_append_dropWhile]
  · rintro ⟨hKnown, before, run, after, rfl, hStart, hStop, hNe, hOpens, hRun, hAfter⟩
    obtain ⟨hLine, hCloses, hWidth⟩ := line_of_run hRun hAfter
    refine ⟨before.length, _, ⟨before, _, ?_, rfl, hOpens, hLine, hCloses⟩, ?_, hStart, ?_, hKnown⟩
    · rw [List.append_assoc run, List.takeWhile_append_dropWhile]
    · rw [indentWidth, hWidth]
      exact List.length_pos_iff.2 hNe
    · rw [indentWidth, hWidth, hStop]

/-- The runs that are found at the ends of lines are all the longest ones there. -/
theorem mem_suffixRuns_iff {a : Exclusion} :
    a ∈ suffixRuns chars text ↔ a.unknown = false ∧ SuffixRun chars text a.toRange := by
  simp only [suffixRuns, List.mem_filterMap, Prod.exists, mem_linesFrom_iff, run?_eq_some_iff,
    Nat.zero_add]
  constructor
  · rintro ⟨_, line, ⟨before, after, rfl, rfl, hOpens, hLine, hCloses⟩, hWidth, hStart, hStop, hKnown⟩
    have hParts := dropWhile_append_takeWhile_reverse chars.contains line
    have hLength := congrArg List.length hParts
    have hReverse : '\n' ∉ line.reverse := by rwa [List.mem_reverse]
    simp only [List.length_append, List.length_reverse] at hLength
    simp only [suffixWidth, indentWidth] at hWidth hStart hStop
    refine ⟨hKnown, before ++ (line.reverse.dropWhile chars.contains).reverse,
      (line.reverse.takeWhile chars.contains).reverse, after, ?_, ?_, ?_, ?_, hCloses,
      fun c hc => mem_run hReverse (List.mem_reverse.1 hc), fun c hc => ?_⟩
    · rw [List.append_assoc, ← List.append_assoc (line.reverse.dropWhile _).reverse, hParts]
    · simp only [List.length_append, List.length_reverse]
      omega
    · simp only [List.length_append, List.length_reverse]
      omega
    · rw [Ne, List.reverse_eq_nil_iff]
      exact List.length_pos_iff.1 hWidth
    · apply stops_behind_run (closes_reverse.2 hOpens) c
      rwa [← List.reverse_reverse (line.reverse.dropWhile _), ← List.reverse_append, List.head?_reverse]
  · rintro ⟨hKnown, before, run, after, rfl, hStart, hStop, hNe, hCloses, hRun, hBefore⟩
    have hBackwards : ∀ c ∈ run.reverse, c ∈ chars ∧ c ≠ '\n' :=
      fun c hc => hRun c (List.mem_reverse.1 hc)
    obtain ⟨hLine, hOpens, hWidth⟩ :=
      @line_of_run chars run.reverse before.reverse hBackwards (by rwa [List.head?_reverse])
    have hParts := dropWhile_append_takeWhile_reverse (· != '\n') before
    have hLength := congrArg List.length hParts
    simp only [List.length_append, List.length_reverse] at hLength
    have hReverse : ((before.reverse.takeWhile (· != '\n')).reverse ++ run).reverse =
        run.reverse ++ before.reverse.takeWhile (· != '\n') := by
      rw [List.reverse_append, List.reverse_reverse]
    have hSuffix : suffixWidth chars ((before.reverse.takeWhile (· != '\n')).reverse ++ run) =
        run.length := by
      rw [suffixWidth, indentWidth, hReverse, hWidth, List.length_reverse]
    refine ⟨_, (before.reverse.takeWhile (· != '\n')).reverse ++ run,
      ⟨(before.reverse.dropWhile (· != '\n')).reverse, after, ?_, rfl, ?_, ?_, hCloses⟩, ?_, ?_, ?_,
      hKnown⟩
    · rw [List.append_assoc _ run, ← List.append_assoc _ _ (run ++ after), hParts]
    · rwa [← closes_reverse, List.reverse_reverse]
    · rwa [← List.mem_reverse, hReverse]
    · rw [hSuffix]
      exact List.length_pos_iff.2 hNe
    · rw [hSuffix, List.length_append, List.length_reverse, List.length_reverse]
      omega
    · rw [hSuffix, List.length_append, List.length_reverse, List.length_reverse]
      omega

end SourceView.Recipe
