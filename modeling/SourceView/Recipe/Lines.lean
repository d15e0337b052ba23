import SourceView.Exclusion

/-! Lines of a text, and the runs of certain characters at their beginnings and ends. Lines are
divided by line feeds, which belong to no line, so no run ever holds one. -/
namespace SourceView.Recipe

/-- The lines of a text with the offsets at which they begin, the text beginning at `offset`. There
is one line more than there are line feeds. -/
def linesFrom (offset : Nat) : List Char → List (Nat × List Char)
  | [] => [(offset, [])]
  | c :: rest =>
    if c = '\n' then (offset, []) :: linesFrom (offset + 1) rest
    else
      match linesFrom (offset + 1) rest with
      | (_, line) :: more => (offset, c :: line) :: more
      | [] => [(offset, [c])]

/-- How many characters at the beginning of a line are among the given ones. -/
def indentWidth (chars line : List Char) : Nat := (line.takeWhile chars.contains).length

/-- How many characters at the end of a line are among the given ones. -/
def suffixWidth (chars line : List Char) : Nat := indentWidth chars line.reverse

/-- The exclusion of a number of characters, if there are any. -/
def run? (start width : Nat) : Option Exclusion :=
  if width = 0 then none else some { start := start, stop := start + width, unknown := false }

def indentRuns (chars text : List Char) : List Exclusion :=
  (linesFrom 0 text).filterMap fun (start, line) => run? start (indentWidth chars line)

def suffixRuns (chars text : List Char) : List Exclusion :=
  (linesFrom 0 text).filterMap fun (start, line) =>
    run? (start + line.length - suffixWidth chars line) (suffixWidth chars line)

end SourceView.Recipe
