/-! Line ends. A line ends with a line feed, a carriage return, or the two together; texts are kept
with line feeds only. -/
namespace SourceView.LineEnd

/-- Makes one line feed of every carriage return that has a line feed behind it, and that line feed.
-/
def joinPairs : List Char → List Char
  | [] => []
  | [c] => [c]
  | c :: d :: rest =>
    if c = '\r' ∧ d = '\n' then '\n' :: joinPairs rest else c :: joinPairs (d :: rest)

def replaceReturns (text : List Char) : List Char :=
  text.map fun c => if c = '\r' then '\n' else c

/-- The text with line feeds for all line ends. -/
def normalize (text : List Char) : List Char := replaceReturns (joinPairs text)

end SourceView.LineEnd
