import SourceView.Fault
import SourceView.Pattern.Matcher
import SourceView.Pattern.Reader

/-! Patterns that have been read: the written text together with what it describes. -/
namespace SourceView

structure Pattern where
  written : List Char
  root : Pattern.Node

namespace Pattern

def compile (written : List Char) (flags : Flags := {}) : Except Fault Pattern :=
  match read written flags with
  | .ok root => .ok ⟨written, root⟩
  | .error .tooManyRounds => .error .tooManyRounds
  | .error flaw => .error (.invalidPattern (String.ofList written) (flaw.describe written))

/-- The stretches of a text that a pattern describes, from left to right. -/
def matchesIn (pattern : Pattern) (text : List Char) : List (Match text.length) :=
  (allMatches pattern.root text.toArray).map fun found =>
    { toRange := found.toRange, bounded := by simpa using found.bounded }

end Pattern
end SourceView
