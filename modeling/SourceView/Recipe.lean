import SourceView.Pattern
import SourceView.Recipe.Lines
import SourceView.View.Hide

/-! Recipes. A recipe tells what to hide when a view is built from a span: matches of patterns,
matches that are to be marked as unknown, and runs of characters at the beginnings and ends of
lines. All of it is looked for in the same text, so no part of a recipe sees what another one hides.
-/
namespace SourceView

/-- What to hide when a view is built. -/
structure Recipe where
  excluded : List Pattern := []
  unknown : List Pattern := []
  indentChars : List Char := []
  suffixChars : List Char := []

namespace Recipe

/-- Hides every match of a pattern as well. -/
def excluding (recipe : Recipe) (pattern : Pattern) : Recipe :=
  { recipe with excluded := recipe.excluded ++ [pattern] }

/-- Marks every match of a pattern as unknown as well. -/
def withUnknown (recipe : Recipe) (pattern : Pattern) : Recipe :=
  { recipe with unknown := recipe.unknown ++ [pattern] }

/-- Hides runs of these characters at the beginnings of lines as well. -/
def removingIndents (recipe : Recipe) (chars : List Char) : Recipe :=
  { recipe with indentChars := recipe.indentChars ++ chars }

/-- Hides runs of these characters at the ends of lines as well. -/
def removingSuffixes (recipe : Recipe) (chars : List Char) : Recipe :=
  { recipe with suffixChars := recipe.suffixChars ++ chars }

def matchExclusions (text : List Char) (unknown : Bool) (pattern : Pattern) : List Exclusion :=
  (pattern.matchesIn text).filterMap fun found =>
    if found.isCaret then none else some { toRange := found.toRange, unknown }

def found (recipe : Recipe) (text : List Char) : List Exclusion :=
  recipe.excluded.flatMap (matchExclusions text false)
    ++ recipe.unknown.flatMap (matchExclusions text true)
    ++ indentRuns recipe.indentChars text
    ++ suffixRuns recipe.suffixChars text

/-- Whether an exclusion comes before another one: it begins earlier, or ends no later where both
begin. -/
def comesFirst (a b : Exclusion) : Bool :=
  a.start < b.start || (a.start == b.start && a.stop ≤ b.stop)

/-- Makes one of two exclusions of which the second does not begin before the first. -/
def unite (a b : Exclusion) : Exclusion :=
  { start := a.start, stop := max a.stop b.stop, unknown := a.unknown || b.unknown
    ordered := by have := a.ordered; omega }

/-- Makes one of those exclusions that share a character, `last` being the one in front. Exclusions
that only touch stay apart. -/
def mergeOnto (last : Exclusion) : List Exclusion → List Exclusion
  | [] => [last]
  | next :: rest =>
    if next.start < last.stop then mergeOnto (unite last next) rest
    else last :: mergeOnto next rest

/-- Sorts exclusions and makes one of those that share a character. -/
def merge (ranges : List Exclusion) : List Exclusion :=
  match ranges.mergeSort comesFirst with
  | [] => []
  | first :: rest => mergeOnto first rest

def exclusions (recipe : Recipe) (text : List Char) : List Exclusion := merge (recipe.found text)

/-- The span to build a view from: the given one, or everything where that is one text. -/
def chosenSpan {α : Type} [Provider α] (provider : α) (span? : Option Span) : Except Fault Span :=
  match span?.or (Provider.whole? provider) with
  | some span => .ok span
  | none => .error .spanRequired

/-- The view of a span without what the recipe hides. -/
def build {α : Type} [Provider α] (recipe : Recipe) (provider : α) (span? : Option Span := none)
    (domain : Domain := .plainText) : Except Fault View := do
  let view ← View.ofSpan provider (← chosenSpan provider span?) domain
  view.excludeAll (recipe.exclusions view.text)

end Recipe
end SourceView
