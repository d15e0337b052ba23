import SourceView.Exclusion.Sweep
import SourceView.View

/-! Hiding parts of a view. The result is a new view of the same source, in which the hidden
characters have become gaps. -/
namespace SourceView.View

/-- Applies exclusions, which have to be in order, apart from each other and within the shown text.
They are all checked before anything is done. -/
def excludeAll (view : View) (exclusions : List Exclusion) : Except Fault View := do
  Exclusion.validate exclusions view.length
  let tokens ← Exclusion.applyAll view.tokens exclusions
  if tokens = view.tokens then return view
  ofTokens view.domain tokens

/-- The view without the characters of a range. -/
def hide (view : View) (wanted : Loose) : Except Fault View := do
  view.excludeAll [← Exclusion.hide wanted]

/-- The view with an unknown marker in place of the characters of a range. -/
def mark (view : View) (wanted : Loose) : Except Fault View := do
  view.excludeAll [← Exclusion.mark wanted]

def leadingBlank (text : List Char) : Exclusion :=
  { start := 0, stop := text.length - (Text.trimStart text).length, unknown := false }

def trailingBlank (text : List Char) : Exclusion :=
  { start := (Text.trimEnd text).length, stop := text.length, unknown := false
    ordered := Text.length_trimEnd_le text }

/-- The view without white space at either end of the shown text. -/
def trim (view : View) : Except Fault View :=
  if (Text.trim view.text).isEmpty then
    view.hide (.range { start := 0, stop := view.length })
  else view.excludeAll [leadingBlank view.text, trailingBlank view.text]

end SourceView.View
