import SourceView.Text.Aligned
import SourceView.View.Offset

/-! The offset table of a view: its length, its unknown offsets, and a row for every offset with
what is shown there and the source offsets before and behind it. -/
namespace SourceView.Inspect

/-- What stands at an offset: a quoted character, or the end. -/
def shownAt (text : List Char) (offset : Nat) : String :=
  match text[offset]? with
  | some c => Text.quoted (String.singleton c)
  | none => "<end>"

/-- The row of an offset. The source offset behind it is left out where it is the one before. -/
def row (view : View) (offset : Nat) : Except Fault String := do
  let before ← view.sourceOffset offset
  let behind ← view.sourceOffset offset .behind
  return Text.alignedRight 5 (toString offset) ++ " "
    ++ Text.alignedLeft 6 (shownAt view.text offset) ++ " -> " ++ toString before
    ++ (if behind = before then "" else " / " ++ toString behind)

def bracketed (numbers : List Nat) : String :=
  "[" ++ ", ".intercalate (numbers.map toString) ++ "]"

def offsetTable (view : View) : Except Fault (List String) := do
  let rows ← (List.range (view.length + 1)).mapM (row view)
  return ["length: " ++ toString view.length, "unknown: " ++ bracketed view.unknownOffsets] ++ rows

end SourceView.Inspect
