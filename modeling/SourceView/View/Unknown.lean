import SourceView.View.Offset

/-! Unknown positions of a view: whether a range has any, and the text with all of them marked. -/
namespace SourceView.View

/-- Whether something unknown stands in a range or at either end of it. The unknown offsets are in
order and the first that is not in front of the range is found by binary search. -/
def hasUnknownIn (view : View) (wanted : Loose) : Except Fault Bool := do
  let range ← view.checkedRange wanted
  let unknown := view.unknownOffsets.toArray
  match unknown[Search.lowerBound unknown range.start]? with
  | some offset => return decide (offset ≤ range.stop)
  | none => return false

/-- The text from `cursor` on with a marker at each of the given offsets. -/
def renderFrom (text marker : List Char) (cursor : Nat) : List Nat → List Char
  | [] => text.drop cursor
  | offset :: offsets =>
    (text.take offset).drop cursor ++ marker ++ renderFrom text marker offset offsets

def render (view : View) (marker : List Char := ['|']) : List Char :=
  renderFrom view.text marker 0 view.unknownOffsets

end SourceView.View
