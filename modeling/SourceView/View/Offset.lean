import SourceView.Range.Loose
import SourceView.Search
import SourceView.View

/-! Offsets of the shown text and offsets of the source, translated in both directions. Between two
shown characters there may be hidden material; a shown offset then has two source offsets, one
before and one behind it. -/
namespace SourceView

/-- On which side of hidden material an offset is taken to stand. -/
inductive Side
  | before
  | behind
  deriving DecidableEq

namespace View

/-- The source offset that is nearest to a place between two runs of tokens: the end of the last
source material on the left, or else the start of the first on the right. -/
def nearestSourceOffset (left right : List Token) : Except Fault Nat :=
  match left.reverse.findSome? Token.span? with
  | some span => .ok span.stop
  | none =>
    match right.findSome? Token.span? with
    | some span => .ok span.start
    | none => .error .noSourcePosition

/-- The source offset of a shown offset inside an excerpt that begins at `start` and ends behind the
shown offset. -/
def insideExcerpt? (offset start : Nat) : Token → Option Nat
  | .excerpt e =>
    if offset < start + e.text.length then some (e.span.start + (offset - start)) else none
  | _ => none

/-- The source offset in front of hidden material: the end of the excerpt there, or else the start
of the first gap. -/
def offsetBefore? (left? : Option Token) (gaps : List Gap) : Option Nat :=
  match left? with
  | some (.excerpt e) => some e.span.stop
  | _ => gaps.head?.map (·.anchor.start)

/-- The source offset behind hidden material: the start of the excerpt there, or else the end of the
last gap. -/
def offsetBehind? (right? : Option Token) (gaps : List Gap) : Option Nat :=
  match right? with
  | some (.excerpt e) => some e.span.start
  | _ => gaps.getLast?.map (·.anchor.stop)

def gap? : Token → Option Gap
  | .gap g => some g
  | _ => none

/-- The source offset for a boundary between tokens, `left` and `right` being the tokens on either
side. The tokens without width stand at the boundary itself. -/
def boundaryOffset (left right : List Token) (side : Side) : Except Fault Nat :=
  let hidden := right.takeWhile fun token => !token.isVisible
  let shown := right.dropWhile fun token => !token.isVisible
  let gaps := hidden.filterMap gap?
  let before? := offsetBefore? left.getLast? gaps
  let behind? := offsetBehind? shown.head? gaps
  let found? :=
    match side with
    | .before => before?.or behind?
    | .behind => behind?.or before?
  match found? with
  | some offset => .ok offset
  | none => nearestSourceOffset (left ++ hidden) shown

/-- The source offset of a shown offset. The token in question is found by binary search. -/
def sourceOffset (view : View) (offset : Int) (side : Side := .before) : Except Fault Nat := do
  let offset := (← checkOffset offset view.length).toNat
  let starts := (Token.starts view.tokens).toArray
  let index := Search.lowerBound starts offset
  let left := view.tokens.take index
  let inside? := do
    insideExcerpt? offset (← starts[index - 1]?) (← left.getLast?)
  match inside? with
  | some found => return found
  | none => boundaryOffset left (view.tokens.drop index) side

def checkedRange (view : View) (wanted : Loose) : Except Fault Range := do
  let range ← wanted.toRange
  let _ ← checkOffset range.stop view.length "range end"
  return range

/-- The source range of a shown range. It begins behind the material that is hidden in front of the
shown range and ends before that which is hidden at its end. -/
def sourceRange (view : View) (wanted : Loose) : Except Fault Range := do
  let range ← view.checkedRange wanted
  if range.isCaret then
    let offset ← view.sourceOffset range.start
    return { start := offset, stop := offset }
  let start ← view.sourceOffset range.start .behind
  let stop ← view.sourceOffset range.stop
  return { start := min start stop, stop := max start stop }

/-- The shown offset of a source offset that an excerpt touches. -/
def touching? (offset : Int) (piece : Nat × Token) : Option Nat :=
  match piece.2 with
  | .excerpt e =>
    if e.span.touches offset then some (piece.1 + (offset.toNat - e.span.start)) else none
  | _ => none

/-- The shown offset of a source offset, if it is at or in some excerpt. The first one counts. -/
def shownOffset? (view : View) (offset : Int) : Option Nat :=
  (Token.placed 0 view.tokens).findSome? (touching? offset)

/-- The shown range of a source range, if both its ends are shown and in order. -/
def shownRange? (view : View) (wanted : Loose) : Except Fault (Option Range) := do
  let range ← wanted.toRange
  match view.shownOffset? range.start, view.shownOffset? range.stop with
  | some start, some stop =>
    if h : start ≤ stop then return some { start, stop, ordered := h } else return none
  | _, _ => return none

def excerptRange? : Token → Option Range
  | .excerpt e => some e.span.toRange
  | _ => none

/-- The source ranges that are shown, in the order of the view. -/
def shownRanges (view : View) : List Range := view.tokens.filterMap excerptRange?

/-- Whether any character of a source range is shown. -/
def showsAnyOf (view : View) (wanted : Loose) : Except Fault Bool := do
  let range ← wanted.toRange
  return view.shownRanges.any (·.meets range)

end View
end SourceView
