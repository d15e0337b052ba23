import SourceView.Range.Loose

/-! Exclusions: ranges of shown text that are to be hidden. An exclusion can leave an unknown marker
where the text was, and one of an empty range with such a marker hides nothing and only marks. -/
namespace SourceView

/-- A range of shown text to hide; `unknown` tells whether its place is marked. -/
structure Exclusion extends Range where
  unknown : Bool := false
  deriving DecidableEq

namespace Exclusion

/-- The exclusion between two integers. The sign of the start is checked before the order. -/
def make (start stop : Int) (unknown : Bool := false) : Except Fault Exclusion :=
  if start < 0 then .error (.exclusionNegative start)
  else if h : stop < start then .error (.exclusionReversed start stop)
  else .ok { start := start.toNat, stop := stop.toNat, unknown, ordered := Range.toNat_ordered h }

/-- Hides whatever range a value stands for. -/
def hide (wanted : Loose) : Except Fault Exclusion := do
  return { toRange := ← wanted.toRange, unknown := false }

/-- Hides whatever range a value stands for and marks its place. -/
def mark (wanted : Loose) : Except Fault Exclusion := do
  return { toRange := ← wanted.toRange, unknown := true }

/-- Whether an exclusion changes anything: it hides characters or marks a position. -/
def isActive (exclusion : Exclusion) : Bool := exclusion.unknown || !exclusion.isCaret

/-- Checks exclusions that follow one that ends at `previous?`. Each is first held against the
length of the text and then against the one directly before it. -/
def validateFrom (length : Int) : Option Exclusion → List Exclusion → Except Fault Unit
  | _, [] => .ok ()
  | previous?, exclusion :: rest =>
    if length < exclusion.stop then
      .error (.exclusionBeyondText exclusion.start exclusion.stop length)
    else
      match previous? with
      | none => validateFrom length (some exclusion) rest
      | some previous =>
        if exclusion.start < previous.stop then
          .error (.exclusionsOverlap previous.start previous.stop exclusion.start exclusion.stop)
        else validateFrom length (some exclusion) rest

/-- Checks that exclusions lie within a text of the given length, one behind the other. They may
touch, and empty ones may repeat. -/
def validate (exclusions : List Exclusion) (length : Int) : Except Fault Unit :=
  validateFrom length none exclusions

end Exclusion
end SourceView
