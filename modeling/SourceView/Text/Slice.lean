/-! Positions counted from either end. A negative position counts from the behind, so -1 is the last
item. A single position has to be inside; the bounds of a slice are moved to the nearest
position that is. -/
namespace SourceView.Text

/-- A position counted from the front, when the counted one is inside a list of `length` items. -/
def position? (length : Nat) (index : Int) : Option Nat :=
  let fromFront := if index < 0 then index + length else index
  if 0 ≤ fromFront ∧ fromFront < length then some fromFront.toNat else none

/-- A slice bound counted from the front and moved into `[low, high]`. -/
def clampBound (length : Nat) (low high bound : Int) : Int :=
  let fromFront := if bound < 0 then bound + length else bound
  max low (min high fromFront)

/-- How many positions lie at `first`, `first + step`, and so on, before `last` is reached. -/
def stepCount (first last step : Int) : Nat :=
  if 0 < step then ((last - first + step - 1) / step).toNat
  else ((first - last - step - 1) / (-step)).toNat

/-- The positions of a slice, in its order. A missing bound stands for the end that the step comes
from or goes to. The step zero has no positions. -/
def slicePositions (length : Nat) (start? stop? : Option Int) (step : Int) : List Nat :=
  if step = 0 then []
  else
    let (low, high) : Int × Int := if 0 < step then (0, length) else (-1, (length : Int) - 1)
    let (near, far) := if 0 < step then (low, high) else (high, low)
    let first := (start?.map (clampBound length low high)).getD near
    let last := (stop?.map (clampBound length low high)).getD far
    (List.range (stepCount first last step)).map fun (k : Nat) => (first + k * step).toNat

/-- The items of a slice, or nothing for the step zero. -/
def slice? {α : Type} (items : List α) (start? stop? step? : Option Int) : Option (List α) :=
  let step := step?.getD 1
  if step = 0 then none
  else
    let found := items.toArray
    some ((slicePositions items.length start? stop? step).filterMap (found[·]?))

/-- The items from one position up to another, both possibly counted from behind. -/
def between {α : Type} (items : List α) (start stop : Int) : List α :=
  let low := (clampBound items.length 0 items.length start).toNat
  let high := (clampBound items.length 0 items.length stop).toNat
  (items.take high).drop low

/-- Positions inside a list are counted from the front as they are. -/
theorem between_natCast {α : Type} (items : List α) {start stop : Nat}
    (hStart : start ≤ items.length) (hStop : stop ≤ items.length) :
    between items start stop = (items.take stop).drop start := by
  have clamp : ∀ n : Nat, n ≤ items.length →
      (clampBound items.length 0 items.length n).toNat = n := by
    intro n hn
    simp only [clampBound]
    split <;> omega
  simp [between, clamp start hStart, clamp stop hStop]

end SourceView.Text
