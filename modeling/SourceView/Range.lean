import SourceView.Fault
import SourceView.Text.Slice

/-! Half-open ranges of character offsets. A range may be empty; it is then a caret, a position
between two characters. -/
namespace SourceView

/-- The offsets from `start` up to and without `stop`. -/
structure Range where
  start : Nat
  stop : Nat
  ordered : start ≤ stop := by omega
  deriving DecidableEq

namespace Range

/-- Integers that are in order still are when they are taken as offsets. -/
theorem toNat_ordered {start stop : Int} (h : ¬ stop < start) : start.toNat ≤ stop.toNat := by
  omega

/-- An endpoint that may still be negative. -/
def checkEndpoint (label : String) (value : Int) : Except Fault Nat :=
  if value < 0 then .error (.endpointNegative label value) else .ok value.toNat

/-- The range between two offsets that are in order. -/
def ofOffsets (start stop : Nat) : Except Fault Range :=
  if h : start ≤ stop then .ok ⟨start, stop, h⟩ else .error (.rangeReversed start stop)

/-- The range between two integers. Each is checked on its own before their order is. -/
def make (start stop : Int) : Except Fault Range := do
  let start ← checkEndpoint "start" start
  let stop ← checkEndpoint "end" stop
  ofOffsets start stop

def length (range : Range) : Nat := range.stop - range.start

def isCaret (range : Range) : Bool := range.start == range.stop

theorem isCaret_iff {range : Range} : range.isCaret = true ↔ range.stop ≤ range.start := by
  have hOrdered := range.ordered
  simp only [isCaret, beq_iff_eq]
  omega

theorem not_isCaret_iff {range : Range} : range.isCaret = false ↔ range.start < range.stop := by
  rw [Bool.eq_false_iff, Ne, isCaret_iff, Nat.not_le]

/-- Both ends in order. -/
def endpoints (range : Range) : List Nat := [range.start, range.stop]

def describe (range : Range) : String := Fault.rangeText range.start range.stop

/-- The first endpoint at 0 and the second at 1. There is no counting from behind. -/
def endpoint (range : Range) (index : Int) : Except Fault Nat :=
  if index = 0 then .ok range.start
  else if index = 1 then .ok range.stop
  else .error .rangePositionOutside

def slice (range : Range) (start? stop? step? : Option Int) : Except Fault (List Nat) :=
  match Text.slice? range.endpoints start? stop? step? with
  | some found => .ok found
  | none => .error .zeroStep

/-- The range moved by `delta` characters. -/
def shift (range : Range) (delta : Int) : Except Fault Range :=
  make (range.start + delta) (range.stop + delta)

/-- Whether an offset is in the range or at its end. -/
def touches (range : Range) (offset : Int) : Bool :=
  range.start ≤ offset && offset ≤ range.stop

/-- Whether the other range lies inside this one. -/
def covers (range other : Range) : Bool :=
  range.start ≤ other.start && other.stop ≤ range.stop

/-- Whether the ranges share a character. Ranges that only touch do not, and carets never do. -/
def meets (range other : Range) : Bool :=
  max range.start other.start < min range.stop other.stop

/-- Two ranges meet exactly when some offset is in both. -/
theorem meets_iff {range other : Range} :
    range.meets other = true ↔ ∃ offset, range.start ≤ offset ∧ offset < range.stop ∧
      other.start ≤ offset ∧ offset < other.stop := by
  simp only [meets, decide_eq_true_eq]
  constructor
  · intro h
    exact ⟨max range.start other.start, by omega⟩
  · rintro ⟨offset, hOffset⟩
    omega

/-- Integers make a range exactly when they are its ends. -/
theorem make_eq_ok_iff {start stop : Int} {range : Range} :
    make start stop = .ok range ↔ start = range.start ∧ stop = range.stop := by
  have hOrdered := range.ordered
  simp only [make, checkEndpoint, ofOffsets, bind, Except.bind]
  split
  · next h =>
    split at h <;> simp_all
    omega
  · next first hFirst =>
    split at hFirst <;> simp_all
    split
    · next h =>
      split at h <;> simp_all
      omega
    · next second hSecond =>
      split at hSecond <;> simp_all
      subst hFirst hSecond
      obtain ⟨rangeStart, rangeStop, _⟩ := range
      simp only at hOrdered
      split <;> simp <;> omega

end Range
end SourceView
