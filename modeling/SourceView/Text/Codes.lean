/-! Sets of code points given as closed intervals. The membership test stops at the first interval
that starts behind the code point, so an interval list has to be sorted; a code point covered by
an interval that stands out of order may be missed. -/
namespace SourceView.Text

/-- Closed intervals of code points, sorted and pairwise disjoint. -/
abbrev Codes := List (Nat × Nat)

namespace Codes

def contains : Codes → Nat → Bool
  | [], _ => false
  | (low, high) :: rest, n =>
    if n < low then false else n ≤ high || contains rest n

/-- The distance of `n` from the start of the interval that holds it. -/
def offset? : Codes → Nat → Option Nat
  | [], _ => none
  | (low, high) :: rest, n =>
    if n < low then none else if n ≤ high then some (n - low) else offset? rest n

/-- A code point has a distance exactly when it is in the set. -/
theorem isSome_offset? (codes : Codes) (n : Nat) :
    (codes.offset? n).isSome = codes.contains n := by
  induction codes with
  | nil => rfl
  | cons interval rest ih =>
    obtain ⟨low, high⟩ := interval
    by_cases hLow : n < low
    · simp [offset?, contains, hLow]
    · by_cases hHigh : n ≤ high <;> simp [offset?, contains, hLow, hHigh, ih]

end Codes
end SourceView.Text
