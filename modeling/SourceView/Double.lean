/-! The exact value of a floating number of 64 bits. A finite number is a whole number of units, and
the unit is a power of two, so its integer part needs no rounding. -/
namespace SourceView

/-- What the bits of a floating number stand for. -/
inductive DoubleValue
  | nan
  | infinite
  /-- The number `significand * 2 ^ exponent`, negated when the sign bit is set. -/
  | finite (negative : Bool) (significand : Nat) (exponent : Int)
  deriving DecidableEq

namespace DoubleValue

/-- The value of 64 bits: one sign bit, eleven of exponent, fifty-two of fraction. -/
def ofBits (bits : Nat) : DoubleValue :=
  let negative := (bits >>> 63) % 2 == 1
  let exponent : Nat := (bits >>> 52) % (1 <<< 11)
  let fraction : Nat := bits % (1 <<< 52)
  if exponent = 2047 then
    if fraction = 0 then infinite else nan
  else if exponent = 0 then finite negative fraction (-1074)
  else finite negative ((1 <<< 52) + fraction) ((exponent : Int) - 1075)

/-- The magnitude rounded towards zero. -/
def wholePart (significand : Nat) : Int → Nat
  | .ofNat exponent => significand <<< exponent
  | .negSucc exponent => significand >>> (exponent + 1)

/-- Whether the magnitude has nothing behind the point. -/
def isWhole (significand : Nat) : Int → Bool
  | .ofNat _ => true
  | .negSucc exponent => significand % (1 <<< (exponent + 1)) == 0

/-- A finite value rounded towards zero. -/
def truncate? : DoubleValue → Option Int
  | finite negative significand exponent =>
    let magnitude : Int := wholePart significand exponent
    some (if negative then -magnitude else magnitude)
  | _ => none

/-- Whether the value is the given integer. Both zeros are the integer zero. -/
def isInteger (value : DoubleValue) (n : Int) : Bool :=
  match value with
  | finite _ significand exponent => isWhole significand exponent && value.truncate? == some n
  | _ => false

example : (ofBits 0xC000CCCCCCCCCCCD).truncate? = some (-2) := by decide
example : (ofBits 0x4008000000000000).isInteger 3 = true := by decide

end DoubleValue

def doubleValue (x : Float) : DoubleValue := .ofBits x.toBits.toNat

/-- The floating number nearest to an integer, unless the integer exceeds them all. -/
def nearestDouble? (n : Int) : Option Float :=
  let magnitude := Float.ofScientific n.natAbs false 0
  if magnitude.isInf then none else some (if n < 0 then -magnitude else magnitude)

end SourceView
