import SourceView.Text.Blank
import SourceView.Text.Digit

/-! Written integers. A numeral has padding on either side, at most one sign, and decimal digits
with single underscores allowed between them. -/
namespace SourceView.Text

/-- The most digits that a numeral may have. Underscores are not counted, leading zeros are. -/
def maxDigits : Nat := 4300

/-- White space that may stand around a numeral. The information separators may not. -/
def isPadding (c : Char) : Bool := isBlank c && !(0x1C ≤ c.toNat && c.toNat ≤ 0x1F)

/-- The values of the digits, read from the character after a digit or from the start. An
underscore has to stand between two digits. -/
def digitValues? (afterDigit : Bool) : List Char → Option (List Nat)
  | [] => if afterDigit then some [] else none
  | c :: rest =>
    if c == '_' then
      if afterDigit then digitValues? false rest else none
    else
      match digitValue? c with
      | some value => (digitValues? true rest).map (value :: ·)
      | none => none

/-- The number with the given digits, the most significant first. -/
def ofDigits (digits : List Nat) : Nat := digits.foldl (fun total digit => 10 * total + digit) 0

def natural? (text : List Char) : Option Nat :=
  match digitValues? false text with
  | some digits => if digits.length ≤ maxDigits then some (ofDigits digits) else none
  | none => none

def integer? (text : List Char) : Option Int :=
  let bare := ((text.dropWhile isPadding).reverse.dropWhile isPadding).reverse
  match bare with
  | '-' :: digits => (natural? digits).map fun n => -(n : Int)
  | '+' :: digits => (natural? digits).map fun n => (n : Int)
  | digits => (natural? digits).map fun n => (n : Int)

example : integer? " -1_0\n".toList = some (-10) := by decide
example : integer? "1__0".toList = none := by decide

end SourceView.Text
