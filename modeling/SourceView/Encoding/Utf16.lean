import SourceView.Encoding.Decoded

/-! UTF-16. A character has one unit of two bytes, or two units from the ranges of surrogates: a
high one and then a low one. A surrogate without its partner is malformed. -/
namespace SourceView.Encoding

/-- Which byte of a number comes first. -/
inductive ByteOrder
  | little
  | big
  deriving DecidableEq

namespace Utf16

/-- The unit of two bytes. -/
def unit (order : ByteOrder) (first second : UInt8) : Nat :=
  match order with
  | .little => first.toNat + 256 * second.toNat
  | .big => 256 * first.toNat + second.toNat

/-- Whether a unit is the first one of a pair. -/
def isHigh (n : Nat) : Bool := 0xD800 ≤ n && n ≤ 0xDBFF

/-- Whether a unit is the second one of a pair. -/
def isLow (n : Nat) : Bool := 0xDC00 ≤ n && n ≤ 0xDFFF

/-- The character of a pair of units. -/
def ofPair (high low : Nat) : Char := Char.ofNat (0x10000 + 1024 * (high - 0xD800) + (low - 0xDC00))

/-- Decodes bytes from a position on. A last unit that is not whole is malformed together with a
high surrogate in front of it; elsewhere each surrogate without a partner is malformed by itself. -/
def decodeFrom (order : ByteOrder) (position : Nat) : List UInt8 → List Decoded
  | [] => []
  | [_] => [.malformed position]
  | first :: second :: rest =>
    let n := unit order first second
    if isLow n then .malformed position :: decodeFrom order (position + 2) rest
    else if isHigh n then
      match rest with
      | third :: fourth :: more =>
        let m := unit order third fourth
        if isLow m then .char (ofPair n m) :: decodeFrom order (position + 4) more
        else .malformed position :: decodeFrom order (position + 2) (third :: fourth :: more)
      | _ => [.malformed position]
    else .char (Char.ofNat n) :: decodeFrom order (position + 2) rest

def decode (order : ByteOrder) (bytes : List UInt8) : List Decoded := decodeFrom order 0 bytes

/-- Decodes bytes that tell their order by a mark, which is left out. Without a mark the less
significant byte comes first. -/
def decodeMarked (bytes : List UInt8) : List Decoded :=
  match bytes with
  | 0xFF :: 0xFE :: rest => decodeFrom .little 2 rest
  | 0xFE :: 0xFF :: rest => decodeFrom .big 2 rest
  | _ => decodeFrom .little 0 bytes

def encodeUnit (order : ByteOrder) (n : Nat) : List UInt8 :=
  match order with
  | .little => [.ofNat (n % 256), .ofNat (n / 256)]
  | .big => [.ofNat (n / 256), .ofNat (n % 256)]

def encodeChar (order : ByteOrder) (c : Char) : List UInt8 :=
  let n := c.toNat
  if n < 0x10000 then encodeUnit order n
  else
    encodeUnit order (0xD800 + (n - 0x10000) / 1024)
      ++ encodeUnit order (0xDC00 + (n - 0x10000) % 1024)

def encode (order : ByteOrder) (text : List Char) : List UInt8 := text.flatMap (encodeChar order)

end Utf16
end SourceView.Encoding
