import SourceView.Encoding.Utf16

/-! UTF-32. A character has four bytes, which hold its code point as a number. -/
namespace SourceView.Encoding.Utf32

def number (order : ByteOrder) (a b c d : UInt8) : Nat :=
  match order with
  | .little => a.toNat + 256 * b.toNat + 65536 * c.toNat + 16777216 * d.toNat
  | .big => 16777216 * a.toNat + 65536 * b.toNat + 256 * c.toNat + d.toNat

/-- Decodes bytes from a position on. Four bytes that stand for no character are malformed together,
and so are the last bytes when there are fewer than four. -/
def decodeFrom (order : ByteOrder) (position : Nat) : List UInt8 → List Decoded
  | a :: b :: c :: d :: rest =>
    let n := number order a b c d
    if n.isValidChar then .char (Char.ofNat n) :: decodeFrom order (position + 4) rest
    else .malformed position :: decodeFrom order (position + 4) rest
  | [] => []
  | _ => [.malformed position]

def decode (order : ByteOrder) (bytes : List UInt8) : List Decoded := decodeFrom order 0 bytes

def encodeChar (order : ByteOrder) (c : Char) : List UInt8 :=
  let n := c.toNat
  let bytes : List UInt8 :=
    [.ofNat (n % 256), .ofNat (n / 256 % 256), .ofNat (n / 65536 % 256), .ofNat (n / 16777216)]
  match order with
  | .little => bytes
  | .big => bytes.reverse

def encode (order : ByteOrder) (text : List Char) : List UInt8 := text.flatMap (encodeChar order)

end SourceView.Encoding.Utf32
