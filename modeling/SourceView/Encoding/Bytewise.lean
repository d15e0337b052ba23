import SourceView.Encoding.Decoded

/-! Encodings with one byte for each character: ASCII, which knows only the lower half of the bytes,
and Latin-1, in which every byte is the code point of its character. -/
namespace SourceView.Encoding

/-- The character whose code point is the value of a byte. -/
def charOfByte (byte : UInt8) : Char := Char.ofNat byte.toNat

def decodeAscii (position : Nat) : List UInt8 → List Decoded
  | [] => []
  | byte :: rest =>
    (if byte.toNat < 128 then .char (charOfByte byte) else .malformed position)
      :: decodeAscii (position + 1) rest

/-- Decodes Latin-1, which has no malformed bytes. -/
def decodeLatin1 (bytes : List UInt8) : List Decoded :=
  bytes.map fun byte => .char (charOfByte byte)

end SourceView.Encoding
