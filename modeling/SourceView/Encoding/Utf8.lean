import SourceView.Encoding.Decoded

/-! UTF-8. A character has one to four bytes, and only the shortest form is well formed. Decoding
takes one byte at a time; a byte that does not continue the character begun before it makes what was
begun malformed and is then taken anew as the first byte of a character. -/
namespace SourceView.Encoding.Utf8

/-- A character whose first bytes have been taken: where it starts, how many bytes are missing, the
bits so far, and the bounds of the next byte. -/
structure Begun where
  start : Nat
  missing : Nat
  bits : Nat
  low : Nat
  high : Nat

/-- What the first byte of a character tells: a whole character, or one that is begun. The bounds of
the second byte keep out longer forms than needed, surrogates and numbers beyond the last
character. -/
inductive Lead
  | whole (c : Char)
  | begun (begun : Begun)
  | none

/-- Takes a byte as the first one of a character. -/
def lead (position byte : Nat) : Lead :=
  if byte < 0x80 then .whole (Char.ofNat byte)
  else if byte < 0xC2 then .none
  else if byte < 0xE0 then .begun ⟨position, 1, byte - 0xC0, 0x80, 0xBF⟩
  else if byte = 0xE0 then .begun ⟨position, 2, 0, 0xA0, 0xBF⟩
  else if byte = 0xED then .begun ⟨position, 2, 0xD, 0x80, 0x9F⟩
  else if byte < 0xF0 then .begun ⟨position, 2, byte - 0xE0, 0x80, 0xBF⟩
  else if byte = 0xF0 then .begun ⟨position, 3, 0, 0x90, 0xBF⟩
  else if byte < 0xF4 then .begun ⟨position, 3, byte - 0xF0, 0x80, 0xBF⟩
  else if byte = 0xF4 then .begun ⟨position, 3, 4, 0x80, 0x8F⟩
  else .none

/-- Decodes bytes from a position on, possibly within a character. -/
def decodeFrom (position : Nat) : Option Begun → List UInt8 → List Decoded
  | none, [] => []
  | some begun, [] => [.malformed begun.start]
  | none, byte :: rest =>
    match lead position byte.toNat with
    | .whole c => .char c :: decodeFrom (position + 1) none rest
    | .begun begun => decodeFrom (position + 1) (some begun) rest
    | .none => .malformed position :: decodeFrom (position + 1) none rest
  | some begun, byte :: rest =>
    if begun.low ≤ byte.toNat ∧ byte.toNat ≤ begun.high then
      let bits := 64 * begun.bits + (byte.toNat - 0x80)
      if begun.missing = 1 then .char (Char.ofNat bits) :: decodeFrom (position + 1) none rest
      else decodeFrom (position + 1)
        (some ⟨begun.start, begun.missing - 1, bits, 0x80, 0xBF⟩) rest
    else
      match lead position byte.toNat with
      | .whole c => .malformed begun.start :: .char c :: decodeFrom (position + 1) none rest
      | .begun next => .malformed begun.start :: decodeFrom (position + 1) (some next) rest
      | .none =>
        .malformed begun.start :: .malformed position :: decodeFrom (position + 1) none rest

def decode (bytes : List UInt8) : List Decoded := decodeFrom 0 none bytes

def encodeChar (c : Char) : List UInt8 :=
  let n := c.toNat
  if n < 0x80 then [.ofNat n]
  else if n < 0x800 then [.ofNat (0xC0 + n / 64), .ofNat (0x80 + n % 64)]
  else if n < 0x10000 then
    [.ofNat (0xE0 + n / 4096), .ofNat (0x80 + n / 64 % 64), .ofNat (0x80 + n % 64)]
  else
    [.ofNat (0xF0 + n / 262144), .ofNat (0x80 + n / 4096 % 64), .ofNat (0x80 + n / 64 % 64),
      .ofNat (0x80 + n % 64)]

def encode (text : List Char) : List UInt8 := text.flatMap encodeChar

end SourceView.Encoding.Utf8
