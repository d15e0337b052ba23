import SourceView.Encoding

/-! Decoding what was encoded. In UTF-16 and UTF-32 a character is told from its own bytes, whatever
stands behind them, so a text is given back one character at a time. -/
namespace SourceView.Encoding

/-- The code point of a character is not that of a surrogate and not beyond the last character. -/
theorem isValidChar_toNat (c : Char) : c.toNat.isValidChar := c.valid

/-- Where each character is decoded from its bytes, whatever stands behind them, each text is. -/
theorem decodeFrom_flatMap {decodeFrom : Nat → List UInt8 → List Decoded}
    {encodeChar : Char → List UInt8} (hNil : ∀ position, decodeFrom position [] = [])
    (hStep : ∀ position c rest, ∃ next,
      decodeFrom position (encodeChar c ++ rest) = .char c :: decodeFrom next rest)
    (position : Nat) (text : List Char) :
    decodeFrom position (text.flatMap encodeChar) = text.map .char := by
  induction text generalizing position with
  | nil => exact hNil position
  | cons c rest ih =>
      obtain ⟨next, hFirst⟩ := hStep position c (rest.flatMap encodeChar)
      rw [List.flatMap_cons, hFirst, ih, List.map_cons]

namespace Utf16

/-- A unit is read back from its two bytes. -/
theorem exists_encodeUnit (order : ByteOrder) {n : Nat} (h : n < 0x10000) :
    ∃ first second, encodeUnit order n = [first, second] ∧ unit order first second = n := by
  cases order with
  | little =>
      refine ⟨_, _, rfl, ?_⟩
      simp only [unit, UInt8.toNat_ofNat']
      omega
  | big =>
      refine ⟨_, _, rfl, ?_⟩
      simp only [unit, UInt8.toNat_ofNat']
      omega

/-- A pair of units is decoded to the character beyond the first plane that it was made of. -/
theorem ofPair_eq {c : Char} (h : 0x10000 ≤ c.toNat) :
    ofPair (0xD800 + (c.toNat - 0x10000) / 1024) (0xDC00 + (c.toNat - 0x10000) % 1024) = c := by
  have hNumber : 0x10000 + 1024 * (0xD800 + (c.toNat - 0x10000) / 1024 - 0xD800) +
      (0xDC00 + (c.toNat - 0x10000) % 1024 - 0xDC00) = c.toNat := by omega
  rw [ofPair, hNumber, Char.ofNat_toNat]

/-- A unit that is no surrogate is decoded by itself. -/
theorem decodeFrom_unit {order : ByteOrder} {first second : UInt8}
    (hLow : isLow (unit order first second) = false)
    (hHigh : isHigh (unit order first second) = false) (position : Nat) (rest : List UInt8) :
    decodeFrom order position (first :: second :: rest) =
      .char (Char.ofNat (unit order first second)) :: decodeFrom order (position + 2) rest := by
  rw [decodeFrom.eq_def order position (first :: second :: rest)]
  simp [hLow, hHigh]

/-- A character is decoded from its bytes, whatever stands behind them. -/
theorem exists_decodeFrom_encodeChar (order : ByteOrder) (position : Nat) (c : Char)
    (rest : List UInt8) :
    ∃ next, decodeFrom order position (encodeChar order c ++ rest) =
      .char c :: decodeFrom order next rest := by
  have hValid := isValidChar_toNat c
  by_cases hFirst : c.toNat < 0x10000
  · obtain ⟨first, second, hBytes, hUnit⟩ := exists_encodeUnit order hFirst
    have hLow : isLow c.toNat = false := by simp [isLow]; omega
    have hHigh : isHigh c.toNat = false := by simp [isHigh]; omega
    refine ⟨position + 2, ?_⟩
    have hStep := decodeFrom_unit (hUnit.symm ▸ hLow) (hUnit.symm ▸ hHigh) position rest
    rw [hUnit, Char.ofNat_toNat] at hStep
    simpa [encodeChar, hFirst, hBytes] using hStep
  · obtain ⟨first, second, hBytes, hUnit⟩ :=
      @exists_encodeUnit order (0xD800 + (c.toNat - 0x10000) / 1024) (by omega)
    obtain ⟨third, fourth, hMoreBytes, hMoreUnit⟩ :=
      @exists_encodeUnit order (0xDC00 + (c.toNat - 0x10000) % 1024) (by omega)
    have hLow : isLow (0xD800 + (c.toNat - 0x10000) / 1024) = false := by simp [isLow]; omega
    have hHigh : isHigh (0xD800 + (c.toNat - 0x10000) / 1024) = true := by simp [isHigh]; omega
    have hMore : isLow (0xDC00 + (c.toNat - 0x10000) % 1024) = true := by simp [isLow]; omega
    refine ⟨position + 4, ?_⟩
    simp [encodeChar, hFirst, hBytes, hMoreBytes, decodeFrom, hUnit, hMoreUnit, hLow, hHigh, hMore,
      ofPair_eq (Nat.le_of_not_lt hFirst)]

/-- Every text is decoded from its bytes. -/
theorem decode_encode (order : ByteOrder) (text : List Char) :
    decode order (encode order text) = text.map .char :=
  decodeFrom_flatMap (fun _ => rfl) (exists_decodeFrom_encodeChar order) 0 text

end Utf16

namespace Utf32

/-- A character is decoded from its bytes, whatever stands behind them. -/
theorem exists_decodeFrom_encodeChar (order : ByteOrder) (position : Nat) (c : Char)
    (rest : List UInt8) :
    ∃ next, decodeFrom order position (encodeChar order c ++ rest) =
      .char c :: decodeFrom order next rest := by
  have hValid := isValidChar_toNat c
  refine ⟨position + 4, ?_⟩
  cases order with
  | little =>
      have hNumber : number .little (.ofNat (c.toNat % 256)) (.ofNat (c.toNat / 256 % 256))
          (.ofNat (c.toNat / 65536 % 256)) (.ofNat (c.toNat / 16777216)) = c.toNat := by
        simp only [number, UInt8.toNat_ofNat']
        omega
      simp [encodeChar, decodeFrom, hNumber, hValid]
  | big =>
      have hNumber : number .big (.ofNat (c.toNat / 16777216)) (.ofNat (c.toNat / 65536 % 256))
          (.ofNat (c.toNat / 256 % 256)) (.ofNat (c.toNat % 256)) = c.toNat := by
        simp only [number, UInt8.toNat_ofNat']
        omega
      simp [encodeChar, decodeFrom, hNumber, hValid]

/-- Every text is decoded from its bytes. -/
theorem decode_encode (order : ByteOrder) (text : List Char) :
    decode order (encode order text) = text.map .char :=
  decodeFrom_flatMap (fun _ => rfl) (exists_decodeFrom_encodeChar order) 0 text

end Utf32
end SourceView.Encoding
