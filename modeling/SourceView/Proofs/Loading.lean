import SourceView.Document
import SourceView.Proofs.Spelling

/-! Loading files whose encoding is not named. A text behind a mark of UTF-16 or UTF-32 is loaded as it
stands, also where it begins with the character of the mark itself. Behind the mark of UTF-8 such a
character is lost. A file without a mark is never refused: it is UTF-8 where it spells a text, and
otherwise each byte is a character. -/
namespace SourceView
namespace Encoding

inductive Wide
  | utf16 (order : ByteOrder)
  | utf32 (order : ByteOrder)

namespace Wide

def encoding : Wide → Encoding
  | utf16 order => .utf16 order
  | utf32 order => .utf32 order

def mark : Wide → List UInt8
  | utf16 .little => [0xFF, 0xFE]
  | utf16 .big => [0xFE, 0xFF]
  | utf32 .little => [0xFF, 0xFE, 0, 0]
  | utf32 .big => [0, 0, 0xFE, 0xFF]

def encode : Wide → List Char → List UInt8
  | utf16 order => Utf16.encode order
  | utf32 order => Utf32.encode order

end Wide

def Unmarked (bytes : List UInt8) : Prop :=
  ¬ utf8Mark <+: bytes ∧ ∀ wide : Wide, ¬ wide.mark <+: bytes

/-- Only the first unit of U+0000 is 0, since the first unit of a pair is a surrogate. -/
theorem exists_first_unit (order : ByteOrder) (c : Char) :
    ∃ n more, Utf16.encodeChar order c = Utf16.encodeUnit order n ++ more ∧ n < 0x10000 ∧
      (n = 0 → c.toNat = 0) := by
  have hValid := isValidChar_toNat c
  rw [Nat.isValidChar] at hValid
  by_cases hFirst : c.toNat < 0x10000
  · exact ⟨_, [], by simp [Utf16.encodeChar, hFirst], hFirst, id⟩
  · exact ⟨_, _, if_neg hFirst, by omega, by omega⟩

/-- Behind the mark of UTF-16 a text completes that of UTF-32 only if it begins with U+0000. -/
theorem not_zeros_prefix_encode {text : List Char} (h : text.head? ≠ some (Char.ofNat 0)) :
    ¬ [0, 0] <+: Utf16.encode .little text := by
  cases text with
  | nil => simp [Utf16.encode]
  | cons c rest =>
      obtain ⟨n, more, hChar, hSmall, hZero⟩ := exists_first_unit .little c
      obtain ⟨first, second, hBytes, hUnit⟩ := Utf16.exists_encodeUnit .little hSmall
      rw [Utf16.encode, List.flatMap_cons, hChar, hBytes]
      simp only [List.cons_append, List.nil_append, List.cons_prefix_cons, List.nil_prefix, and_true]
      rintro ⟨rfl, rfl⟩
      have hNumber := hZero hUnit.symm
      refine h (congrArg some ?_)
      rw [← Char.ofNat_toNat c, hNumber]

/-- Of two marks one of which begins with the other, the longer one is tried before. -/
theorem detect_wide {wide : Wide} {text : List Char}
    (h : wide = .utf16 .little → text.head? ≠ some (Char.ofNat 0)) :
    detect (wide.mark ++ wide.encode text) = wide.encoding := by
  match wide with
  | .utf16 .little =>
      have hZeros : List.isPrefixOf [0, 0] (Utf16.encode .little text) = false := by
        simpa [← Bool.not_eq_true] using not_zeros_prefix_encode (h rfl)
      simp [detect, marks, utf8Mark, Wide.mark, Wide.encode, Wide.encoding, hZeros]
  | .utf16 .big => rfl
  | .utf32 .little => rfl
  | .utf32 .big => rfl

theorem detect_utf8Mark (bytes : List UInt8) : detect (utf8Mark ++ bytes) = utf8Marked := rfl

/-- Without a mark a file is tried as UTF-8. -/
theorem detect_of_unmarked {bytes : List UInt8} (h : Unmarked bytes) :
    detect bytes = if utf8.accepts bytes then utf8 else latin1 := by
  obtain ⟨hUtf8, hWide⟩ := h
  have hNone : marks.find? (·.1.isPrefixOf bytes) = none := by
    simp only [marks, List.find?_eq_none, List.forall_mem_cons, List.isPrefixOf_iff_prefix]
    exact ⟨hUtf8, hWide (.utf32 .little), hWide (.utf32 .big), hWide (.utf16 .little),
      hWide (.utf16 .big), by simp⟩
  rw [detect, hNone]

/-- Without tolerance a text results only if every character was decoded. -/
theorem resolve_strict_eq_ok_iff {decoded : List Decoded} {text : List Char} :
    resolve .strict decoded = .ok text ↔ decoded = text.map .char := by
  constructor
  · intro h
    induction decoded generalizing text with
    | nil =>
        cases h
        rfl
    | cons first rest ih =>
        cases first with
        | malformed start => cases h
        | char c =>
            rw [resolve] at h
            obtain ⟨others, hRest, h⟩ := bind_eq_ok_iff.1 h
            cases h
            rw [ih hRest, List.map_cons]
  · rintro rfl
    exact resolve_map_char _ _

/-- A file is taken for UTF-8 exactly when its bytes spell some text. -/
theorem accepts_utf8_iff {bytes : List UInt8} :
    utf8.accepts bytes = true ↔ ∃ text, Utf8.SpellsText bytes text := by
  have hText : ∀ text, utf8.textOf .strict bytes = .ok text ↔ Utf8.SpellsText bytes text :=
    fun text => resolve_strict_eq_ok_iff.trans Utf8.decode_eq_iff
  simp only [← hText, accepts]
  cases utf8.textOf .strict bytes <;> simp [Except.isOk, Except.toBool]

end Encoding

namespace Document
open Encoding

variable (policy : Policy)

def plain : Reading := { policy, normalizesLines := false }

theorem dropMark_eq_self {text : List Char} (h : text.head? ≠ some markChar) :
    dropMark text = text := by
  cases text with
  | nil => rfl
  | cons c rest => exact if_neg fun hMark => h (congrArg some hMark)

/-- A file is read as the characters that it is decoded to, without a mark in front. -/
theorem read_of_decode {bytes : List UInt8} {text : List Char}
    (h : (detect bytes).decode bytes = text.map .char) :
    read bytes (plain policy) = .ok (dropMark text) := by
  cases bytes with
  | nil =>
      cases text with
      | nil => rfl
      | cons c rest => cases h
  | cons first rest =>
      have hText : (detect (first :: rest)).textOf policy (first :: rest) = .ok text := by
        rw [textOf, h, resolve_map_char]
      simp [read, plain, chosenEncoding, hText, bind, Except.bind, pure, Except.pure]

/-- Behind the mark of a wide encoding the mark is decoded as well, as a character of its own. -/
theorem decode_wide {wide : Wide} {text : List Char}
    (h : wide = .utf16 .little → text.head? ≠ some (Char.ofNat 0)) :
    (detect (wide.mark ++ wide.encode text)).decode (wide.mark ++ wide.encode text) =
      (markChar :: text).map .char := by
  have hMarked : wide.mark ++ wide.encode text = wide.encode (markChar :: text) := by
    cases wide with
    | utf16 order => cases order <;> rfl
    | utf32 order => cases order <;> rfl
  rw [detect_wide h, hMarked]
  cases wide with
  | utf16 order => exact Utf16.decode_encode order _
  | utf32 order => exact Utf32.decode_encode order _

/-- A text behind the mark of a wide encoding is read as it stands. -/
theorem read_wide (wide : Wide) (text : List Char)
    (h : wide = .utf16 .little → text.head? ≠ some (Char.ofNat 0)) :
    read (wide.mark ++ wide.encode text) (plain policy) = .ok text :=
  read_of_decode policy (decode_wide h)

/-- A text of the character of the mark and of one with a pair of surrogates. -/
theorem read_wide_of_pair :
    (Wide.utf16 .little = .utf16 .little → [markChar, '😀'].head? ≠ some (Char.ofNat 0)) ∧
      read [0xFF, 0xFE, 0xFF, 0xFE, 0x3D, 0xD8, 0x00, 0xDE] (plain .strict) =
        .ok [markChar, '😀'] :=
  ⟨fun _ => by decide, read_wide .strict (.utf16 .little) [markChar, '😀'] fun _ => by decide⟩

/-- In marked UTF-8 the mark is left out before the text is decoded. -/
theorem decode_utf8Mark (text : List Char) :
    (detect (utf8Mark ++ Utf8.encode text)).decode (utf8Mark ++ Utf8.encode text) =
      text.map .char := by
  rw [detect_utf8Mark]
  exact Utf8.decode_encode text

/-- Behind the mark of UTF-8 a text is read as it stands unless it begins with the character of the
mark, which is then lost. Behind the marks of wide encodings it is kept. -/
theorem read_behind_mark (text : List Char) :
    (text.head? ≠ some markChar →
        read (utf8Mark ++ Utf8.encode text) (plain policy) = .ok text) ∧
      (∀ rest, text = markChar :: rest →
        read (utf8Mark ++ Utf8.encode text) (plain policy) = .ok rest) ∧
      ∀ wide : Wide, wide ≠ .utf16 .little →
        read (wide.mark ++ wide.encode text) (plain policy) = .ok text := by
  have hRead := read_of_decode policy (decode_utf8Mark text)
  refine ⟨fun hHead => ?_, fun rest hText => ?_, fun wide hOther => ?_⟩
  · rwa [dropMark_eq_self hHead] at hRead
  · rwa [hText, dropMark, if_pos rfl, ← hText] at hRead
  · exact read_of_decode policy (decode_wide fun hLittle => absurd hLittle hOther)

/-- A text behind the mark of UTF-8, one that begins with another mark, and such a text in UTF-16,
where it is kept. -/
theorem read_behind_mark_of_letters :
    (['o', 'k'].head? ≠ some markChar ∧
        read [0xEF, 0xBB, 0xBF, 0x6F, 0x6B] (plain .strict) = .ok ['o', 'k']) ∧
      ([markChar, 'o'] = markChar :: ['o'] ∧
        read [0xEF, 0xBB, 0xBF, 0xEF, 0xBB, 0xBF, 0x6F] (plain .strict) = .ok ['o']) ∧
      Wide.utf16 .big ≠ .utf16 .little ∧
        read [0xFE, 0xFF, 0xFE, 0xFF, 0x00, 0x6F] (plain .strict) = .ok [markChar, 'o'] := by
  have hHead : ['o', 'k'].head? ≠ some markChar := by decide
  have hOther : Wide.utf16 .big ≠ .utf16 .little := nofun
  exact ⟨⟨hHead, (read_behind_mark .strict ['o', 'k']).1 hHead⟩,
    ⟨rfl, (read_behind_mark .strict [markChar, 'o']).2.1 _ rfl⟩,
    hOther, (read_behind_mark .strict [markChar, 'o']).2.2 _ hOther⟩

/-- The text of nothing but a mark is lost behind the mark of UTF-8 and no other. -/
theorem second_mark_lost :
    read (utf8Mark ++ Utf8.encode [markChar]) (plain .strict) ≠ .ok [markChar] ∧
      ∀ wide : Wide, read (wide.mark ++ wide.encode [markChar]) (plain .strict) = .ok [markChar] := by
  have hRead := read_of_decode .strict (decode_utf8Mark [markChar])
  have hLost : dropMark [markChar] = [] := rfl
  refine ⟨?_, fun wide => read_of_decode .strict (decode_wide fun _ => by decide)⟩
  rw [hRead, hLost]
  nofun

/-- Bytes with the mark of a wide encoding spell no text in UTF-8. -/
theorem not_spellsText_wide (wide : Wide) (rest : List UInt8) (text : List Char) :
    ¬ Utf8.SpellsText (wide.mark ++ rest) text := by
  intro h
  have hMalformed : ∃ start, .malformed start ∈ Utf8.decode (wide.mark ++ rest) := by
    match wide with
    | .utf16 .little => exact ⟨0, List.mem_cons_self⟩
    | .utf16 .big => exact ⟨0, List.mem_cons_self⟩
    | .utf32 .little => exact ⟨0, List.mem_cons_self⟩
    | .utf32 .big => exact ⟨2, .tail _ (.tail _ (.head _))⟩
  rw [Utf8.decode_eq_iff.2 h] at hMalformed
  simp at hMalformed

/-- The bytes of a text begin with a mark only where the text begins with its character. -/
theorem unmarked_encode_iff {text : List Char} :
    Unmarked (Utf8.encode text) ↔ text.head? ≠ some markChar := by
  constructor
  · rintro ⟨hUtf8, -⟩ hHead
    obtain ⟨rest, rfl⟩ := List.head?_eq_some_iff.1 hHead
    exact hUtf8 ⟨Utf8.encode rest, rfl⟩
  · intro hHead
    refine ⟨?_, fun wide => ?_⟩
    · rintro ⟨rest, hBytes⟩
      have hDecode : Utf8.decode (utf8Mark ++ rest) = text.map .char :=
        hBytes ▸ Utf8.decode_encode text
      cases text with
      | nil => cases hDecode
      | cons c others =>
          have hFirst : markChar = c := Decoded.char.inj (List.cons.inj hDecode).1
          exact hHead (congrArg some hFirst.symm)
    · rintro ⟨rest, hBytes⟩
      exact not_spellsText_wide wide rest text (Utf8.spellsText_iff.2 hBytes)

/-- Bytes without a mark that spell a text are read as that text. -/
theorem read_of_spelled {bytes : List UInt8} {text : List Char} (hUnmarked : Unmarked bytes)
    (h : Utf8.SpellsText bytes text) : read bytes (plain policy) = .ok text := by
  have hHead : text.head? ≠ some markChar := by
    rw [← unmarked_encode_iff, ← Utf8.spellsText_iff.1 h]
    exact hUnmarked
  have hDecode : (detect bytes).decode bytes = text.map .char := by
    rw [detect_of_unmarked hUnmarked, if_pos (accepts_utf8_iff.2 ⟨text, h⟩)]
    exact Utf8.decode_eq_iff.2 h
  rw [read_of_decode policy hDecode, dropMark_eq_self hHead]

theorem toNat_charOfByte (byte : UInt8) : (charOfByte byte).toNat = byte.toNat :=
  toNat_ofNat (.inl (by have := byte.toNat_lt; omega))

/-- No byte is the character of the mark. -/
theorem read_of_unspelled {bytes : List UInt8} (hUnmarked : Unmarked bytes)
    (h : ¬ ∃ text, Utf8.SpellsText bytes text) :
    read bytes (plain policy) = .ok (bytes.map charOfByte) := by
  have hHead : (bytes.map charOfByte).head? ≠ some markChar := by
    cases bytes with
    | nil => nofun
    | cons byte rest =>
        have hByte := byte.toNat_lt
        intro hMark
        have hNat := congrArg Char.toNat (Option.some.inj hMark)
        rw [toNat_charOfByte] at hNat
        have hMarkNat : markChar.toNat = 0xFEFF := rfl
        omega
  have hDecode : (detect bytes).decode bytes = (bytes.map charOfByte).map .char := by
    rw [detect_of_unmarked hUnmarked, if_neg fun hAccepts => h (accepts_utf8_iff.1 hAccepts)]
    exact (List.map_map ..).symm
  rw [read_of_decode policy hDecode, dropMark_eq_self hHead]

/-- A file without a mark is never refused. It is read as the text that it spells in UTF-8, or else
with each byte as the character of its value. -/
theorem read_unmarked :
    (∀ bytes, Unmarked bytes →
        (∀ text, Utf8.SpellsText bytes text → read bytes (plain policy) = .ok text) ∧
        ((¬ ∃ text, Utf8.SpellsText bytes text) →
          ∃ text, read bytes (plain policy) = .ok text ∧
            text.map Char.toNat = bytes.map UInt8.toNat)) ∧
      ∀ text, text.head? ≠ some markChar →
        Unmarked (Utf8.encode text) ∧ Utf8.SpellsText (Utf8.encode text) text ∧
          read (Utf8.encode text) (plain policy) = .ok text := by
  refine ⟨fun bytes hUnmarked => ⟨fun text hText => ?_, fun hNone => ?_⟩, fun text hHead => ?_⟩
  · exact read_of_spelled policy hUnmarked hText
  · refine ⟨_, read_of_unspelled policy hUnmarked hNone, ?_⟩
    simp [Function.comp_def, toNat_charOfByte]
  · have hUnmarked := unmarked_encode_iff.2 hHead
    have hText := Utf8.spellsText_iff.2 (Eq.refl (Utf8.encode text))
    exact ⟨hUnmarked, hText, read_of_spelled policy hUnmarked hText⟩

/-- The last byte begins a character of three bytes. -/
theorem read_unmarked_of_malformed :
    Unmarked [0x63, 0xE9] ∧ (¬ ∃ text, Utf8.SpellsText [0x63, 0xE9] text) ∧
      ∃ text, read [0x63, 0xE9] (plain .strict) = .ok text ∧
        text.map Char.toNat = [0x63, 0xE9] := by
  have hUnmarked : Unmarked [0x63, 0xE9] := by
    refine ⟨by decide, fun wide => ?_⟩
    match wide with
    | .utf16 .little | .utf16 .big | .utf32 .little | .utf32 .big => decide
  have hNone : ¬ ∃ text, Utf8.SpellsText [0x63, 0xE9] text := by
    rw [← accepts_utf8_iff]
    decide
  exact ⟨hUnmarked, hNone, ((read_unmarked .strict).1 _ hUnmarked).2 hNone⟩

end Document
end SourceView
