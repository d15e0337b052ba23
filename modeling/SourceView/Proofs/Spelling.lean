import SourceView.Proofs.Decoding

/-! UTF-8 as a spelling of characters. A number can be held by bytes in four forms, and a character is
spelled by the shortest form that holds its code point. Decoding reads these spellings and nothing
else: overlong forms, surrogates, numbers beyond the last character and forms that are cut short are
malformed. -/
namespace SourceView.Encoding

theorem toNat_ofNat {n : Nat} (h : n.isValidChar) : (Char.ofNat n).toNat = n := by
  rw [Char.ofNat, dif_pos h]
  rfl

namespace Utf8

/-- Whether a byte stands behind the first one of a form. It holds six bits. -/
def IsTrailing (byte : UInt8) : Prop := 0x80 ≤ byte.toNat ∧ byte.toNat < 0xC0

/-- The forms in which bytes hold a number. The first byte tells how many there are and holds the
highest bits. -/
inductive Form : List UInt8 → Nat → Prop
  | one {a : UInt8} {n : Nat} (ha : a.toNat < 0x80) (hn : n = a.toNat) : Form [a] n
  | two {a b : UInt8} {n : Nat} (ha : 0xC0 ≤ a.toNat ∧ a.toNat < 0xE0) (hb : IsTrailing b)
      (hn : n = 64 * (a.toNat - 0xC0) + (b.toNat - 0x80)) : Form [a, b] n
  | three {a b c : UInt8} {n : Nat} (ha : 0xE0 ≤ a.toNat ∧ a.toNat < 0xF0) (hb : IsTrailing b)
      (hc : IsTrailing c)
      (hn : n = 4096 * (a.toNat - 0xE0) + 64 * (b.toNat - 0x80) + (c.toNat - 0x80)) :
      Form [a, b, c] n
  | four {a b c d : UInt8} {n : Nat} (ha : 0xF0 ≤ a.toNat ∧ a.toNat < 0xF8) (hb : IsTrailing b)
      (hc : IsTrailing c) (hd : IsTrailing d)
      (hn : n = 262144 * (a.toNat - 0xF0) + 4096 * (b.toNat - 0x80) + 64 * (c.toNat - 0x80) +
        (d.toNat - 0x80)) :
      Form [a, b, c, d] n

/-- Bytes spell a character when they hold its code point in a form and none that does is shorter. -/
structure Spells (bytes : List UInt8) (c : Char) : Prop where
  form : Form bytes c.toNat
  shortest : ∀ others, Form others c.toNat → bytes.length ≤ others.length

/-- Bytes spell a text when they are spellings of its characters one behind the other. Bytes that spell
no text are not well formed. -/
inductive SpellsText : List UInt8 → List Char → Prop
  | nil : SpellsText [] []
  | cons {first rest : List UInt8} {c : Char} {text : List Char} (head : Spells first c)
      (tail : SpellsText rest text) : SpellsText (first ++ rest) (c :: text)

def capacity : Nat → Nat
  | 0 => 0
  | 1 => 0x80
  | 2 => 0x800
  | 3 => 0x10000
  | _ => 0x200000

theorem capacity_le_succ : ∀ n, capacity n ≤ capacity (n + 1)
  | 0 | 1 | 2 | 3 => by decide
  | _ + 4 => Nat.le_refl _

theorem capacity_mono {m n : Nat} (h : m ≤ n) : capacity m ≤ capacity n := by
  induction h with
  | refl => exact Nat.le_refl _
  | step _ ih => exact Nat.le_trans ih (capacity_le_succ _)

/-- A form holds no number beyond what its length allows. -/
theorem Form.lt_capacity {bytes : List UInt8} {n : Nat} (h : Form bytes n) :
    n < capacity bytes.length := by
  cases h with
  | one ha hn => exact hn ▸ ha
  | two ha hb hn =>
      simp only [IsTrailing, List.length_cons, List.length_nil, capacity] at *
      omega
  | three ha hb hc hn =>
      simp only [IsTrailing, List.length_cons, List.length_nil, capacity] at *
      omega
  | four ha hb hc hd hn =>
      simp only [IsTrailing, List.length_cons, List.length_nil, capacity] at *
      omega

theorem toNat_byte {n : Nat} (h : n < 0x100) : (UInt8.ofNat n).toNat = n :=
  UInt8.toNat_ofNat_of_lt' h

/-- The last six bits of a number are held by a trailing byte. -/
theorem isTrailing_ofNat (n : Nat) : IsTrailing (.ofNat (0x80 + n % 64)) := by
  rw [IsTrailing, toNat_byte (by omega)]
  omega

/-- The bytes of a character hold its code point, and fewer could not. -/
theorem form_encodeChar (c : Char) :
    Form (encodeChar c) c.toNat ∧ capacity ((encodeChar c).length - 1) ≤ c.toNat := by
  have hValid := isValidChar_toNat c
  have hLast := isTrailing_ofNat c.toNat
  have hNext := isTrailing_ofNat (c.toNat / 64)
  have hSecond := isTrailing_ofNat (c.toNat / 4096)
  have hLastNat := @toNat_byte (0x80 + c.toNat % 64) (by omega)
  have hNextNat := @toNat_byte (0x80 + c.toNat / 64 % 64) (by omega)
  have hSecondNat := @toNat_byte (0x80 + c.toNat / 4096 % 64) (by omega)
  simp only [encodeChar]
  split
  · next hOne =>
      have hFirst := @toNat_byte c.toNat (by omega)
      exact ⟨.one (by omega) hFirst.symm, Nat.zero_le _⟩
  split
  · next hOne hTwo =>
      have hFirst := @toNat_byte (0xC0 + c.toNat / 64) (by omega)
      exact ⟨.two (by omega) hLast (by omega), Nat.le_of_not_lt hOne⟩
  split
  · next hTwo hThree =>
      have hFirst := @toNat_byte (0xE0 + c.toNat / 4096) (by omega)
      exact ⟨.three (by omega) hNext hLast (by omega), Nat.le_of_not_lt hTwo⟩
  · next hThree =>
      have hFirst := @toNat_byte (0xF0 + c.toNat / 262144) (by omega)
      exact ⟨.four (by omega) hSecond hNext hLast (by omega), Nat.le_of_not_lt hThree⟩

/-- A form is the shortest one where fewer bytes could not hold the number. -/
theorem spells_iff {bytes : List UInt8} {c : Char} :
    Spells bytes c ↔ Form bytes c.toNat ∧ capacity (bytes.length - 1) ≤ c.toNat := by
  obtain ⟨hForm, hLeast⟩ := form_encodeChar c
  constructor
  · rintro ⟨hBytes, hShortest⟩
    have hLength := hShortest _ hForm
    exact ⟨hBytes, Nat.le_trans (capacity_mono (by omega)) hLeast⟩
  · rintro ⟨hBytes, hEnough⟩
    refine ⟨hBytes, fun others hOthers => ?_⟩
    apply Nat.le_of_not_lt
    intro hShorter
    have hHeld := hOthers.lt_capacity
    have hMore := @capacity_mono others.length (bytes.length - 1) (by omega)
    omega

/-- A form of a valid code point spells its character when a shorter one would not hold it. -/
theorem spells_ofNat {bytes : List UInt8} {n : Nat} (hForm : Form bytes n) (hValid : n.isValidChar)
    (hEnough : capacity (bytes.length - 1) ≤ n) : Spells bytes (Char.ofNat n) := by
  rw [spells_iff, toNat_ofNat hValid]
  exact ⟨hForm, hEnough⟩

theorem spells_encodeChar (c : Char) : Spells (encodeChar c) c := spells_iff.2 (form_encodeChar c)

/-- Bytes of one number are told from it and from how many they are. -/
theorem Form.eq_of_length {bytes others : List UInt8} {n : Nat} (h : Form bytes n)
    (hOthers : Form others n) (hLength : bytes.length = others.length) : bytes = others := by
  -- Of the pairs of forms only those of one form have one length.
  cases h <;> cases hOthers <;> try cases hLength
  all_goals
    simp only [IsTrailing, List.cons.injEq, ← UInt8.toNat_inj, and_true] at *
    omega

/-- A character has one spelling. -/
theorem Spells.eq_encodeChar {bytes : List UInt8} {c : Char} (h : Spells bytes c) :
    bytes = encodeChar c := by
  have hBytes := spells_encodeChar c
  exact h.form.eq_of_length hBytes.form
    (Nat.le_antisymm (h.shortest _ hBytes.form) (hBytes.shortest _ h.form))

/-- A text has one spelling, its bytes. -/
theorem spellsText_iff {bytes : List UInt8} {text : List Char} :
    SpellsText bytes text ↔ bytes = encode text := by
  constructor
  · intro h
    induction h with
    | nil => rfl
    | cons hFirst _ ih => rw [hFirst.eq_encodeChar, ih, encode, encode, List.flatMap_cons]
  · rintro rfl
    induction text with
    | nil => exact .nil
    | cons c rest ih => exact .cons (spells_encodeChar c) ih

variable {position : Nat} {begun : Begun} {bytes : List UInt8} {c : Char} {more : List Decoded}

/-- A character that lacks one byte is decoded where that byte is within its bounds. -/
theorem decodeFrom_last_iff (hMissing : begun.missing = 1) :
    decodeFrom position (some begun) bytes = .char c :: more ↔
      ∃ byte rest, bytes = byte :: rest ∧ (begun.low ≤ byte.toNat ∧ byte.toNat ≤ begun.high) ∧
        Char.ofNat (64 * begun.bits + (byte.toNat - 0x80)) = c ∧
        decodeFrom (position + 1) none rest = more := by
  cases bytes with
  | nil => simp [decodeFrom]
  | cons byte rest =>
      simp only [List.cons.injEq, exists_and_left, exists_eq_left', and_assoc]
      rw [decodeFrom]
      by_cases hBounds : begun.low ≤ byte.toNat ∧ byte.toNat ≤ begun.high
      · simp [hBounds, hMissing]
      · rw [if_neg hBounds]
        cases lead position byte.toNat <;> simp <;> omega

/-- A character that lacks more bytes is decoded where the next one is within its bounds and the rest
of them complete it. -/
theorem decodeFrom_next_iff (hMissing : begun.missing ≠ 1) :
    decodeFrom position (some begun) bytes = .char c :: more ↔
      ∃ byte rest, bytes = byte :: rest ∧ (begun.low ≤ byte.toNat ∧ byte.toNat ≤ begun.high) ∧
        decodeFrom (position + 1) (some ⟨begun.start, begun.missing - 1,
          64 * begun.bits + (byte.toNat - 0x80), 0x80, 0xBF⟩) rest = .char c :: more := by
  cases bytes with
  | nil => simp [decodeFrom]
  | cons byte rest =>
      simp only [List.cons.injEq, exists_and_left, exists_eq_left', and_assoc]
      rw [decodeFrom]
      by_cases hBounds : begun.low ≤ byte.toNat ∧ byte.toNat ≤ begun.high
      · simp [hBounds, hMissing]
      · rw [if_neg hBounds]
        cases lead position byte.toNat <;> simp <;> omega

theorem isTrailing_iff {byte : UInt8} :
    IsTrailing byte ↔ 0x80 ≤ byte.toNat ∧ byte.toNat ≤ 0xBF :=
  and_congr_right fun _ => Nat.lt_succ_iff

theorem lead_one {byte : Nat} (h : byte < 0x80) (position : Nat) :
    lead position byte = .whole (Char.ofNat byte) := if_pos h

/-- Bytes that can only be trailing, that would begin an overlong form of two bytes, or that would begin
a number beyond the last character begin nothing. -/
theorem lead_none {byte : Nat} (h : (0x80 ≤ byte ∧ byte < 0xC2) ∨ 0xF5 ≤ byte) (position : Nat) :
    lead position byte = .none := by
  rw [lead, if_neg (by omega)]
  rcases h with ⟨-, hHigh⟩ | hLarge
  · exact if_pos hHigh
  · rw [if_neg (by omega), if_neg (by omega), if_neg (by omega), if_neg (by omega),
      if_neg (by omega), if_neg (by omega), if_neg (by omega), if_neg (by omega)]

/-- A byte from 0xC2 on begins a form of two. -/
theorem lead_two {byte : Nat} (h : 0xC2 ≤ byte ∧ byte < 0xE0) (position : Nat) :
    lead position byte = .begun ⟨position, 1, byte - 0xC0, 0x80, 0xBF⟩ := by
  rw [lead, if_neg (by omega), if_neg (by omega), if_pos h.2]

/-- The bounds of the second of three bytes keep out numbers that two bytes hold, and surrogates. -/
theorem exists_lead_three {byte : Nat} (h : 0xE0 ≤ byte ∧ byte < 0xF0) (position : Nat) :
    ∃ low high, lead position byte = .begun ⟨position, 2, byte - 0xE0, low, high⟩ ∧
      ∀ next, (low ≤ next ∧ next ≤ high) ↔ (0x80 ≤ next ∧ next < 0xC0) ∧
        0x20 ≤ 64 * (byte - 0xE0) + (next - 0x80) ∧
        ¬ (0x360 ≤ 64 * (byte - 0xE0) + (next - 0x80) ∧
          64 * (byte - 0xE0) + (next - 0x80) < 0x380) := by
  rw [lead, if_neg (by omega), if_neg (by omega), if_neg (by omega)]
  split
  · next hFirst =>
      subst hFirst
      exact ⟨_, _, rfl, by omega⟩
  split
  · next hSurrogate =>
      subst hSurrogate
      exact ⟨_, _, rfl, by omega⟩
  · rw [if_pos h.2]
    exact ⟨_, _, rfl, by omega⟩

/-- The bounds of the second of four bytes keep out numbers that three bytes hold, and those beyond the
last character. -/
theorem exists_lead_four {byte : Nat} (h : 0xF0 ≤ byte ∧ byte < 0xF5) (position : Nat) :
    ∃ low high, lead position byte = .begun ⟨position, 3, byte - 0xF0, low, high⟩ ∧
      ∀ next, (low ≤ next ∧ next ≤ high) ↔ (0x80 ≤ next ∧ next < 0xC0) ∧
        0x10 ≤ 64 * (byte - 0xF0) + (next - 0x80) ∧
        64 * (byte - 0xF0) + (next - 0x80) < 0x110 := by
  rw [lead, if_neg (by omega), if_neg (by omega), if_neg (by omega), if_neg (by omega),
    if_neg (by omega), if_neg (by omega)]
  split
  · next hFirst =>
      subst hFirst
      exact ⟨_, _, rfl, by omega⟩
  split
  · exact ⟨_, _, rfl, by omega⟩
  · next hLast =>
      obtain rfl : byte = 0xF4 := by omega
      exact ⟨_, _, rfl, by omega⟩

/-- The first byte of a longer form is remembered while the others are read. -/
theorem decodeFrom_begun {a : UInt8} (h : lead position a.toNat = .begun begun) (tail : List UInt8) :
    decodeFrom position none (a :: tail) = decodeFrom (position + 1) (some begun) tail := by
  rw [decodeFrom, h]

variable {a : UInt8} {tail : List UInt8}

/-- Two bytes are read as a character when a trailing byte follows the first one. -/
theorem decodeFrom_two_iff (ha : 0xC2 ≤ a.toNat ∧ a.toNat < 0xE0) :
    decodeFrom position none (a :: tail) = .char c :: more ↔
      ∃ b rest, tail = b :: rest ∧ IsTrailing b ∧
        Char.ofNat (64 * (a.toNat - 0xC0) + (b.toNat - 0x80)) = c ∧
        decodeFrom (position + 2) none rest = more := by
  rw [decodeFrom_begun (lead_two ha position), decodeFrom_last_iff rfl]
  simp only [isTrailing_iff]

/-- Three bytes are read as a character when two trailing bytes follow the first one and the number
is neither too small for the form nor a surrogate. -/
theorem decodeFrom_three_iff (ha : 0xE0 ≤ a.toNat ∧ a.toNat < 0xF0) :
    decodeFrom position none (a :: tail) = .char c :: more ↔
      ∃ b d rest, tail = b :: d :: rest ∧ IsTrailing b ∧ IsTrailing d ∧
        0x20 ≤ 64 * (a.toNat - 0xE0) + (b.toNat - 0x80) ∧
        ¬ (0x360 ≤ 64 * (a.toNat - 0xE0) + (b.toNat - 0x80) ∧
          64 * (a.toNat - 0xE0) + (b.toNat - 0x80) < 0x380) ∧
        Char.ofNat (64 * (64 * (a.toNat - 0xE0) + (b.toNat - 0x80)) + (d.toNat - 0x80)) = c ∧
        decodeFrom (position + 3) none rest = more := by
  obtain ⟨low, high, hLead, hBounds⟩ := exists_lead_three ha position
  rw [decodeFrom_begun hLead, decodeFrom_next_iff (by simp)]
  simp only [hBounds]
  constructor
  · rintro ⟨b, others, rfl, ⟨hb, hLong, hScalar⟩, hNext⟩
    obtain ⟨d, rest, rfl, hd, hc, hMore⟩ := (decodeFrom_last_iff rfl).1 hNext
    exact ⟨b, d, rest, rfl, hb, isTrailing_iff.2 hd, hLong, hScalar, hc, hMore⟩
  · rintro ⟨b, d, rest, rfl, hb, hd, hLong, hScalar, hc, hMore⟩
    refine ⟨b, _, rfl, ⟨hb, hLong, hScalar⟩, ?_⟩
    exact (decodeFrom_last_iff rfl).2 ⟨d, rest, rfl, isTrailing_iff.1 hd, hc, hMore⟩

/-- Four bytes are read as a character when three trailing bytes follow the first one and the number
is neither too small for the form nor beyond the last character. -/
theorem decodeFrom_four_iff (ha : 0xF0 ≤ a.toNat ∧ a.toNat < 0xF5) :
    decodeFrom position none (a :: tail) = .char c :: more ↔
      ∃ b d e rest, tail = b :: d :: e :: rest ∧ IsTrailing b ∧ IsTrailing d ∧ IsTrailing e ∧
        0x10 ≤ 64 * (a.toNat - 0xF0) + (b.toNat - 0x80) ∧
        64 * (a.toNat - 0xF0) + (b.toNat - 0x80) < 0x110 ∧
        Char.ofNat (64 * (64 * (64 * (a.toNat - 0xF0) + (b.toNat - 0x80)) + (d.toNat - 0x80)) +
          (e.toNat - 0x80)) = c ∧
        decodeFrom (position + 4) none rest = more := by
  obtain ⟨low, high, hLead, hBounds⟩ := exists_lead_four ha position
  rw [decodeFrom_begun hLead, decodeFrom_next_iff (by simp)]
  simp only [hBounds]
  constructor
  · rintro ⟨b, others, rfl, ⟨hb, hLong, hSmall⟩, hNext⟩
    obtain ⟨d, others, rfl, hd, hLast⟩ := (decodeFrom_next_iff (by simp)).1 hNext
    obtain ⟨e, rest, rfl, he, hc, hMore⟩ := (decodeFrom_last_iff rfl).1 hLast
    exact ⟨b, d, e, rest, rfl, hb, isTrailing_iff.2 hd, isTrailing_iff.2 he, hLong, hSmall, hc, hMore⟩
  · rintro ⟨b, d, e, rest, rfl, hb, hd, he, hLong, hSmall, hc, hMore⟩
    refine ⟨b, _, rfl, ⟨hb, hLong, hSmall⟩, (decodeFrom_next_iff (by simp)).2 ?_⟩
    refine ⟨d, _, rfl, isTrailing_iff.1 hd, ?_⟩
    exact (decodeFrom_last_iff rfl).2 ⟨e, rest, rfl, isTrailing_iff.1 he, hc, hMore⟩

/-- What is decoded to a character is a spelling of it. -/
theorem exists_spelling_of_decodeFrom
    (h : decodeFrom position none bytes = .char c :: more) :
    ∃ first rest, bytes = first ++ rest ∧ Spells first c ∧
      decodeFrom (position + first.length) none rest = more := by
  cases bytes with
  | nil => cases h
  | cons a tail =>
      -- The bounds of the second byte leave what is a character and needs as many bytes.
      rcases Nat.lt_or_ge a.toNat 0x80 with hOne | hLarge
      · simp only [decodeFrom, lead_one hOne position, List.cons.injEq, Decoded.char.injEq] at h
        obtain ⟨rfl, hMore⟩ := h
        exact ⟨[a], tail, rfl, spells_ofNat (.one hOne rfl) (.inl (by omega)) (Nat.zero_le _), hMore⟩
      by_cases hNone : (0x80 ≤ a.toNat ∧ a.toNat < 0xC2) ∨ 0xF5 ≤ a.toNat
      · simp only [decodeFrom, lead_none hNone position] at h
        cases h
      rcases Nat.lt_or_ge a.toNat 0xE0 with hTwo | hLarger
      · obtain ⟨b, rest, rfl, hb, rfl, hMore⟩ := (decodeFrom_two_iff (by omega)).1 h
        refine ⟨[a, b], rest, rfl, spells_ofNat (.two (by omega) hb rfl) ?_ ?_, hMore⟩
        all_goals
          simp only [IsTrailing, Nat.isValidChar, List.length_cons, List.length_nil, capacity] at *
          omega
      rcases Nat.lt_or_ge a.toNat 0xF0 with hThree | hLargest
      · obtain ⟨b, d, rest, rfl, hb, hd, hLong, hScalar, rfl, hMore⟩ :=
          (decodeFrom_three_iff (by omega)).1 h
        refine ⟨[a, b, d], rest, rfl, spells_ofNat (.three ⟨hLarger, hThree⟩ hb hd ?_) ?_ ?_, hMore⟩
        all_goals
          simp only [IsTrailing, Nat.isValidChar, List.length_cons, List.length_nil, capacity] at *
          omega
      · obtain ⟨b, d, e, rest, rfl, hb, hd, he, hLong, hSmall, rfl, hMore⟩ :=
          (decodeFrom_four_iff (by omega)).1 h
        refine ⟨[a, b, d, e], rest, rfl, spells_ofNat (.four (by omega) hb hd he ?_) ?_ ?_, hMore⟩
        all_goals
          simp only [IsTrailing, Nat.isValidChar, List.length_cons, List.length_nil, capacity] at *
          omega

/-- Every spelling of a character is decoded to it, whatever stands behind. -/
theorem Spells.decodeFrom {first : List UInt8} (h : Spells first c) (position : Nat)
    (rest : List UInt8) :
    Utf8.decodeFrom position none (first ++ rest) =
      .char c :: Utf8.decodeFrom (position + first.length) none rest := by
  have hValid := isValidChar_toNat c
  obtain ⟨hForm, hLeast⟩ := spells_iff.1 h
  rw [Nat.isValidChar] at hValid
  generalize hn : c.toNat = n at *
  obtain rfl : Char.ofNat n = c := by rw [← hn, Char.ofNat_toNat]
  cases hForm with
  | one ha hn => simp [Utf8.decodeFrom, lead_one ha position, hn]
  | @two a b n ha hb hn =>
      simp only [List.length_cons, List.length_nil, capacity, IsTrailing] at *
      exact (decodeFrom_two_iff (by omega)).2 ⟨b, rest, rfl, hb, hn ▸ rfl, rfl⟩
  | @three a b d n ha hb hd hn =>
      simp only [List.length_cons, List.length_nil, capacity, IsTrailing] at *
      refine (decodeFrom_three_iff (by omega)).2 ⟨b, d, rest, rfl, hb, hd, ?_⟩
      exact ⟨by omega, by omega, congrArg Char.ofNat (by omega), rfl⟩
  | @four a b d e n ha hb hd he hn =>
      simp only [List.length_cons, List.length_nil, capacity, IsTrailing] at *
      refine (decodeFrom_four_iff (by omega)).2 ⟨b, d, e, rest, rfl, hb, hd, he, ?_⟩
      exact ⟨by omega, by omega, congrArg Char.ofNat (by omega), rfl⟩

/-- No byte is passed over in silence, and neither is a character that is begun. -/
theorem decodeFrom_eq_nil_iff {begun? : Option Begun} :
    decodeFrom position begun? bytes = [] ↔ begun? = none ∧ bytes = [] := by
  fun_induction decodeFrom position begun? bytes <;> simp_all

/-- Bytes are decoded to characters alone where they spell a text, and it is that one. -/
theorem decode_eq_iff {text : List Char} :
    decode bytes = text.map .char ↔ SpellsText bytes text := by
  rw [decode]
  generalize 0 = position
  constructor
  · intro h
    induction text generalizing position bytes with
    | nil =>
        obtain ⟨-, rfl⟩ := decodeFrom_eq_nil_iff.1 h
        exact .nil
    | cons c rest ih =>
        obtain ⟨first, others, rfl, hFirst, hMore⟩ := exists_spelling_of_decodeFrom h
        exact .cons hFirst (ih _ hMore)
  · intro h
    induction h generalizing position with
    | nil => rfl
    | cons hFirst _ ih => rw [hFirst.decodeFrom, ih, List.map_cons]

/-- Every text is decoded from its bytes. -/
theorem decode_encode (text : List Char) : decode (encode text) = text.map .char :=
  decode_eq_iff.2 (spellsText_iff.2 rfl)

end Utf8
end SourceView.Encoding
