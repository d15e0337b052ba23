import SourceView.Text.Codes

/-! White space. The set is the Unicode property `White_Space` with the four information separators
U+001C to U+001F added. Zero-width characters (U+200B, U+2060, U+FEFF) are not in it. -/
namespace SourceView.Text

def blankCodes : Codes :=
  [(0x09, 0x0D), (0x1C, 0x20), (0x85, 0x85), (0xA0, 0xA0), (0x1680, 0x1680), (0x2000, 0x200A),
    (0x2028, 0x2029), (0x202F, 0x202F), (0x205F, 0x205F), (0x3000, 0x3000)]

def isBlank (c : Char) : Bool := blankCodes.contains c.toNat

/-- The white space of ASCII as the core library counts it is white space here. -/
theorem isBlank_of_isWhitespace {c : Char} (h : c.isWhitespace = true) : isBlank c = true := by
  have hCases : c = ' ' ∨ c = '\t' ∨ c = '\r' ∨ c = '\n' := by
    simpa [Char.isWhitespace, or_assoc] using h
  rcases hCases with rfl | rfl | rfl | rfl <;> rfl

def trimStart (text : List Char) : List Char := text.dropWhile isBlank

def trimEnd (text : List Char) : List Char := (text.reverse.dropWhile isBlank).reverse

def trim (text : List Char) : List Char := trimEnd (trimStart text)

/-- Trimming the end makes no text longer. -/
theorem length_trimEnd_le (text : List Char) : (trimEnd text).length ≤ text.length := by
  have := (List.dropWhile_suffix isBlank (l := text.reverse)).length_le
  simpa [trimEnd] using this

end SourceView.Text
