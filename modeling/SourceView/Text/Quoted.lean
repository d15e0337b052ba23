import SourceView.Text.Blank

/-! Quoted texts. A text is shown between single quotes, or between double quotes when it holds a
single quote and no double quote. Characters that cannot be shown are written by their code. -/
namespace SourceView.Text

/-- Code points without a visible form besides white space: controls, format characters, private
use and noncharacters. Unassigned code points are not listed and so count as showable. -/
def hiddenCodes : Codes :=
  [(0x00, 0x08), (0x0E, 0x1B), (0x7F, 0x84), (0x86, 0x9F), (0xAD, 0xAD), (0x600, 0x605),
    (0x61C, 0x61C), (0x6DD, 0x6DD), (0x70F, 0x70F), (0x890, 0x891), (0x8E2, 0x8E2),
    (0x180E, 0x180E), (0x200B, 0x200F), (0x202A, 0x202E), (0x2060, 0x2064), (0x2066, 0x206F),
    (0xE000, 0xF8FF), (0xFDD0, 0xFDEF), (0xFEFF, 0xFEFF), (0xFFF9, 0xFFFB), (0xFFFE, 0xFFFF),
    (0x110BD, 0x110BD), (0x110CD, 0x110CD), (0x13430, 0x13438), (0x1BCA0, 0x1BCA3),
    (0x1D173, 0x1D17A), (0x1FFFE, 0x1FFFF), (0x2FFFE, 0x2FFFF), (0x3FFFE, 0x3FFFF),
    (0x4FFFE, 0x4FFFF), (0x5FFFE, 0x5FFFF), (0x6FFFE, 0x6FFFF), (0x7FFFE, 0x7FFFF),
    (0x8FFFE, 0x8FFFF), (0x9FFFE, 0x9FFFF), (0xAFFFE, 0xAFFFF), (0xBFFFE, 0xBFFFF),
    (0xCFFFE, 0xCFFFF), (0xDFFFE, 0xDFFFF), (0xE0001, 0xE0001), (0xE0020, 0xE007F),
    (0xEFFFE, 0x10FFFF)]

/-- Whether a character is shown as it is. The space is the only white space that is. -/
def isShowable (c : Char) : Bool :=
  c == ' ' || !(isBlank c || hiddenCodes.contains c.toNat)

/-- Exactly `width` hexadecimal digits in lower case; higher digits are dropped. -/
def hexDigits : Nat → Nat → List Char
  | 0, _ => []
  | width + 1, n => hexDigits width (n / 16) ++ [Nat.digitChar (n % 16)]

/-- One character inside the quotes. The backslash, the enclosing quote, the line feed, the
carriage return and the tab have a form of two characters; other hidden ones are written with two,
four or eight digits, whichever is the first to fit. -/
def quoteChar (mark c : Char) : List Char :=
  if c == '\\' || c == mark then ['\\', c]
  else if c == '\n' then ['\\', 'n']
  else if c == '\r' then ['\\', 'r']
  else if c == '\t' then ['\\', 't']
  else if isShowable c then [c]
  else if c.toNat < 0x100 then '\\' :: 'x' :: hexDigits 2 c.toNat
  else if c.toNat < 0x10000 then '\\' :: 'u' :: hexDigits 4 c.toNat
  else '\\' :: 'U' :: hexDigits 8 c.toNat

/-- The enclosing quote: double only for a text with a single quote and no double one. -/
def quoteMark (text : List Char) : Char :=
  if text.contains '\'' && !text.contains '\"' then '\"' else '\''

def quote (text : List Char) : List Char :=
  let mark := quoteMark text
  mark :: (text.flatMap (quoteChar mark) ++ [mark])

def quoted (text : String) : String := String.ofList (quote text.toList)

end SourceView.Text
