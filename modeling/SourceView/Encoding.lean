import SourceView.Encoding.Bytewise
import SourceView.Encoding.Utf8
import SourceView.Encoding.Utf32

/-! Encodings: by which one a file is read, and the text that its bytes then stand for. A file
without a named encoding is read by the one whose mark it begins with. Without a mark it is UTF-8 if
it is well formed as such, and Latin-1 if it is not. -/
namespace SourceView

inductive Encoding
  | utf8
  /-- UTF-8 that may begin with a mark, which is left out. -/
  | utf8Marked
  /-- UTF-16 whose byte order is told by a mark, which is left out. -/
  | utf16Marked
  | utf16 (order : Encoding.ByteOrder)
  | utf32 (order : Encoding.ByteOrder)
  | ascii
  | latin1
  deriving DecidableEq

namespace Encoding

def names : List (String × Encoding) :=
  [("utf-8", utf8), ("utf-8-sig", utf8Marked), ("utf-16", utf16Marked),
    ("utf-16-le", utf16 .little), ("utf-16-be", utf16 .big), ("utf-32-le", utf32 .little),
    ("utf-32-be", utf32 .big), ("ascii", ascii), ("latin-1", latin1)]

def ofName (name : String) : Except Fault Encoding :=
  match names.lookup name with
  | some encoding => .ok encoding
  | none => .error (.unknownEncoding name)

def utf8Mark : List UInt8 := [0xEF, 0xBB, 0xBF]

/-- The encodings that are told by a mark. The mark of UTF-32 with the less significant byte first
begins with that of UTF-16 and so stands in front of it. -/
def marks : List (List UInt8 × Encoding) :=
  [(utf8Mark, utf8Marked), ([0xFF, 0xFE, 0, 0], utf32 .little), ([0, 0, 0xFE, 0xFF], utf32 .big),
    ([0xFF, 0xFE], utf16 .little), ([0xFE, 0xFF], utf16 .big)]

/-- Decodes bytes. Positions in marked UTF-8 are counted from behind the mark. -/
def decode (encoding : Encoding) (bytes : List UInt8) : List Decoded :=
  match encoding with
  | utf8 => Utf8.decode bytes
  | utf8Marked => Utf8.decode (if utf8Mark.isPrefixOf bytes then bytes.drop 3 else bytes)
  | utf16Marked => Utf16.decodeMarked bytes
  | utf16 order => Utf16.decode order bytes
  | utf32 order => Utf32.decode order bytes
  | ascii => decodeAscii 0 bytes
  | latin1 => decodeLatin1 bytes

def textOf (encoding : Encoding) (policy : Policy) (bytes : List UInt8) :
    Except Fault (List Char) :=
  resolve policy (encoding.decode bytes)

def accepts (encoding : Encoding) (bytes : List UInt8) : Bool :=
  (encoding.textOf .strict bytes).isOk

/-- The encoding that a file is read by when none is named. -/
def detect (bytes : List UInt8) : Encoding :=
  match marks.find? (·.1.isPrefixOf bytes) with
  | some (_, encoding) => encoding
  | none => if utf8.accepts bytes then utf8 else latin1

end Encoding
end SourceView
