import SourceView.Encoding
import SourceView.LineEnd
import SourceView.Source

/-! Documents: files as the texts that sources hold. The bytes are decoded, a mark at the beginning
of the text is dropped, and the line ends are made alike. Offsets count the characters that are
left. -/
namespace SourceView.Document

/-- How a file is to be read. An empty encoding name stands for none. -/
structure Reading where
  encoding : Option String := none
  policy : Encoding.Policy := .strict
  normalizesLines : Bool := true

/-- The character that may stand at the beginning of a text as a mark of its encoding. -/
def markChar : Char := Char.ofNat 0xFEFF

/-- The text without one mark in front. -/
def dropMark : List Char → List Char
  | [] => []
  | c :: rest => if c = markChar then rest else c :: rest

def chosenEncoding (name? : Option String) (bytes : List UInt8) : Except Fault Encoding :=
  match name? with
  | none => .ok (Encoding.detect bytes)
  | some name => if name.isEmpty then .ok (Encoding.detect bytes) else Encoding.ofName name

/-- The text of a file. An empty file has the empty text whatever encoding is named. -/
def read (bytes : List UInt8) (reading : Reading := {}) : Except Fault (List Char) :=
  if bytes.isEmpty then .ok []
  else do
    let encoding ← chosenEncoding reading.encoding bytes
    let text := dropMark (← encoding.textOf reading.policy bytes)
    return if reading.normalizesLines then LineEnd.normalize text else text

/-- The source of a file. It is named after its path unless another name is given. -/
def source (path : String) (bytes : List UInt8) (id? : Option String := none) :
    Except Fault Source := do
  let text ← read bytes
  let id := (id?.filter (!·.isEmpty)).getD path
  return { id, text }

end SourceView.Document
