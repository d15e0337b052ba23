import SourceView.Double
import SourceView.Range
import SourceView.Text.Numeral

/-! Loose values: what a caller may hand over where a range or one of its endpoints is wanted. A
range is read from a range, a mapping, a pair or a record with two ends, and an endpoint from
whatever stands for an integer. -/
namespace SourceView

/-- A value that may stand for a range or for an endpoint. -/
inductive Loose
  | nothing
  | flag (value : Bool)
  | integer (value : Int)
  | double (value : Float)
  | text (value : List Char)
  | bytes (value : List UInt8)
  | sequence (items : List Loose)
  | mapping (fields : List (String × Loose))
  /-- A record with two ends, either of which may be missing. -/
  | record (start stop : Option Loose)
  | range (value : Range)
  /-- A stretch of a named source. It has two ends but is no pair. -/
  | span (source : String) (value : Range)
  deriving Inhabited

namespace Loose

def typeName : Loose → String
  | nothing => "NoneType"
  | flag _ => "bool"
  | integer _ => "int"
  | double _ => "float"
  | text _ => "str"
  | bytes _ => "bytes"
  | sequence _ => "list"
  | mapping _ => "dict"
  | record .. => "SimpleNamespace"
  | range _ => "TextRange"
  | span .. => "Span"

def isPresent : Loose → Bool
  | nothing => false
  | _ => true

/-- A byte as a character when it is one of ASCII. -/
def asciiChar? (byte : UInt8) : Option Char :=
  if byte < 128 then some (Char.ofNat byte.toNat) else none

/-- The endpoint that a value stands for. Truth values stand for none, floating numbers are rounded
towards zero, and texts and bytes are read as numerals. -/
def endpoint (label : String) (value : Loose) : Except Fault Nat :=
  let number (found : Option Int) : Except Fault Nat :=
    match found with
    | some n => Range.checkEndpoint label n
    | none => .error (.endpointNotInteger label)
  match value with
  | integer n => number (some n)
  | double x =>
    let exact := doubleValue x
    if exact = .infinite then .error .endpointInfinite else number exact.truncate?
  | text chars => number (Text.integer? chars)
  | bytes octets => number ((octets.mapM asciiChar?).bind Text.integer?)
  | _ => .error (.endpointNotInteger label)

/-- The range between two loose endpoints. The first is checked fully before the second, and their
order last. -/
def rangeBetween (start stop : Loose) : Except Fault Range := do
  let start ← start.endpoint "start"
  let stop ← stop.endpoint "end"
  Range.ofOffsets start stop

def toRange (value : Loose) : Except Fault Range :=
  match value with
  | range found => .ok found
  | nothing => .error .rangeMissing
  | mapping fields =>
    match fields.lookup "start", fields.lookup "end" with
    | some start, some stop =>
      if start.isPresent && stop.isPresent then rangeBetween start stop
      else .error .mappingWithoutEndpoints
    | _, _ => .error .mappingWithoutEndpoints
  | sequence [start, stop] => rangeBetween start stop
  | sequence _ => .error .sequenceNotPair
  | record (some start) (some stop) =>
    if start.isPresent && stop.isPresent then rangeBetween start stop
    else .error (.notARange value.typeName)
  | span _ found => .ok found
  | other => .error (.notARange other.typeName)

/-- A truth value counts as zero or one where numbers are added or compared. -/
def asInteger? : Loose → Option Int
  | flag value => some (if value then 1 else 0)
  | integer value => some value
  | _ => none

def asDouble? : Loose → Option (Except Fault Float)
  | double value => some (.ok value)
  | value => value.asInteger?.map fun n =>
    match nearestDouble? n with
    | some x => .ok x
    | none => .error .sumTooLarge

/-- The sum of two numbers, or two texts, byte strings or sequences one behind the other. -/
def add (a b : Loose) : Except Fault Loose :=
  match a, b with
  | text s, text t => .ok (text (s ++ t))
  | bytes s, bytes t => .ok (bytes (s ++ t))
  | sequence s, sequence t => .ok (sequence (s ++ t))
  | a, b =>
    match a.asInteger?, b.asInteger? with
    | some m, some n => .ok (integer (m + n))
    | _, _ =>
      match a.asDouble?, b.asDouble? with
      | some x, some y => do
        let x ← x
        let y ← y
        return double (x + y)
      | _, _ => .error .notAddable

/-- The range that starts at one value and is as long as the other. -/
def rangeOfLength (start length : Loose) : Except Fault Range := do
  rangeBetween start (← start.add length)

/-- Whether a value is the given offset. Numbers of every sort are compared by what they are. -/
def isOffset (value : Loose) (offset : Nat) : Bool :=
  match value with
  | double x => (doubleValue x).isInteger offset
  | other => other.asInteger? == some (offset : Int)

/-- How many ends of a range a value is. -/
def countIn (value : Loose) (range : Range) : Nat := range.endpoints.countP value.isOffset

/-- Which end of a range a value is, the first when it is both. -/
def indexIn (value : Loose) (range : Range) : Except Fault Nat :=
  match range.endpoints.findIdx? value.isOffset with
  | some index => .ok index
  | none => .error .valueAbsent

end Loose
end SourceView
