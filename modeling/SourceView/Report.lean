/-! Reports describe a misuse of the library to a caller that collects failures instead of stopping
at the first one: a code for programs, a message for people, and structured details. -/
namespace SourceView

/-- A structured value in a report. The fields of a record keep their order. -/
inductive Detail
  | null
  | flag (value : Bool)
  | number (value : Int)
  | text (value : String)
  | list (items : List Detail)
  | record (fields : List (String × Detail))
  deriving Inhabited

/-- What sort of misuse a report describes. Only the last sort speaks of an offset. -/
inductive Misuse
  | general
  | invalidArgument
  | outOfRange
  deriving DecidableEq

/-- The code that a report of this sort carries unless it is given another one. A general report
has no code of its own. -/
def Misuse.code? : Misuse → Option String
  | general => none
  | invalidArgument => some "invalid_argument"
  | outOfRange => some "out_of_range"

/-- The message of a report that is given none. A general report has no message of its own. -/
def Misuse.message? : Misuse → Option String
  | general => none
  | invalidArgument => some "Invalid argument"
  | outOfRange => some "Offset is out of range"

/-- A description of one misuse. The offset is the position that was refused and the length that
of the text it was refused for. -/
structure Report where
  misuse : Misuse
  code : String
  message : String
  details : List (String × Detail)
  offset : Option Int
  length : Option Int

namespace Report

def invalid (message : String) (details : List (String × Detail) := []) : Report :=
  ⟨.invalidArgument, "invalid_argument", message, details, none, none⟩

def outside (message : String) (offset : Int) (length : Option Int := none) : Report :=
  ⟨.outOfRange, "out_of_range", message, [], some offset, length⟩

/-- The line shown to people: the code in brackets, then the message. -/
def line (report : Report) : String := "[" ++ report.code ++ "] " ++ report.message

/-- The fields of the report as a record. Empty details and missing numbers are left out. -/
def fields (report : Report) : List (String × Detail) :=
  [("error", .text report.code), ("message", .text report.message)]
    ++ (if report.details.isEmpty then [] else [("details", .record report.details)])
    ++ (report.offset.map fun n => ("offset", Detail.number n)).toList
    ++ (report.length.map fun n => ("length", Detail.number n)).toList

/-- An unusable argument is a fault of a value. -/
def isValueFault (report : Report) : Bool := report.misuse == .invalidArgument

/-- A position outside a text is a fault of an index. -/
def isIndexFault (report : Report) : Bool := report.misuse == .outOfRange

def fieldNames : Misuse → List String
  | .outOfRange => ["error_code", "message", "details", "offset", "length"]
  | _ => ["error_code", "message", "details"]

def textField (given : List (String × Detail)) (name : String) (default? : Option String) :
    Option String :=
  match given.lookup name with
  | none => default?
  | some (.text value) => some value
  | some _ => none

/-- The number in a field. A missing field and a null both stand for no number. -/
def numberField (given : List (String × Detail)) (name : String) : Option (Option Int) :=
  match given.lookup name with
  | none | some .null => some none
  | some (.number value) => some (some value)
  | some _ => none

/-- The record in a field. A missing field and a null both stand for no details. -/
def recordField (given : List (String × Detail)) (name : String) :
    Option (List (String × Detail)) :=
  match given.lookup name with
  | none | some .null => some []
  | some (.record value) => some value
  | some _ => none

/-- The report with the given fields. A field that the sort does not have is refused, and so is a
missing code or message where the sort has none of its own. -/
def ofFields? (misuse : Misuse) (given : List (String × Detail)) : Option Report := do
  guard (given.all fun field => (fieldNames misuse).contains field.1)
  let code ← textField given "error_code" misuse.code?
  let message ← textField given "message" misuse.message?
  let details ← recordField given "details"
  let offset ← numberField given "offset"
  let length ← numberField given "length"
  return ⟨misuse, code, message, details, offset, length⟩

end Report
end SourceView
