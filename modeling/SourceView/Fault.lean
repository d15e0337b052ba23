import SourceView.Report
import SourceView.Text.Quoted

/-! The causes for which an operation refuses its input, each with what it refuses. A cause that
stems from a misuse of the library has a report; the others have at most a short text. -/
namespace SourceView

/-- Why an operation refuses its input. -/
inductive Fault
  /-- A range endpoint is nothing that stands for an integer. -/
  | endpointNotInteger (label : String)
  /-- A range endpoint is an infinite number. -/
  | endpointInfinite
  | endpointNegative (label : String) (value : Int)
  | rangeReversed (start stop : Nat)
  | rangeMissing
  | mappingWithoutEndpoints
  | sequenceNotPair
  | notARange (typeName : String)
  /-- Two values cannot be added. -/
  | notAddable
  /-- An integer is too large to be added to a floating number. -/
  | sumTooLarge
  /-- A value is no endpoint of a range. -/
  | valueAbsent
  | rangePositionOutside
  | textPositionOutside
  | zeroStep
  | offsetOutside (label : String) (offset length : Int)
  | spanNegative (start : Int)
  | spanReversed (source : String) (start stop : Int)
  | sliceOutsideSpan (start stop : Int) (length : Nat)
  | spanBeyondSource (source : String) (start stop length : Nat)
  | spanEndBeyondSource (source : String) (stop : Int) (length : Nat)
  /-- A source was asked for the text of another one. -/
  | wrongSource (own asked : String)
  | unknownSource (source : String)
  /-- A token's text has another length than its span. -/
  | textDoesNotFit (length : Nat) (span : String)
  | separatorNotBlank (given : String)
  | hullOfNothing
  | exclusionNegative (start : Int)
  | exclusionReversed (start stop : Int)
  | exclusionBeyondText (start stop : Nat) (length : Int)
  | exclusionsOverlap (previousStart previousStop start stop : Nat)
  /-- No token tells where in the source a marker belongs. -/
  | noAnchor
  | noSourcePosition
  | notOneSource (sources : List String)
  | nothingToJoin
  | mixedDomains (domains : List String)
  | unknownDomain (name : String)
  | spanRequired
  | invalidPattern (pattern reason : String)
  /-- A pattern asks for more rounds of a repetition than can be counted. -/
  | tooManyRounds
  /-- A report was given fields that it cannot have, or not those it needs. -/
  | wrongFields
  | unknownEncoding (name : String)
  /-- The bytes from this position on are not well formed. -/
  | malformedBytes (start : Nat)
  | fileMissing (path : String)
  /-- Nobody of this name has a home folder. -/
  | homeUnknown (name : String)
  /-- A folder is wanted where a file stands. -/
  | fileInPlace (path : String)
  /-- A path leads through a file. -/
  | fileOnTheWay (path : String)
  /-- A file is wanted where a folder stands. -/
  | folderInPlace (path : String)
  deriving DecidableEq

namespace Fault

def endpoints (start stop : Int) : Detail :=
  .record [("start", .number start), ("end", .number stop)]

/-- Two offsets as they are written for a half-open stretch of text. -/
def stretch (start stop : Int) : String := "[" ++ toString start ++ ", " ++ toString stop ++ ")"

def rangeText (start stop : Nat) : String :=
  "TextRange(" ++ toString start ++ ", " ++ toString stop ++ ")"

/-- The report of a misuse; causes outside the library's own contract have none. -/
def report? : Fault → Option Report
  | endpointNotInteger label => some (.invalid ("TextRange " ++ label ++ " must be an integer"))
  | endpointNegative label value => some <|
      .outside ("TextRange " ++ label ++ " must not be negative, got " ++ toString value) value
  | rangeReversed start stop => some <|
      .invalid ("TextRange start " ++ toString start ++ " exceeds end " ++ toString stop)
        [("start", .number start), ("end", .number stop)]
  | rangeMissing => some (.invalid "TextRange value is required")
  | mappingWithoutEndpoints => some (.invalid "TextRange mappings require start and end keys")
  | sequenceNotPair => some (.invalid "TextRange sequences must have exactly two entries")
  | notARange typeName => some (.invalid ("Unsupported TextRange input: " ++ typeName))
  | offsetOutside label offset length => some <|
      .outside (label ++ " " ++ toString offset ++ " is outside [0, " ++ toString length ++ "]")
        offset (some length)
  | spanNegative start => some <|
      .outside ("Span start " ++ toString start ++ " is negative") start
  | spanReversed source start stop => some <|
      .invalid ("Malformed span " ++ stretch start stop ++ " in " ++ Text.quoted source)
        [("source_id", .text source), ("start", .number start), ("end", .number stop)]
  | sliceOutsideSpan start stop length => some <|
      .invalid ("Cannot slice " ++ stretch start stop ++ " from a span of length "
        ++ toString length)
  | spanBeyondSource source start stop length => some <|
      .outside ("Span " ++ stretch start stop ++ " exceeds source " ++ Text.quoted source
        ++ " of length " ++ toString length) stop (some length)
  | spanEndBeyondSource source stop length => some <|
      .outside ("Span end " ++ toString stop ++ " exceeds source " ++ Text.quoted source)
        stop (some length)
  | wrongSource own asked => some <|
      .invalid ("Source " ++ Text.quoted own ++ " cannot serve " ++ Text.quoted asked)
        [("source_id", .text asked)]
  | unknownSource source => some <|
      .invalid ("Unknown source " ++ Text.quoted source) [("source_id", .text source)]
  | textDoesNotFit length span => some <|
      .invalid ("Token text of length " ++ toString length ++ " does not fit " ++ span)
  | separatorNotBlank given => some <|
      .invalid ("Separator must be one whitespace character, got " ++ Text.quoted given)
  | hullOfNothing => some (.invalid "Cannot compute the hull of no spans")
  | exclusionNegative start => some <|
      .outside ("Exclusion start " ++ toString start ++ " is negative") start
  | exclusionReversed start stop => some <|
      .invalid ("Malformed exclusion " ++ stretch start stop)
        [("start", .number start), ("end", .number stop)]
  | exclusionBeyondText start stop length => some <|
      .outside ("Exclusion " ++ stretch start stop ++ " exceeds content length "
        ++ toString length) stop (some length)
  | exclusionsOverlap previousStart previousStop start stop => some <|
      .invalid ("Exclusions " ++ rangeText previousStart previousStop ++ " and "
        ++ rangeText start stop ++ " overlap or are unsorted")
        [("previous", endpoints previousStart previousStop), ("current", endpoints start stop)]
  | noAnchor => some (.invalid "Content has no source position to anchor a marker")
  | noSourcePosition => some (.invalid "Content has no source position")
  | notOneSource sources => some <|
      .invalid "A text content must be backed by exactly one source"
        [("sources", .list (sources.map .text))]
  | nothingToJoin => some (.invalid "Cannot join an empty list of contents")
  | mixedDomains domains => some <|
      .invalid "Cannot join contents from different text domains"
        [("domains", .list (domains.map .text))]
  | spanRequired => some (.invalid "A span is required for this source provider")
  | invalidPattern pattern reason => some <|
      .invalid ("Invalid pattern " ++ Text.quoted pattern ++ ": " ++ reason)
        [("pattern", .text pattern)]
  | _ => none

/-- The text that goes with a cause that has no report. -/
def remark : Fault → String
  | endpointInfinite => "cannot convert float infinity to integer"
  | sumTooLarge => "int too large to convert to float"
  | tooManyRounds => "the repetition number is too large"
  | rangePositionOutside => "TextRange index out of range"
  | textPositionOutside => "string index out of range"
  | zeroStep => "slice step cannot be zero"
  | unknownDomain name => Text.quoted name ++ " is not a valid TextDomain"
  | unknownEncoding name => "unknown encoding " ++ Text.quoted name
  | malformedBytes start => "malformed bytes at position " ++ toString start
  | fileMissing path => "nothing stands at " ++ Text.quoted path
  | homeUnknown name => "no home folder is known for " ++ Text.quoted name
  | fileInPlace path => "a file stands at " ++ Text.quoted path
  | fileOnTheWay path => "a file is in the way to " ++ Text.quoted path
  | folderInPlace path => "a folder stands at " ++ Text.quoted path
  | _ => ""

/-- What is shown to people for a cause. -/
def line (fault : Fault) : String := (fault.report?.map Report.line).getD fault.remark

end Fault

/-- Two steps give a result when the first one gives something from which the second one goes on. -/
theorem bind_eq_ok_iff {α β : Type} {first : Except Fault α} {next : α → Except Fault β} {result : β} :
    first >>= next = .ok result ↔ ∃ value, first = .ok value ∧ next value = .ok result := by
  constructor
  · intro h
    cases first with
    | error fault => cases h
    | ok value => exact ⟨value, rfl, h⟩
  · rintro ⟨value, rfl, h⟩
    exact h

/-- An offset that lies in `[0, length]`; another one is refused under the given label. -/
def checkOffset (offset length : Int) (label : String := "offset") : Except Fault Int :=
  if offset < 0 ∨ length < offset then .error (.offsetOutside label offset length)
  else .ok offset

/-- An offset passes exactly when it is not negative and does not exceed the length. -/
theorem checkOffset_eq_ok_iff {offset length result : Int} {label : String} :
    checkOffset offset length label = .ok result ↔
      0 ≤ offset ∧ offset ≤ length ∧ result = offset := by
  unfold checkOffset
  split
  · simp; omega
  · simp only [Except.ok.injEq]
    omega

end SourceView
