import SourceView.Text.Digit

/-! Options of an inspection, and how they are read from the arguments of a command. An option is
named in full or by a beginning of its name that no other option shares. Its value stands behind an
equals sign or is the next argument. An argument that looks like an option is never the value of
another one, but neither a negative number nor an unknown name with a space in it looks like an
option. -/
namespace SourceView.Inspect

/-- What an inspection is asked for. -/
structure Options where
  file? : Option String := none
  text : String := ""
  excluded : List String := []
  unknown : List String := []
  indentChars : String := ""
  marker : String := "|"
  offsets : Bool := false
  verbose : Bool := false
  deriving DecidableEq

/-- An option that takes a value. -/
inductive Setting
  | file
  | text
  | exclude
  | unknown
  | indentChars
  | marker
  deriving DecidableEq

/-- An option that takes no value. -/
inductive Switch
  | help
  | offsets
  | verbose
  deriving DecidableEq

/-- An argument, looked at on its own. -/
inductive Argument
  /-- Not the name of an option, so it can only be a value. -/
  | plain (text : String)
  /-- Two dashes. All arguments behind them are plain. -/
  | divider
  /-- An option with the value behind its equals sign, if it has one. -/
  | setting (setting : Setting) (given? : Option String)
  | switch (switch : Switch) (given? : Option String)
  /-- Several letters behind one dash, of which the first one asks for help. -/
  | letters (rest : List Char)
  /-- It looks like an option but is none. -/
  | stranger
  /-- The beginning of the names of several options. -/
  | ambiguous
  deriving DecidableEq

inductive Request
  | inspection (options : Options)
  | help
  /-- The arguments cannot be understood. -/
  | misuse
  deriving DecidableEq

namespace Argument

/-- The names of the options, each with what it makes of the value behind an equals sign. -/
def names : List (String × (Option String → Argument)) :=
  [("--help", switch .help), ("--file", setting .file), ("--text", setting .text),
    ("--exclude", setting .exclude), ("--unknown", setting .unknown),
    ("--indent-chars", setting .indentChars), ("--marker", setting .marker),
    ("--offsets", switch .offsets), ("--verbose", switch .verbose)]

/-- An argument as a name and what stands behind its first equals sign. -/
def divide (text : String) : String × Option String :=
  match text.toList.span (· ≠ '=') with
  | (name, []) => (String.ofList name, none)
  | (name, _ :: given) => (String.ofList name, some (String.ofList given))

/-- Whether an argument is a dash and a number, with or without a point. One line feed may follow.
-/
def isNegativeNumber (text : List Char) : Bool :=
  match text with
  | '-' :: rest =>
    let rest := if rest.getLast? = some '\n' then rest.dropLast else rest
    match rest.span Text.isDigit with
    | (whole, []) => !whole.isEmpty
    | (_, '.' :: places) => !places.isEmpty && places.all Text.isDigit
    | _ => false
  | _ => false

/-- An argument that begins with a dash and names no option. -/
def ofUnknownName (text : String) : Argument :=
  if isNegativeNumber text.toList || text.toList.contains ' ' then plain text else stranger

/-- An argument that begins with two dashes and goes on. -/
def ofLongName (text : String) : Argument :=
  let (name, given?) := divide text
  match names.lookup name with
  | some make => make given?
  | none =>
    match names.filter (·.1.startsWith name) with
    | [] => ofUnknownName text
    | [(_, make)] => make given?
    | _ => ambiguous

/-- An argument that is not the divider and has no divider in front of it. -/
def ofText (text : String) : Argument :=
  match text.toList with
  | '-' :: '-' :: _ => ofLongName text
  | ['-', 'h'] => switch .help none
  | '-' :: 'h' :: rest => letters rest
  | ['-'] => plain text
  | '-' :: _ => ofUnknownName text
  | _ => plain text

/-- The arguments of a command, each looked at on its own. -/
def ofTexts : List String → List Argument
  | [] => []
  | text :: rest =>
    if text == "--" then divider :: rest.map plain else ofText text :: ofTexts rest

example : ofText "--indent=a=b" = setting .indentChars (some "a=b") := by decide +kernel
example : ofText "-.5" = plain "-.5" := by decide +kernel
example : ofText "-5.x" = stranger := by decide +kernel
example : ofText "--=x" = ambiguous := by decide +kernel

end Argument

namespace Options

/-- Sets an option to a value. Patterns gather; of other values the last one counts. -/
def set (options : Options) (setting : Setting) (value : String) : Options :=
  match setting with
  | .file => { options with file? := some value }
  | .text => { options with text := value }
  | .exclude => { options with excluded := options.excluded ++ [value] }
  | .unknown => { options with unknown := options.unknown ++ [value] }
  | .indentChars => { options with indentChars := value }
  | .marker => { options with marker := value }

/-- What letters behind the one that asks for help make of a command. Further ones like it change
nothing, and an unknown letter comes too late. -/
def ofLetters (letters : List Char) : Request :=
  match letters.dropWhile (· == 'h') with
  | '=' :: _ | '-' :: _ => .misuse
  | _ => .help

/-- Reads arguments from left to right. Asking for help ends the reading, and so does an option that
lacks its value or has one that it does not take. Arguments that are left over only count at the
end. -/
def ofArguments (options : Options) (leftOver : Bool) : List Argument → Request
  | [] => if leftOver then .misuse else .inspection options
  | .setting setting (some value) :: rest => ofArguments (options.set setting value) leftOver rest
  | .setting setting none :: .plain value :: rest =>
    ofArguments (options.set setting value) leftOver rest
  | .setting _ none :: _ => .misuse
  | .switch _ (some _) :: _ => .misuse
  | .switch .help none :: _ => .help
  | .switch .offsets none :: rest => ofArguments { options with offsets := true } leftOver rest
  | .switch .verbose none :: rest => ofArguments { options with verbose := true } leftOver rest
  | .letters letters :: _ => ofLetters letters
  | _ :: rest => ofArguments options true rest

/-- Reads the arguments of a command. A name that is ambiguous is refused before anything else. -/
def read (texts : List String) : Request :=
  let arguments := Argument.ofTexts texts
  if arguments.contains .ambiguous then .misuse else ofArguments {} false arguments

/-- What the command line shows to those who ask for help or misuse it. -/
def usage : String :=
  "usage: textcontent-inspect [-h] [--file FILE] [--text TEXT] [--exclude REGEX] "
    ++ "[--unknown REGEX] [--indent-chars CHARS] [--marker MARKER] [--offsets] [--verbose]"

end Options
end SourceView.Inspect
