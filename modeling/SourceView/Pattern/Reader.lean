import SourceView.Pattern.Syntax
import SourceView.Text.Quoted

/-! Reading patterns. A pattern is first divided into lexemes, a backslash being one lexeme with the
character behind it, and the lexemes are then read from left to right with a stack of the groups
that are still open. There are no back references and no looking back. -/
namespace SourceView.Pattern

inductive Flaw
  | misread (reason : String) (position : Nat)
  /-- A number of rounds that no text can reach. -/
  | tooManyRounds

/-- The smallest parts of a written pattern. -/
inductive Lexeme
  | plain (c : Char)
  | escaped (c : Char)
  /-- A backslash with nothing behind it. -/
  | dangling
  deriving DecidableEq

def Lexeme.written : Lexeme → List Char
  | plain c => [c]
  | escaped c => ['\\', c]
  | dangling => ['\\']

def lexemes (position : Nat) : List Char → List (Nat × Lexeme)
  | [] => []
  | ['\\'] => [(position, .dangling)]
  | '\\' :: c :: rest => (position, .escaped c) :: lexemes (position + 2) rest
  | c :: rest => (position, .plain c) :: lexemes (position + 1) rest

/-- What is left to be read of a pattern of the given length. -/
structure Unread where
  rest : List (Nat × Lexeme)
  length : Nat

abbrev Reader := StateT Unread (Except Flaw)

def failAt {α : Type} (reason : String) (position : Nat) : Reader α :=
  throw (.misread reason position)

/-- The position of the next lexeme, or the end of the pattern. -/
def here : Reader Nat := do
  let unread ← get
  return (unread.rest.head?.map (·.1)).getD unread.length

/-- Gives up a number of characters in front of the next lexeme. -/
def failBack {α : Type} (reason : String) (back : Nat) : Reader α := do
  failAt reason ((← here) - back)

/-- A lone backslash at the end is refused as soon as it is the next lexeme. -/
def refuseDangling : Reader Unit := do
  match (← get).rest with
  | (position, .dangling) :: _ => failAt "bad escape (end of pattern)" position
  | _ => return ()

def take? : Reader (Option Lexeme) := do
  let unread ← get
  match unread.rest with
  | [] => return none
  | (_, lexeme) :: rest =>
    set { unread with rest }
    refuseDangling
    return some lexeme

/-- The next lexeme, which is not taken. -/
def peek? : Reader (Option Lexeme) := do
  return (← get).rest.head?.map (·.2)

def takeIf (c : Char) : Reader Bool := do
  if (← peek?) == some (.plain c) then
    let _ ← take?
    return true
  else return false

/-- Takes characters that pass a test, up to a number of them. -/
def takeWhile (test : Char → Bool) : Nat → Reader (List Char)
  | 0 => return []
  | count + 1 => do
    match ← peek? with
    | some (.plain c) =>
      if test c then
        let _ ← take?
        return c :: (← takeWhile test count)
      else return []
    | _ => return []

/-- Takes what stands in front of a closing character, and that character. -/
def takeUntil (closing : Char) (what : String) : (fuel : Nat) → List Char → Reader (List Char)
  | 0, found => return found
  | fuel + 1, found => do
    match ← take? with
    | none =>
      if found.isEmpty then failBack ("missing " ++ what) 0
      else failBack ("missing " ++ String.singleton closing ++ ", unterminated name") found.length
    | some lexeme =>
      if lexeme == .plain closing then
        if found.isEmpty then failBack ("missing " ++ what) 1 else return found
      else takeUntil closing what fuel (found ++ lexeme.written)

def hexValue? (c : Char) : Option Nat :=
  if c.isDigit then some (c.toNat - '0'.toNat)
  else if 'a' ≤ c ∧ c ≤ 'f' then some (c.toNat - 'a'.toNat + 10)
  else if 'A' ≤ c ∧ c ≤ 'F' then some (c.toNat - 'A'.toNat + 10)
  else none

/-- The number that digits of some base stand for. -/
def number (base : Nat) (digits : List Char) : Nat :=
  digits.foldl (fun total c => base * total + (hexValue? c).getD 0) 0

def isOctal (c : Char) : Bool := '0' ≤ c && c ≤ '7'

def badEscape {α : Type} (written : List Char) : Reader α :=
  failBack ("bad escape " ++ String.ofList written) written.length

/-- Escaped letters that stand for a control character, and the backslash for itself. -/
def controlCode? : Char → Option Nat
  | 'a' => some 7
  | 'b' => some 8
  | 't' => some 9
  | 'n' => some 10
  | 'v' => some 11
  | 'f' => some 12
  | 'r' => some 13
  | '\\' => some 92
  | _ => none

/-- Escaped letters that stand for a class of characters. -/
def kindItem? : Char → Option CharItem
  | 'd' => some (.kind .digit false)
  | 'D' => some (.kind .digit true)
  | 's' => some (.kind .blank false)
  | 'S' => some (.kind .blank true)
  | 'w' => some (.kind .word false)
  | 'W' => some (.kind .word true)
  | _ => none

/-- Escaped letters that stand for a condition on a position. -/
def escapedEdge? : Char → Option Edge
  | 'A' => some .textStart
  | 'Z' => some .textEnd
  | 'b' => some .wordEdge
  | 'B' => some .insideWord
  | _ => none

/-- How many hexadecimal digits follow an escaped letter. -/
def hexWidth? : Char → Option Nat
  | 'x' => some 2
  | 'u' => some 4
  | 'U' => some 8
  | _ => none

/-- The code point that an escaped letter and a number of hexadecimal digits stand for. -/
def readHex (letter : Char) (width : Nat) : Reader CharItem := do
  let digits ← takeWhile (hexValue? · |>.isSome) width
  let written := '\\' :: letter :: digits
  if digits.length < width then
    failBack ("incomplete escape " ++ String.ofList written) written.length
  let n := number 16 digits
  if 0x10FFFF < n then badEscape written else return .code n

/-- The code point that octal digits stand for, the first of them being given. -/
def readOctal (first : Char) : Reader CharItem := do
  let digits := first :: (← takeWhile isOctal 2)
  let n := number 8 digits
  if 0o377 < n then
    failBack ("octal escape value \\" ++ String.ofList digits ++ " outside of range 0-0o377")
      (digits.length + 1)
  else return .code n

/-- What an escaped character stands for in a set. -/
def readSetEscape (c : Char) : Reader CharItem := do
  match controlCode? c, kindItem? c, hexWidth? c with
  | some n, _, _ => return .code n
  | _, some item, _ => return item
  | _, _, some width => readHex c width
  | _, _, _ =>
    if isOctal c then readOctal c
    else if c.isDigit || c.isAlpha then badEscape ['\\', c]
    else return .code c.toNat

/-- A number behind a backslash: three octal digits name a code point, and anything else would have
to refer to a group. -/
def readReference (first : Char) : Reader CharItem := do
  let second ← takeWhile Char.isDigit 1
  let third ← if second.all isOctal && isOctal first && !second.isEmpty then takeWhile isOctal 1
    else pure []
  let digits := first :: second ++ third
  if third.isEmpty then
    failBack ("invalid group reference " ++ toString (number 10 digits)) digits.length
  else
    let n := number 8 digits
    if 0o377 < n then
      failBack ("octal escape value \\" ++ String.ofList digits ++ " outside of range 0-0o377")
        (digits.length + 1)
    else return .code n

/-- What an escaped character stands for outside of sets. -/
def readEscape (flags : Flags) (c : Char) : Reader Node := do
  let char (item : CharItem) : Node := .char { items := [item], anyCase := flags.anyCase }
  match escapedEdge? c, kindItem? c, controlCode? c, hexWidth? c with
  | some edge, _, _, _ => return .edge edge
  | _, some item, _, _ => return char item
  | _, _, some n, _ => return char (.code n)
  | _, _, _, some width => return char (← readHex c width)
  | _, _, _, _ =>
    if c == '0' then return char (← readOctal c)
    else if c.isDigit then return char (← readReference c)
    else if c.isAlpha then badEscape ['\\', c]
    else return char (.code c.toNat)

def readSetItem : Lexeme → Reader CharItem
  | .escaped c => readSetEscape c
  | .plain c => return .code c.toNat
  | .dangling => return .code '\\'.toNat

/-- The range between two items, which have to name single code points in order. -/
def readSetRange (first last : Lexeme) (low high : CharItem) : Reader CharItem :=
  let refuse :=
    let written := first.written ++ '-' :: last.written
    failBack ("bad character range " ++ String.ofList written) written.length
  match low, high with
  | .code low, .code high => if high < low then refuse else return .range low high
  | _, _ => refuse

/-- The rest of a set that begins at `start`. A closing bracket directly at its beginning is an
ordinary character. -/
def readSetItems (start : Nat) : (fuel : Nat) → List CharItem → Reader (List CharItem)
  | 0, items => return items
  | fuel + 1, items => do
    match ← take? with
    | none => failAt "unterminated character set" start
    | some first =>
      if first == .plain ']' && !items.isEmpty then return items
      let low ← readSetItem first
      if ← takeIf '-' then
        match ← take? with
        | none => failAt "unterminated character set" start
        | some last =>
          if last == .plain ']' then return items ++ [low, .code '-'.toNat]
          let high ← readSetItem last
          readSetItems start fuel (items ++ [← readSetRange first last low high])
      else readSetItems start fuel (items ++ [low])

/-- The set whose opening bracket was at `start`. -/
def readSet (flags : Flags) (start : Nat) : Reader Node := do
  let negated ← takeIf '^'
  let items ← readSetItems start ((← get).rest.length + 1) []
  return .char { items, negated, anyCase := flags.anyCase }

/-- More rounds than a repetition may ask for. -/
def roundLimit : Nat := 4294967295

def readRounds : Reader (Option Nat) := do
  let digits ← takeWhile Char.isDigit (← get).rest.length
  if digits.isEmpty then return none else return some (number 10 digits)

/-- The bounds of a repetition in braces, whose opening brace has been taken. What does not have the
form of bounds is left unread. -/
def readBounds? : Reader (Option (Nat × Option Nat)) := do
  let unread ← get
  let start ← here
  if (← peek?) == some (.plain '}') then return none
  let least? ← readRounds
  let most? ← if ← takeIf ',' then readRounds else pure least?
  if ← takeIf '}' then
    if least?.any (roundLimit ≤ ·) || most?.any (roundLimit ≤ ·) then throw .tooManyRounds
    let least := least?.getD 0
    if most?.any (· < least) then failAt "min repeat greater than max repeat" start
    return some (least, most?)
  else
    set unread
    return none

/-- The bounds that a lexeme asks for, if it asks for a repetition. -/
def repetition? : Lexeme → Reader (Option (Nat × Option Nat))
  | .plain '*' => return some (0, none)
  | .plain '+' => return some (1, none)
  | .plain '?' => return some (0, some 1)
  | .plain '{' => readBounds?
  | _ => return none

/-- Repeats the last of the items read so far, which come last first. Conditions on positions cannot
be repeated, and neither can repetitions. -/
def repeatLast (position least : Nat) (most : Option Nat) : List Node → Reader (List Node)
  | [] => failAt "nothing to repeat" position
  | .edge _ :: _ => failAt "nothing to repeat" position
  | .repetition .. :: _ => failAt "multiple repeat" position
  | .atomic (.repetition ..) :: _ => failAt "multiple repeat" position
  | body :: items => do
    if ← takeIf '?' then return .repetition body least most false :: items
    else if ← takeIf '+' then return .atomic (.repetition body least most true) :: items
    else return .repetition body least most true :: items

/-- What a group does with its body. -/
inductive Bracket
  | plain
  | look (wanted : Bool)
  | atomic

def Bracket.node (bracket : Bracket) (body : Node) : Node :=
  match bracket with
  | plain => .group body
  | look wanted => .look body wanted
  | atomic => .atomic (.group body)

/-- An open group: where it began, and what had been read outside of it. -/
structure Level where
  bracket : Bracket
  start : Nat
  choices : List Node
  items : List Node

/-- What stands behind an opening parenthesis. -/
inductive Opening
  | group (bracket : Bracket)
  | flags (flags : Flags)

def addFlag? (flags : Flags) : Char → Option Flags
  | 'i' => some { flags with anyCase := true }
  | 'm' => some { flags with multiline := true }
  | 's' => some { flags with dotAll := true }
  | 'u' => some flags
  | _ => none

/-- The rest of a group of flags, which hold for the whole pattern. -/
def readFlags : (fuel : Nat) → Flags → Reader Flags
  | 0, flags => return flags
  | fuel + 1, flags => do
    match ← take? with
    | none => failBack "missing -, : or )" 0
    | some (.plain ')') => return flags
    | some (.plain c) =>
      match addFlag? flags c with
      | some more => readFlags fuel more
      | none =>
        failBack (if Text.isAlphanumeric c && !Text.isDigit c then "unknown flag"
          else "missing -, : or )") 1
    | some other => failBack "missing -, : or )" other.written.length

def isGroupName (name : List Char) : Bool :=
  name.all Text.isWordChar && !name.head?.any Text.isDigit

/-- What kind of group begins here, the parenthesis having been taken. -/
def readOpening (flags : Flags) : Reader Opening := do
  let unknown (written : List Char) : Reader Opening :=
    failBack ("unknown extension ?" ++ String.ofList written) (written.length + 1)
  let unknownBehind (letter : Char) : Reader Opening := do
    match ← take? with
    | none => failBack "unexpected end of pattern" 0
    | some other => unknown (letter :: other.written)
  unless ← takeIf '?' do return .group .plain
  match ← take? with
  | none => failBack "unexpected end of pattern" 0
  | some (.plain ':') => return .group .plain
  | some (.plain '=') => return .group (.look true)
  | some (.plain '!') => return .group (.look false)
  | some (.plain '>') => return .group .atomic
  | some (.plain 'P') =>
    if ← takeIf '<' then
      let name ← takeUntil '>' "group name" ((← get).rest.length + 1) []
      unless isGroupName name do
        failBack ("bad character in group name " ++ String.ofList (Text.quote name))
          (name.length + 1)
      return .group .plain
    unknownBehind 'P'
  | some (.plain '<') => unknownBehind '<'
  | some (.plain c) =>
    match addFlag? flags c with
    | some more => return .flags (← readFlags ((← get).rest.length + 1) more)
    | none => unknown [c]
  | some other => unknown other.written

/-- The tree of alternatives that were read last first. -/
def closeLevel (choices items : List Node) : Node :=
  .ofChoices (.ofSequence items.reverse :: choices).reverse

/-- The node of a character that is neither a parenthesis nor a bar. -/
def readChar (flags : Flags) (position : Nat) (lexeme : Lexeme) : Reader Node :=
  match lexeme with
  | .escaped c => readEscape flags c
  | .plain '[' => readSet flags position
  | .plain '.' =>
    return .char { items := if flags.dotAll then [] else [.code '\n'.toNat], negated := true }
  | .plain '^' => return .edge (if flags.multiline then .lineStart else .textStart)
  | .plain '$' => return .edge (if flags.multiline then .lineEnd else .lastLineEnd)
  | other =>
    return .char
      { items := other.written.map fun c => .code c.toNat, anyCase := flags.anyCase }

/-- Reads the rest of a pattern. Alternatives and items are collected last first. -/
def readNodes : (fuel : Nat) → Flags → List Level → (choices items : List Node) → Reader Node
  | 0, _, _, choices, items => return closeLevel choices items
  | fuel + 1, flags, levels, choices, items => do
    let position ← here
    match ← peek?, levels with
    | none, [] => return closeLevel choices items
    | none, level :: _ => failAt "missing ), unterminated subpattern" level.start
    | some (.plain '|'), _ =>
      let _ ← take?
      readNodes fuel flags levels (.ofSequence items.reverse :: choices) []
    | some (.plain ')'), [] => failAt "unbalanced parenthesis" position
    | some (.plain ')'), level :: outer =>
      let _ ← take?
      readNodes fuel flags outer level.choices
        (level.bracket.node (closeLevel choices items) :: level.items)
    | some (.plain '('), _ =>
      let _ ← take?
      match ← readOpening flags with
      | .group bracket => readNodes fuel flags (⟨bracket, position, choices, items⟩ :: levels) [] []
      | .flags more =>
        unless levels.isEmpty && choices.isEmpty && items.isEmpty do
          failAt "global flags not at the start of the expression" position
        readNodes fuel more levels choices items
    | some lexeme, _ =>
      let _ ← take?
      match ← repetition? lexeme with
      | some (least, most) =>
        readNodes fuel flags levels choices (← repeatLast position least most items)
      | none => readNodes fuel flags levels choices ((← readChar flags position lexeme) :: items)

def readAll (flags : Flags) : Reader Node := do
  refuseDangling
  readNodes ((← get).rest.length + 1) flags [] [] []

def read (written : List Char) (flags : Flags) : Except Flaw Node := do
  let (node, _) ← (readAll flags).run ⟨lexemes 0 written, written.length⟩
  return node

/-- A flaw as messages describe it. In a pattern of several lines the line and the column are given
as well, both counted from one. -/
def Flaw.describe (written : List Char) : Flaw → String
  | misread reason position =>
    let before := written.take position
    let line := before.count '\n' + 1
    let column := (before.reverse.takeWhile (· != '\n')).length + 1
    reason ++ " at position " ++ toString position
      ++ (if written.contains '\n' then
        " (line " ++ toString line ++ ", column " ++ toString column ++ ")" else "")
  | tooManyRounds => "the repetition number is too large"

end SourceView.Pattern
