import SourceView.Text.Alphanumeric
import SourceView.Text.Blank
import SourceView.Text.Case
import SourceView.Text.Digit

/-! The syntax of patterns. A pattern describes stretches of text; what it describes is fixed by the
tree below and not by how it was written. -/
namespace SourceView.Pattern

/-- Classes of characters that have a name of one letter. -/
inductive CharKind
  | digit
  | blank
  | word
  deriving DecidableEq

def CharKind.holds : CharKind → Char → Bool
  | digit => Text.isDigit
  | blank => Text.isBlank
  | word => Text.isWordChar

/-- One part of a set of characters. Code points are numbers here, since a pattern may name one that
no character has. -/
inductive CharItem
  | code (n : Nat)
  | range (low high : Nat)
  | kind (kind : CharKind) (negated : Bool)
  deriving DecidableEq

def CharItem.names (item : CharItem) (n : Nat) : Bool :=
  match item with
  | code m => n == m
  | range low high => low ≤ n && n ≤ high
  | kind .. => false

/-- Whether a character belongs to an item. Without regard to case it does when some variant of the
same letter is named. -/
def CharItem.holds (anyCase : Bool) (c : Char) (item : CharItem) : Bool :=
  match item with
  | kind k negated => k.holds c != negated
  | named =>
    named.names c.toNat || (anyCase && (Text.caseVariants c.toNat).any named.names)

/-- A set of characters: those that belong to some item, or all others. -/
structure CharSet where
  items : List CharItem
  negated : Bool := false
  anyCase : Bool := false

def CharSet.holds (set : CharSet) (c : Char) : Bool :=
  set.items.any (·.holds set.anyCase c) != set.negated

/-- Conditions on a position between two characters. -/
inductive Edge
  | textStart
  | textEnd
  /-- The end of the text, or the place in front of a line feed that ends it. -/
  | lastLineEnd
  | lineStart
  | lineEnd
  | wordEdge
  | insideWord
  deriving DecidableEq

inductive Node
  /-- Describes the empty stretch. -/
  | empty
  | char (set : CharSet)
  | edge (edge : Edge)
  | sequence (first second : Node)
  /-- The first alternative is preferred. -/
  | choice (first second : Node)
  /-- A repetition prefers many rounds when it is greedy and few when it is not. -/
  | repetition (body : Node) (least : Nat) (most : Option Nat) (greedy : Bool)
  | group (body : Node)
  /-- Looks whether the body does or does not fit here without taking anything. -/
  | look (body : Node) (wanted : Bool)
  /-- Takes the preferred stretch of its body and none of the others. -/
  | atomic (body : Node)

def Node.ofSequence : List Node → Node
  | [] => .empty
  | [node] => node
  | node :: rest => .sequence node (ofSequence rest)

/-- The nodes as alternatives, the preferred ones first. -/
def Node.ofChoices : List Node → Node
  | [] => .empty
  | [node] => node
  | node :: rest => .choice node (ofChoices rest)

/-- How letters, line ends and the dot are taken. -/
structure Flags where
  anyCase : Bool := false
  multiline : Bool := false
  dotAll : Bool := false
  deriving DecidableEq

end SourceView.Pattern
