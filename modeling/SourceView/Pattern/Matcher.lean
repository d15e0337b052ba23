import SourceView.Pattern.Syntax
import SourceView.Range

/-! Searching a text for a pattern. At each position the alternatives are tried in the order of
preference until what follows fits as well. Positions carry the proof that they lie between the
start of the attempt and the end of the text, so what is found lies inside the text. -/
namespace SourceView

/-- A range of a text of the given length. -/
structure Match (length : Nat) extends Range where
  bounded : stop ≤ length
  deriving DecidableEq

namespace Pattern

/-- A position that is neither in front of `low` nor behind `high`. -/
abbrev Place (low high : Nat) := { position : Nat // low ≤ position ∧ position ≤ high }

def next? {low : Nat} (text : Array Char) (place : Place low text.size) :
    Option (Char × Place low text.size) :=
  if h : place.1 < text.size then
    some (text[place.1], ⟨place.1 + 1, by have := place.2; omega⟩)
  else none

def isWordAt (text : Array Char) (position : Nat) : Bool :=
  (text[position]?.map Text.isWordChar).getD false

/-- Whether exactly one of the characters around a position belongs to a word. -/
def isWordEdge (text : Array Char) (position : Nat) : Bool :=
  (position != 0 && isWordAt text (position - 1)) != isWordAt text position

/-- Whether a position fulfils a condition. In an empty text no position is inside a word. -/
def Edge.holds (text : Array Char) (position : Nat) : Edge → Bool
  | textStart => position == 0
  | textEnd => position == text.size
  | lastLineEnd =>
    position == text.size || (position + 1 == text.size && text[position]? == some '\n')
  | lineStart => position == 0 || text[position - 1]? == some '\n'
  | lineEnd => position == text.size || text[position]? == some '\n'
  | wordEdge => isWordEdge text position
  | insideWord => text.size != 0 && !isWordEdge text position

/-- What is to be done from a place on: it ends at a place, or fails. -/
abbrev Goal (low high : Nat) := Place low high → Option (Place low high)

/-- Rounds of a repetition. Each round consumes one unit of `budget`. Behind the least number of
rounds, no round begins where the round before it began, so a round that takes nothing is the
last. -/
def rounds {low high : Nat} (body : Place low high → Goal low high → Option (Place low high))
    (least : Nat) (most : Option Nat) (greedy : Bool) (goal : Goal low high) :
    (budget count : Nat) → (lastStart : Option Nat) → Place low high → Option (Place low high)
  | 0, _, _, place => goal place
  | budget + 1, count, lastStart, place =>
    if count < least then
      body place (rounds body least most greedy goal budget (count + 1) lastStart)
    else if most.any (· ≤ count) || lastStart == some place.1 then goal place
    else
      let more (_ : Unit) :=
        body place (rounds body least most greedy goal budget (count + 1) (some place.1))
      if greedy then (more ()).orElse fun _ => goal place
      else (goal place).orElse more

/-- Tries a tree at a place. The first way of matching it from which the goal is reached counts. -/
def Node.run {low : Nat} (text : Array Char) :
    Node → Place low text.size → Goal low text.size → Option (Place low text.size)
  | .empty, place, goal => goal place
  | .char set, place, goal =>
    match next? text place with
    | some (c, after) => if set.holds c then goal after else none
    | none => none
  | .edge condition, place, goal => if condition.holds text place.1 then goal place else none
  | .sequence first second, place, goal =>
    first.run text place fun middle => second.run text middle goal
  | .choice first second, place, goal =>
    (first.run text place goal).orElse fun _ => second.run text place goal
  | .repetition body least most greedy, place, goal =>
    rounds (body.run text) least most greedy goal (least + (text.size - place.1) + 2) 0 none place
  | .group body, place, goal => body.run text place goal
  | .look body wanted, place, goal =>
    if (body.run text place some).isSome == wanted then goal place else none
  | .atomic body, place, goal => (body.run text place some).bind goal

/-- The match that begins at a position. An empty one is passed over when something longer is
asked for. -/
def matchAt (node : Node) (text : Array Char) (start : Nat) (nonempty : Bool) :
    Option (Match text.size) :=
  if h : start ≤ text.size then
    let accept : Goal start text.size := fun place =>
      if nonempty && place.1 == start then none else some place
    (node.run text ⟨start, Nat.le_refl _, h⟩ accept).map fun place =>
      { start := start, stop := place.1, ordered := place.2.1, bounded := place.2.2 }
  else none

/-- The first match at one of the next `attempts` positions. Only at the first of them something
longer than the empty match may be asked for. -/
def firstMatch (node : Node) (text : Array Char) :
    (attempts start : Nat) → (nonempty : Bool) → Option (Match text.size)
  | 0, _, _ => none
  | attempts + 1, start, nonempty =>
    match matchAt node text start nonempty with
    | some found => some found
    | none => firstMatch node text attempts (start + 1) false

/-- All matches from a position on, each beginning where the last one ended or behind that. After an
empty match the next one at the same position has to be longer. -/
def matchesFrom (node : Node) (text : Array Char) :
    (fuel start : Nat) → (nonempty : Bool) → List (Match text.size)
  | 0, _, _ => []
  | fuel + 1, start, nonempty =>
    match firstMatch node text (text.size + 1 - start) start nonempty with
    | some found => found :: matchesFrom node text fuel found.stop found.isCaret
    | none => []

/-- All matches in a text, from left to right. Between two of them the text gets shorter or the
second is the longer, so there are at most two for each position. -/
def allMatches (node : Node) (text : Array Char) : List (Match text.size) :=
  matchesFrom node text (2 * text.size + 2) 0 false

end Pattern
end SourceView
