import SourceView.Span

/-! Tokens. A view is a sequence of tokens of three kinds: excerpts show characters of the source,
gaps stand for source material that is not shown, and separators are single blanks that stand
between joined views and come from no source. -/
namespace SourceView

/-- Shown characters and the span they were read from. -/
structure Excerpt where
  span : Span
  text : List Char
  fits : text.length = span.length
  deriving DecidableEq

/-- Source material that takes no room in the view. An unknown gap marks its position as one about
which nothing may be concluded. -/
structure Gap where
  anchor : Span
  unknown : Bool := false
  deriving DecidableEq

/-- A blank between joined views. A dormant separator takes no room; it waits for something to be
shown in front of it. -/
structure Separator where
  char : Char
  blank : Text.isBlank char = true
  active : Bool := true
  deriving DecidableEq

namespace Excerpt

/-- An excerpt of a text that is as long as the span. -/
def make (span : Span) (text : List Char) : Except Fault Excerpt :=
  if h : text.length = span.length then .ok ⟨span, text, h⟩
  else .error (.textDoesNotFit text.length span.describe)

/-- The first `n` characters, or all when there are fewer. -/
def take (excerpt : Excerpt) (n : Nat) : Excerpt where
  span := excerpt.span.take n
  text := excerpt.text.take n
  fits := by
    have := excerpt.fits
    have := excerpt.span.ordered
    simp only [Span.take, Range.length, List.length_take] at *
    omega

/-- What is left behind the first `n` characters. -/
def drop (excerpt : Excerpt) (n : Nat) : Excerpt where
  span := excerpt.span.drop n
  text := excerpt.text.drop n
  fits := by
    have := excerpt.fits
    have := excerpt.span.ordered
    simp only [Span.drop, Range.length, List.length_drop] at *
    omega

/-- The part between two offsets that are counted from the start of the excerpt. -/
def slice (excerpt : Excerpt) (start stop : Int) : Except Fault Excerpt := do
  let span ← excerpt.span.slice start stop
  make span ((excerpt.text.take stop.toNat).drop start.toNat)

/-- Two excerpts as one, when the second goes on where the first one ends. -/
def append (a b : Excerpt) (h : a.span.Adjacent b.span) : Excerpt where
  span :=
    { source := a.span.source, start := a.span.start, stop := b.span.stop,
      ordered := Nat.le_trans a.span.ordered (h.2 ▸ b.span.ordered) }
  text := a.text ++ b.text
  fits := by
    have := a.fits
    have := b.fits
    have := a.span.ordered
    have := b.span.ordered
    have := h.2
    simp only [Range.length, List.length_append] at *
    omega

end Excerpt

namespace Gap

/-- Two neighbouring gaps as one. It is unknown when either of them is. -/
def append (a b : Gap) : Gap := ⟨a.anchor.hull b.anchor, a.unknown || b.unknown⟩

end Gap

namespace Separator

/-- A separator from a text that has to be a single blank. -/
def make (given : List Char) (active : Bool := true) : Except Fault Separator :=
  match given with
  | [c] =>
    if h : Text.isBlank c = true then .ok ⟨c, h, active⟩
    else .error (.separatorNotBlank (String.ofList given))
  | _ => .error (.separatorNotBlank (String.ofList given))

end Separator

/-- One element of a view. -/
inductive Token
  | excerpt (excerpt : Excerpt)
  | gap (gap : Gap)
  | separator (separator : Separator)
  deriving DecidableEq

namespace Token

def shown : Token → List Char
  | excerpt e => e.text
  | gap _ => []
  | separator s => if s.active then [s.char] else []

def width (token : Token) : Nat := token.shown.length

def isVisible (token : Token) : Bool := !token.shown.isEmpty

/-- The source material behind a token. Separators have none. -/
def span? : Token → Option Span
  | excerpt e => some e.span
  | gap g => some g.anchor
  | separator _ => none

def isEmptyExcerpt : Token → Bool
  | excerpt e => e.text.isEmpty
  | _ => false

/-- Whether a token is a gap that hides nothing and marks nothing. -/
def isIdle : Token → Bool
  | gap g => !g.unknown && g.anchor.isCaret
  | _ => false

def isMarker : Token → Bool
  | gap g => g.unknown
  | _ => false

def isSeparator : Token → Bool
  | separator _ => true
  | _ => false

/-- Whether the separators behind a token are shown: it is an excerpt or an unknown gap. -/
def wakes : Token → Bool
  | excerpt _ => true
  | gap g => g.unknown
  | separator _ => false

def describe : Token → String
  | excerpt e =>
    "TextToken(" ++ e.span.describe ++ ", " ++ Text.quoted (String.ofList e.text) ++ ")"
  | gap g => "GapToken(" ++ g.anchor.describe ++ (if g.unknown then ", unknown)" else ")")
  | separator s =>
    "WhitespaceToken(char=" ++ Text.quoted (String.singleton s.char) ++ ", active="
      ++ (if s.active then "True)" else "False)")

def shownText (tokens : List Token) : List Char := tokens.flatMap shown

def totalWidth : List Token → Nat
  | [] => 0
  | token :: rest => token.width + totalWidth rest

/-- The tokens with the offsets at which they begin when the first one begins at `offset`. -/
def placed (offset : Nat) : List Token → List (Nat × Token)
  | [] => []
  | token :: rest => (offset, token) :: placed (offset + token.width) rest

def starts (tokens : List Token) : List Nat := (placed 0 tokens).map (·.1)

def spans (tokens : List Token) : List Span := tokens.filterMap span?

/-- The shown text is as long as the tokens together are wide. -/
theorem length_shownText (tokens : List Token) :
    (shownText tokens).length = totalWidth tokens := by
  induction tokens with
  | nil => rfl
  | cons token rest ih =>
    have ih' : (rest.flatMap shown).length = totalWidth rest := ih
    simp [shownText, totalWidth, width, ih']

/-- Each token begins behind what the tokens in front of it show. -/
theorem placed_append (offset : Nat) (before after : List Token) :
    placed offset (before ++ after) =
      placed offset before ++ placed (offset + totalWidth before) after := by
  induction before generalizing offset with
  | nil => simp [placed, totalWidth]
  | cons token rest ih => simp [placed, totalWidth, ih, Nat.add_assoc]

/-- Placing changes no token. -/
theorem map_snd_placed (offset : Nat) (tokens : List Token) :
    (placed offset tokens).map (·.2) = tokens := by
  induction tokens generalizing offset with
  | nil => rfl
  | cons token rest ih => simp [placed, ih]

end Token
end SourceView
