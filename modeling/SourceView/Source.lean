import SourceView.Span

/-! Sources and what texts are read from. A source is a named text; a shelf holds several sources
under their names. Characters are counted by code point. -/
namespace SourceView

structure Source where
  id : String
  text : List Char
  deriving DecidableEq

/-- Something that texts are read from: it knows how long the text with a name is and gives out the
characters between two positions. Positions may be negative and then count from behind. -/
class Provider (α : Type) where
  sourceLength : α → String → Except Fault Nat
  readBetween : α → String → Int → Int → Except Fault (List Char)
  /-- The span of everything, for a provider of one text. -/
  whole? : α → Option Span

/-- The characters of a span that lies within its source. -/
def readChecked {α : Type} [Provider α] (provider : α) (span : Span) :
    Except Fault (List Char) := do
  let length ← Provider.sourceLength provider span.source
  if length < span.stop then
    throw (.spanBeyondSource span.source span.start span.stop length)
  Provider.readBetween provider span.source span.start span.stop

namespace Source

/-- A span over this source. It starts at the front and ends at the end unless told otherwise. -/
def span (source : Source) (start : Int := 0) (stop? : Option Int := none) : Except Fault Span :=
  let stop := stop?.getD source.text.length
  if (source.text.length : Int) < stop then
    .error (.spanEndBeyondSource source.id stop source.text.length)
  else Span.make source.id start stop

def wholeSpan (source : Source) : Span :=
  { source := source.id, start := 0, stop := source.text.length }

/-- Without bounds the span is that of the whole text. -/
theorem span_default (source : Source) : source.span = .ok source.wholeSpan := by
  have h : ¬ (source.text.length : Int) < 0 := by omega
  simp [span, Span.make, wholeSpan, h]

/-- The source itself when it has the wanted name. -/
def checked (source : Source) (id : String) : Except Fault Source :=
  if id = source.id then .ok source else .error (.wrongSource source.id id)

instance : Provider Source where
  sourceLength source id := do return (← source.checked id).text.length
  readBetween source id start stop := do return Text.between (← source.checked id).text start stop
  whole? source := some source.wholeSpan

/-- Reading a span of the source gives the characters that stand there. -/
theorem readChecked_eq_ok_iff {source : Source} {span : Span} {text : List Char} :
    readChecked source span = .ok text ↔
      span.source = source.id ∧ span.stop ≤ source.text.length ∧
        text = (source.text.take span.stop).drop span.start := by
  have hOrdered := span.ordered
  by_cases hName : span.source = source.id
  · by_cases hStop : source.text.length < span.stop
    · have hBeyond : ¬ span.stop ≤ source.text.length := Nat.not_le.2 hStop
      simp [readChecked, Provider.sourceLength, checked, hName, hStop, hBeyond, bind, Except.bind,
        pure, Except.pure, throw, throwThe, MonadExceptOf.throw]
    · have hBetween := Text.between_natCast source.text
        (Nat.le_trans hOrdered (Nat.le_of_not_lt hStop)) (Nat.le_of_not_lt hStop)
      simp [readChecked, Provider.sourceLength, Provider.readBetween, checked, hName, hStop, bind,
        Except.bind, pure, Except.pure, hBetween, Nat.le_of_not_lt hStop, eq_comm]
  · simp [readChecked, Provider.sourceLength, checked, hName, bind, Except.bind]

end Source

/-- Several sources, each under its own name, in the order in which the names came up. -/
structure Shelf where
  sources : List Source

namespace Shelf

def empty : Shelf := ⟨[]⟩

/-- Puts a source on the shelf. One of the same name is replaced where it stands. -/
def add (shelf : Shelf) (source : Source) : Shelf :=
  if shelf.sources.any (·.id == source.id) then
    ⟨shelf.sources.map fun old => if old.id == source.id then source else old⟩
  else ⟨shelf.sources ++ [source]⟩

def contains (shelf : Shelf) (id : String) : Bool := shelf.sources.any (·.id == id)

def get (shelf : Shelf) (id : String) : Except Fault Source :=
  match shelf.sources.find? (·.id == id) with
  | some source => .ok source
  | none => .error (.unknownSource id)

def ids (shelf : Shelf) : List String := shelf.sources.map (·.id)

def size (shelf : Shelf) : Nat := shelf.sources.length

instance : Provider Shelf where
  sourceLength shelf id := do return (← shelf.get id).text.length
  readBetween shelf id start stop := do return Text.between (← shelf.get id).text start stop
  whole? _ := none

/-- What was put on the shelf is found there. -/
theorem get_add (shelf : Shelf) (source : Source) :
    (shelf.add source).get source.id = .ok source := by
  have hMap : ∀ sources : List Source, sources.any (·.id == source.id) = true →
      (sources.map fun old => if old.id == source.id then source else old).find?
        (·.id == source.id) = some source := by
    intro sources h
    induction sources with
    | nil => simp at h
    | cons old rest ih =>
      by_cases hOld : old.id = source.id
      · simp [hOld]
      · simp only [List.any_cons, hOld, beq_iff_eq, Bool.or_eq_true, false_or] at h
        simpa [hOld] using ih h
  unfold add get
  by_cases h : shelf.sources.any (·.id == source.id) = true
  · simp only [h, if_true]
    rw [hMap _ h]
  · have hNone : shelf.sources.find? (·.id == source.id) = none := by
      simpa using h
    simp only [h, Bool.false_eq_true, if_false, List.find?_append, hNone]
    simp

end Shelf
end SourceView
