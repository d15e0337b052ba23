import SourceView.Range

/-! Spans: ranges of a named source. Everything that a view shows or hides is tied to the source by
a span, so a span is how an offset of the view finds its way back. -/
namespace SourceView

structure Span extends Range where
  source : String
  deriving DecidableEq

namespace Span

/-- The span between two integers. The sign of the start is checked before the order. -/
def make (source : String) (start stop : Int) : Except Fault Span :=
  if start < 0 then .error (.spanNegative start)
  else if h : stop < start then .error (.spanReversed source start stop)
  else .ok { source, start := start.toNat, stop := stop.toNat, ordered := Range.toNat_ordered h }

/-- Integers make a span exactly when they are its ends. -/
theorem make_eq_ok_iff {source : String} {start stop : Int} {span : Span} :
    make source start stop = .ok span ↔
      source = span.source ∧ start = span.start ∧ stop = span.stop := by
  obtain ⟨⟨spanStart, spanStop, hOrdered⟩, spanSource⟩ := span
  unfold make
  split
  · simp; omega
  · split
    · simp; omega
    · simp only [Except.ok.injEq, mk.injEq, Range.mk.injEq]
      constructor
      · rintro ⟨⟨hStart, hStop⟩, rfl⟩
        refine ⟨rfl, ?_⟩
        omega
      · rintro ⟨rfl, hStart, hStop⟩
        refine ⟨?_, rfl⟩
        omega

def describe (span : Span) : String :=
  "Span(" ++ Text.quoted span.source ++ ", " ++ toString span.start ++ ", "
    ++ toString span.stop ++ ")"

/-- The part between two offsets that are counted from the start of the span. -/
def slice (span : Span) (start stop : Int) : Except Fault Span :=
  if start < 0 ∨ (span.length : Int) < stop ∨ stop < start then
    .error (.sliceOutsideSpan start stop span.length)
  else make span.source (span.start + start) (span.start + stop)

def point (span : Span) (offset : Int) : Except Fault Span := make span.source offset offset

def take (span : Span) (n : Nat) : Span :=
  { source := span.source, start := span.start, stop := min (span.start + n) span.stop,
    ordered := by have := span.ordered; omega }

def drop (span : Span) (n : Nat) : Span :=
  { source := span.source, start := min (span.start + n) span.stop, stop := span.stop }

def head (span : Span) : Span :=
  { source := span.source, start := span.start, stop := span.start }

def tail (span : Span) : Span :=
  { source := span.source, start := span.stop, stop := span.stop }

/-- Whether the second span goes on where the first one ends. -/
def Adjacent (a b : Span) : Prop := a.source = b.source ∧ a.stop = b.start

instance (a b : Span) : Decidable (a.Adjacent b) := inferInstanceAs (Decidable (_ ∧ _))

/-- The least span that holds both, taken as one of the first one's source. -/
def hull (a b : Span) : Span :=
  { source := a.source, start := min a.start b.start, stop := max a.stop b.stop,
    ordered := by have := a.ordered; omega }

/-- Hulls may be taken in any grouping. -/
theorem hull_assoc (a b c : Span) : (a.hull b).hull c = a.hull (b.hull c) := by
  simp [hull, Nat.min_assoc, Nat.max_assoc]

/-- The least span that holds a list of spans, if there are any. -/
def hullAll? : List Span → Option Span
  | [] => none
  | first :: rest => some (rest.foldl hull first)

end Span
end SourceView
