import SourceView.Exclusion
import SourceView.Sorted
import SourceView.Token.Canonical

/-! Applying exclusions to a token sequence in one pass from left to right. The excerpts are first
cut at the ends of the exclusions, so that each piece lies inside or outside of every one of them.
Hidden pieces are replaced by a gap over all the source material they had. -/
namespace SourceView

/-- A token with the offset of the shown text at which it begins. -/
abbrev Piece := Nat × Token

namespace Excerpt

/-- Cuts an excerpt that begins at `start` at those offsets that lie strictly inside it. The offsets
have to be in order. -/
def cut (start : Nat) (excerpt : Excerpt) : List Nat → List Piece
  | [] => [(start, .excerpt excerpt)]
  | offset :: offsets =>
    if start < offset ∧ offset < start + excerpt.text.length then
      (start, .excerpt (excerpt.take (offset - start)))
        :: cut offset (excerpt.drop (offset - start)) offsets
    else cut start excerpt offsets

end Excerpt

namespace Token

/-- The pieces of a token sequence that is cut at the given offsets, which have to be in order. Only
excerpts are cut. -/
def split (offsets : List Nat) (tokens : List Token) : List Piece :=
  (placed 0 tokens).flatMap fun (start, token) =>
    match token with
    | excerpt e => e.cut start offsets
    | other => [(start, other)]

end Token

namespace Exclusion

def cuts (exclusions : List Exclusion) : List Nat :=
  sortNew (· < ·) (exclusions.flatMap (·.endpoints))

/-- Whether a piece stays in front of an exclusion that begins at `offset`. A piece that shows
nothing may begin at that very offset, and the exclusion decides on which side it then is. -/
def isBefore (offset : Nat) (keepHidden : Bool) (piece : Piece) : Bool :=
  if piece.2.isVisible then piece.1 < offset
  else piece.1 < offset || (keepHidden && piece.1 == offset)

/-- The empty span for a marker between two runs of pieces, the left one given from its end. It is
the nearest source position on the left, or else the nearest on the right. -/
def markerAnchor (left right : List Piece) : Except Fault Span :=
  match left.findSome? (·.2.span?) with
  | some span => .ok span.tail
  | none =>
    match right.findSome? (·.2.span?) with
    | some span => .ok span.head
    | none => .error .noAnchor

/-- What replaces the pieces that an exclusion hides. Hidden source material leaves a gap, which is
unknown also when an unknown gap was among the pieces. Where only separators are hidden, nothing is
left unless the exclusion marks its place. -/
def replacement (unknown : Bool) (left removed right : List Piece) : Except Fault (List Token) :=
  match Span.hullAll? (removed.filterMap (·.2.span?)) with
  | some anchor =>
    .ok [.gap ⟨anchor, unknown || removed.any (·.2.isMarker)⟩]
  | none =>
    if unknown then do
      let anchor ← markerAnchor left (removed ++ right)
      return [.gap ⟨anchor, true⟩]
    else .ok []

/-- Takes the pieces from left to right through the exclusions. The pieces that were passed are
given from the last one back. -/
def sweep (passed rest : List Piece) : List Exclusion → Except Fault (List Token)
  | [] => .ok (rest.map (·.2))
  | exclusion :: exclusions =>
    let keepHidden := !exclusion.isCaret
    let kept := rest.takeWhile (isBefore exclusion.start keepHidden)
    let passed := kept.reverse ++ passed
    let rest := rest.dropWhile (isBefore exclusion.start keepHidden)
    if exclusion.isCaret then do
      let anchor ← markerAnchor passed rest
      let after ← sweep passed rest exclusions
      return kept.map (·.2) ++ .gap ⟨anchor, true⟩ :: after
    else do
      let removed := rest.takeWhile (·.1 < exclusion.stop)
      let right := rest.dropWhile (·.1 < exclusion.stop)
      let gap ← replacement exclusion.unknown passed removed right
      let after ← sweep (removed.reverse ++ passed) right exclusions
      return kept.map (·.2) ++ gap ++ after

/-- The canonical tokens after all exclusions, which should have been validated for the shown text.
Tokens that no exclusion changes are returned as they are. -/
def applyAll (tokens : List Token) (exclusions : List Exclusion) : Except Fault (List Token) :=
  let active := exclusions.filter isActive
  if active.isEmpty then .ok tokens
  else do
    return Token.normalize (← sweep [] (Token.split (cuts active) tokens) active)

end Exclusion
end SourceView
