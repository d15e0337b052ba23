import SourceView.Domain
import SourceView.Sorted
import SourceView.Source
import SourceView.Token.Canonical

/-! Views. A view shows some of the text of one source. Its tokens are in canonical form and belong
to that source; everything else about it, the shown text and the unknown positions included, is read
off the tokens. -/
namespace SourceView

/-- A text in which parts of a source are shown, hidden or unknown. -/
structure View where
  domain : Domain
  source : String
  tokens : List Token
  canonical : Token.Canonical tokens
  sourced : ∀ token ∈ tokens, ∀ span, token.span? = some span → span.source = source

namespace Token

/-- The names of the sources behind a token sequence, in order and each once. -/
def sources (tokens : List Token) : List String :=
  sortNew (· < ·) ((spans tokens).map (·.source))

/-- The source behind a token is among the sources. -/
theorem mem_sources {tokens : List Token} {token : Token} {span : Span} (hToken : token ∈ tokens)
    (hSpan : token.span? = some span) : span.source ∈ sources tokens :=
  mem_sortNew.2 (List.mem_map.2 ⟨span, List.mem_filterMap.2 ⟨token, hToken, hSpan⟩, rfl⟩)

/-- The canonical form brings in no other source. -/
theorem source_of_mem_normalize {tokens : List Token} {source : String}
    (h : ∀ token ∈ tokens, ∀ span, token.span? = some span → span.source = source) :
    ∀ token ∈ normalize tokens, ∀ span, token.span? = some span → span.source = source := by
  have hAnchored : ∀ token ∈ anchored tokens, ∀ span, token.span? = some span →
      span.source = source := by
    intro token hToken
    apply h
    unfold anchored at hToken
    split at hToken
    · exact (mem_effective.1 hToken).1
    · rcases List.mem_append.1 hToken with hIdle | hEffective
      · exact List.mem_of_find?_eq_some (Option.mem_toList.1 hIdle)
      · exact (mem_effective.1 hEffective).1
  refine forall_mem_fuse (forall_mem_settle hAnchored ?_) ?_ ?_
  · intro s active hs span hSpan
    simp [span?] at hSpan
  · intro a b hAdjacent ha _ span hSpan
    simp only [span?, Option.some.injEq] at ha hSpan
    subst hSpan
    exact ha a.span rfl
  · intro a b ha _ span hSpan
    simp only [span?, Option.some.injEq] at ha hSpan
    subst hSpan
    exact ha a.anchor rfl

end Token

namespace View

/-- The view with the given tokens, which are brought into canonical form. They have to come from
exactly one source. -/
def ofTokens (domain : Domain) (tokens : List Token) : Except Fault View :=
  match h : Token.sources tokens with
  | [source] => .ok
    { domain, source
      tokens := Token.normalize tokens
      canonical := Token.canonical_normalize tokens
      sourced := Token.source_of_mem_normalize fun token hToken span hSpan => by
        simpa [h] using Token.mem_sources hToken hSpan }
  | sources => .error (.notOneSource sources)

def text (view : View) : List Char := Token.shownText view.tokens

def length (view : View) : Nat := view.text.length

def isEmpty (view : View) : Bool := view.text.isEmpty

/-- The offsets of the shown text at which something unknown stands, in order. -/
def unknownOffsets (view : View) : List Nat :=
  ((Token.placed 0 view.tokens).filter (·.2.isMarker)).map (·.1)

def describe (view : View) : String :=
  "TextContent(" ++ view.domain.label ++ ", " ++ Text.quoted (String.ofList view.text) ++ ")"

/-- Two views are equal when their domains and their tokens are. -/
instance : BEq View where
  beq a b := a.domain == b.domain && a.tokens == b.tokens

/-- Equality is that of domains and tokens. -/
theorem beq_iff {a b : View} : (a == b) = true ↔ a.domain = b.domain ∧ a.tokens = b.tokens := by
  show (a.domain == b.domain && a.tokens == b.tokens) = true ↔ _
  simp

/-- The token that shows all characters of a span, or a gap where the span has none. -/
def tokenOfSpan (span : Span) (text : List Char) : Except Fault Token :=
  if text.isEmpty then .ok (.gap ⟨span, false⟩)
  else do return .excerpt (← Excerpt.make span text)

/-- The view that shows exactly the characters of a span. -/
def ofSpan {α : Type} [Provider α] (provider : α) (span : Span) (domain : Domain := .plainText) :
    Except Fault View := do
  let text ← readChecked provider span
  ofTokens domain [← tokenOfSpan span text]

/-- The view that shows the whole text of a source. -/
def ofSource (source : Source) (domain : Domain := .plainText) : Except Fault View := do
  ofSpan source (← source.span) domain

/-- The character at a position of the shown text, possibly counted from behind. -/
def character (view : View) (index : Int) : Except Fault Char :=
  match (Text.position? view.length index).bind (view.text[·]?) with
  | some c => .ok c
  | none => .error .textPositionOutside

def slice (view : View) (start? stop? step? : Option Int) : Except Fault (List Char) :=
  match Text.slice? view.text start? stop? step? with
  | some found => .ok found
  | none => .error .zeroStep

end View
end SourceView
