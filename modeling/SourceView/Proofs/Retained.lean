import SourceView.Proofs.Conceal
import SourceView.Proofs.Offset
import SourceView.Proofs.Regroups

/-! What exclusions keep of the source. Hidden material goes into a gap over all of it, gaps that meet
become one, and only gaps without an effect are dropped. So no offset of the source gets lost, and the
source material behind a view begins and ends where it did. -/
namespace SourceView

namespace Span

/-- Properties that a wider span has too, and that one of the two parts has where a span is divided. -/
structure Lasting (q : Span → Prop) : Prop where
  widen : ∀ {a b}, q a → b.start ≤ a.start → a.stop ≤ b.stop → q b
  divide : ∀ a n, q a → q (a.take n) ∨ q (a.drop n)

/-- Wherever a span is divided, one of its parts holds the position. -/
theorem lasting_holds (position : Nat) :
    Lasting fun span => span.start ≤ position ∧ position < span.stop := by
  refine ⟨fun hHolds hStart hStop => by omega, fun span n hHolds => ?_⟩
  show span.start ≤ position ∧ position < min (span.start + n) span.stop ∨
    min (span.start + n) span.stop ≤ position ∧ position < span.stop
  omega

/-- Widening a span moves its start to the left only, and dividing it leaves a part with the same
start. -/
theorem lasting_start_le (bound : Nat) : Lasting fun span => span.start ≤ bound :=
  ⟨fun hLe hStart _ => Nat.le_trans hStart hLe, fun _ _ hLe => .inl hLe⟩

/-- Widening a span moves its end to the right only, and dividing it leaves a part with the same
end. -/
theorem lasting_le_stop (bound : Nat) : Lasting fun span => bound ≤ span.stop :=
  ⟨fun hLe _ hStop => Nat.le_trans hLe hStop, fun _ _ hLe => .inr hLe⟩

/-- What holds of spans holds of regrouped ones, if it holds of their hulls, ends and parts. -/
theorem Regroups.forall_mem {q : Span → Prop} (hq : Exclusion.Inherited q)
    (hDivide : ∀ span n, q span → q (span.take n) ∧ q (span.drop n)) {before after : List Span}
    (h : Regroups before after) (hBefore : ∀ span ∈ before, q span) : ∀ span ∈ after, q span := by
  induction h with
  | refl spans => exact hBefore
  | trans h h' ih ih' => exact ih' (ih hBefore)
  | append h h' ih ih' =>
      simp only [List.mem_append, or_imp, forall_and] at hBefore ⊢
      exact ⟨ih hBefore.1, ih' hBefore.2⟩
  | discard h => simp
  | markHead span =>
      have hSpan := hBefore span List.mem_cons_self
      simpa using ⟨hq.head span hSpan, hSpan⟩
  | markTail span =>
      have hSpan := hBefore span List.mem_cons_self
      simpa using ⟨hSpan, hq.tail span hSpan⟩
  | merge a b =>
      simp only [List.mem_cons, forall_eq_or_imp, List.not_mem_nil, false_implies, implies_true,
        and_true] at hBefore ⊢
      exact hq.hull a b hBefore.1 hBefore.2
  | divide span n => simpa using hDivide span n (hBefore span List.mem_cons_self)

/-- Regrouped spans reach no further than the spans did before. -/
theorem Regroups.within {before after : List Span} (h : Regroups before after) {start stop : Nat}
    (hBefore : ∀ span ∈ before, start ≤ span.start ∧ span.stop ≤ stop) :
    ∀ span ∈ after, start ≤ span.start ∧ span.stop ≤ stop := by
  refine h.forall_mem ⟨fun a b ha hb => ?_, fun a ha => ?_, fun a ha => ?_⟩ (fun a n ha => ?_) hBefore
  · show start ≤ min a.start b.start ∧ max a.stop b.stop ≤ stop
    omega
  · have hOrdered := a.ordered
    show start ≤ a.start ∧ a.start ≤ stop
    omega
  · have hOrdered := a.ordered
    show start ≤ a.stop ∧ a.stop ≤ stop
    omega
  · have hOrdered := a.ordered
    show (start ≤ a.start ∧ min (a.start + n) a.stop ≤ stop) ∧
      start ≤ min (a.start + n) a.stop ∧ a.stop ≤ stop
    omega

end Span

namespace Token
open SourceView.Span

/-- An idle gap of a canonical sequence is all that ties it to its source. -/
theorem Canonical.spans_of_isIdle {tokens : List Token} (h : Canonical tokens) {token : Token}
    (hToken : token ∈ tokens) (hIdle : token.isIdle = true) {span : Span}
    (hSpan : token.span? = some span) : spans tokens = [span] ∧ span.start = span.stop := by
  obtain ⟨rest, hAll, hSeparators⟩ := h.idle token hToken hIdle
  have hRest : spans rest = [] := List.filterMap_eq_nil_iff.2 fun other hOther => by
    have hSeparator := hSeparators other hOther
    cases other with
    | separator s => rfl
    | excerpt e => cases hSeparator
    | gap g => cases hSeparator
  constructor
  · rw [hAll, spans_cons, hRest, List.append_nil]
    simp [spans, hSpan]
  · cases token with
    | separator s => cases hSpan
    | excerpt e => cases hIdle
    | gap g =>
        cases hSpan
        simp only [isIdle, Range.isCaret, Bool.and_eq_true, beq_iff_eq] at hIdle
        exact hIdle.2

/-- Whether a token has an effect and a span with a property. -/
def Bears (q : Span → Prop) (token : Token) : Prop :=
  token.isEmptyExcerpt = false ∧ token.isIdle = false ∧ ∃ span, token.span? = some span ∧ q span

/-- Properties of tokens with an effect that a token made of two has when one of them does. -/
structure Kept (p : Token → Prop) : Prop where
  effect : ∀ {token}, p token →
    token.isEmptyExcerpt = false ∧ token.isIdle = false ∧ token.span?.isSome = true
  excerpts : ∀ a b h, p (excerpt a) ∨ p (excerpt b) → p (excerpt (a.append b h))
  gaps : ∀ a b, p (gap a) ∨ p (gap b) → p (gap (a.append b))

variable {p : Token → Prop} {q : Span → Prop} {tokens : List Token}

theorem Kept.exists_mem_attach (hp : Kept p) {token : Token} {rest : List Token}
    (h : ∃ t ∈ token :: rest, p t) : ∃ t ∈ attach token rest, p t := by
  unfold attach
  split
  · next a b tail =>
      split
      · next hAdjacent =>
          simp only [List.mem_cons, exists_eq_or_imp] at h ⊢
          exact (or_assoc.2 h).imp_left (hp.excerpts a b hAdjacent)
      · exact h
  · next a b tail =>
      simp only [List.mem_cons, exists_eq_or_imp] at h ⊢
      exact (or_assoc.2 h).imp_left (hp.gaps a b)
  · exact h

theorem Kept.exists_mem_fuse (hp : Kept p) (h : ∃ t ∈ tokens, p t) : ∃ t ∈ fuse tokens, p t := by
  induction tokens with
  | nil => exact h
  | cons token rest ih =>
      refine hp.exists_mem_attach ?_
      simp only [List.mem_cons, exists_eq_or_imp] at h ⊢
      exact h.imp_right ih

theorem mem_settle {token : Token} (hToken : token ∈ tokens) (hSpan : token.span?.isSome = true)
    (awake : Bool) : token ∈ settle awake tokens := by
  induction tokens generalizing awake with
  | nil => exact hToken
  | cons first rest ih =>
      rcases List.mem_cons.1 hToken with rfl | hRest
      · cases token with
        | separator s => cases hSpan
        | excerpt e => exact List.mem_cons_self
        | gap g => exact List.mem_cons_self
      · cases first <;> exact List.mem_cons_of_mem _ (ih hRest _)

/-- What stays when tokens become one is found again in the canonical form. -/
theorem Kept.exists_mem_normalize (hp : Kept p) (h : ∃ t ∈ tokens, p t) :
    ∃ t ∈ normalize tokens, p t := by
  obtain ⟨token, hToken, hHolds⟩ := h
  obtain ⟨hShows, hBusy, hSpan⟩ := hp.effect hHolds
  have hEffective : token ∈ effective tokens := mem_effective.2 ⟨hToken, hShows, hBusy⟩
  rw [normalize_of_tied ⟨token, hEffective, hSpan⟩]
  exact hp.exists_mem_fuse ⟨token, mem_settle hEffective hSpan false, hHolds⟩

/-- Of two gaps that are idle as one, both are idle. -/
theorem isIdle_of_append {a b : Gap} (h : (gap (a.append b)).isIdle = true) :
    (gap a).isIdle = true ∧ (gap b).isIdle = true := by
  refine ⟨isIdle_append h, ?_⟩
  have hFirst := a.anchor.ordered
  have hSecond := b.anchor.ordered
  simp only [isIdle, Gap.append, Span.hull, Range.isCaret, Bool.and_eq_true, Bool.not_eq_true',
    Bool.or_eq_false_iff, beq_iff_eq] at h ⊢
  exact ⟨h.1.2, by omega⟩

/-- What two gaps stand for is behind the one that they become. -/
theorem Bears.gap_append (hq : Lasting q) {a b : Gap} (h : Bears q (gap a) ∨ Bears q (gap b)) :
    Bears q (gap (a.append b)) := by
  have hBusy : (gap (a.append b)).isIdle = false := by
    rw [Bool.eq_false_iff]
    intro hIdle
    obtain ⟨hFirst, hSecond⟩ := isIdle_of_append hIdle
    rcases h with ⟨-, hBusy, -⟩ | ⟨-, hBusy, -⟩
    · rw [hFirst] at hBusy
      cases hBusy
    · rw [hSecond] at hBusy
      cases hBusy
  refine ⟨rfl, hBusy, _, rfl, ?_⟩
  rcases h with ⟨-, -, span, ⟨⟩, hSpan⟩ | ⟨-, -, span, ⟨⟩, hSpan⟩
  · exact hq.widen hSpan (Nat.min_le_left _ _) (Nat.le_max_left _ _)
  · exact hq.widen hSpan (Nat.min_le_right _ _) (Nat.le_max_right _ _)

/-- What two excerpts show is shown by the one that they become. -/
theorem Bears.excerpt_append (hq : Lasting q) {a b : Excerpt} (hAdjacent : a.span.Adjacent b.span)
    (h : Bears q (excerpt a) ∨ Bears q (excerpt b)) : Bears q (excerpt (a.append b hAdjacent)) := by
  have hFirst := a.span.ordered
  have hSecond := b.span.ordered
  have hBetween := hAdjacent.2
  rcases h with ⟨hShows, -, span, ⟨⟩, hSpan⟩ | ⟨hShows, -, span, ⟨⟩, hSpan⟩
  · refine ⟨isEmptyExcerpt_append hAdjacent hShows, rfl, _, rfl, hq.widen hSpan (Nat.le_refl _) ?_⟩
    show a.span.stop ≤ b.span.stop
    omega
  · have hText : (excerpt (a.append b hAdjacent)).isEmptyExcerpt = false := by
      simp_all [isEmptyExcerpt, Excerpt.append]
    refine ⟨hText, rfl, _, rfl, hq.widen hSpan ?_ (Nat.le_refl _)⟩
    show a.span.start ≤ b.span.start
    omega

/-- Two tokens that become one bear together what either of them bore. -/
theorem kept_bears (hq : Lasting q) : Kept (Bears q) :=
  ⟨fun ⟨hShows, hBusy, span, hSpan, _⟩ => ⟨hShows, hBusy, by rw [hSpan]; rfl⟩,
    fun _ _ hAdjacent h => .excerpt_append hq hAdjacent h, fun _ _ h => .gap_append hq h⟩

/-- What a gap bears goes to the gap that it becomes a part of. -/
theorem kept_bears_gap (hq : Lasting q) :
    Kept fun token => ∃ g, token = gap g ∧ Bears q (gap g) := by
  refine ⟨?_, ?_, ?_⟩
  · rintro _ ⟨g, rfl, hBears⟩
    exact (kept_bears hq).effect hBears
  · rintro a b h (⟨g, hGap, -⟩ | ⟨g, hGap, -⟩) <;> cases hGap
  · intro a b h
    refine ⟨_, rfl, .gap_append hq ?_⟩
    rcases h with ⟨g, ⟨⟩, hBears⟩ | ⟨g, ⟨⟩, hBears⟩
    · exact .inl hBears
    · exact .inr hBears

/-- One of the atoms bears what the token bore. -/
theorem Bears.exists_mem_atoms (hq : Lasting q) {token : Token} (h : Bears q token) :
    ∃ atom ∈ token.atoms, Bears q atom := by
  cases token with
  | separator s => exact ⟨_, List.mem_singleton.2 rfl, h⟩
  | gap g => exact ⟨_, List.mem_singleton.2 rfl, h⟩
  | excerpt e =>
      induction hLength : e.text.length generalizing e with
      | zero =>
          have hShows := h.1
          simp [isEmptyExcerpt, List.length_eq_zero_iff.1 hLength] at hShows
      | succ n ih =>
          obtain ⟨hShows, -, span, ⟨⟩, hSpan⟩ := h
          have hText : e.text ≠ [] := by simpa [isEmptyExcerpt] using hShows
          have hDrop : (e.drop 1).text.length = n := by simp [Excerpt.drop, hLength]
          have hFirst : (excerpt (e.take 1)).isEmptyExcerpt = false := by
            simp [isEmptyExcerpt, Excerpt.take, hText]
          rw [atoms_of_text_ne_nil hText]
          by_cases hRest : (e.drop 1).text = []
          · rw [hRest, List.length_nil] at hDrop
            have hWhole : e.take 1 = e := Excerpt.take_of_length_le (by omega)
            rw [hWhole]
            exact ⟨_, List.mem_cons_self, hShows, rfl, e.span, rfl, hSpan⟩
          · rcases hq.divide e.span 1 hSpan with hTake | hKept
            · exact ⟨_, List.mem_cons_self, hFirst, rfl, _, rfl, hTake⟩
            · obtain ⟨atom, hAtom, hBears⟩ := ih (e.drop 1)
                ⟨by simpa [isEmptyExcerpt] using hRest, rfl, _, rfl, hKept⟩ hDrop
              exact ⟨atom, List.mem_cons_of_mem _ hAtom, hBears⟩

/-- Dividing tokens keeps what one of them bears. -/
theorem exists_mem_atomize (hq : Lasting q) (h : ∃ token ∈ tokens, Bears q token) :
    ∃ atom ∈ atomize tokens, Bears q atom := by
  obtain ⟨token, hToken, hBears⟩ := h
  obtain ⟨atom, hAtom, hKept⟩ := hBears.exists_mem_atoms hq
  exact ⟨atom, List.mem_flatMap.2 ⟨token, hToken, hAtom⟩, hKept⟩

end Token

namespace Exclusion
open SourceView.Span Token

variable {q : Span → Prop}

/-- What is hidden is behind the gap in its place. -/
theorem exists_gap_of_hidden (hq : Lasting q) {e : Exclusion} {left hidden right : List Piece}
    {gaps : List Token} (h : e.substitute left hidden right = .ok gaps)
    (hCaret : e.isCaret = true → hidden = []) {piece : Piece} (hPiece : piece ∈ hidden)
    (hBears : Bears q piece.2) : ∃ g, gaps = [.gap g] ∧ Bears q (.gap g) := by
  obtain ⟨hShows, hBusy, span, hSpan, hHolds⟩ := hBears
  have hMem : span ∈ hidden.filterMap (·.2.span?) := List.mem_filterMap.2 ⟨piece, hPiece, hSpan⟩
  obtain ⟨anchor, hAnchor, hStart, hStop⟩ := Span.exists_hullAll?_of_mem hMem
  rcases substitute_cases h with ⟨-, -, -, hMarks⟩ | ⟨-, found, hFound, rfl⟩ | ⟨-, -, hNone, -⟩
  · rcases hMarks with hMarks | ⟨-, hNone⟩
    · rw [hCaret hMarks] at hPiece
      cases hPiece
    · rw [hAnchor] at hNone
      cases hNone
  · obtain rfl := Option.some.inj (hAnchor.symm.trans hFound)
    exact ⟨_, rfl, rfl, isIdle_of_hidden hPiece hShows hBusy hSpan hStart hStop e.unknown, anchor, rfl,
      hq.widen hHolds hStart hStop⟩
  · rw [hAnchor] at hNone
    cases hNone

/-- A sweep loses nothing of the pieces that it comes to. -/
theorem exists_mem_sweep (hq : Lasting q) {passed rest : List Piece} {exclusions : List Exclusion}
    {swept : List Token} (h : sweep passed rest exclusions = .ok swept)
    (hRest : ∃ piece ∈ rest, Bears q piece.2) : ∃ token ∈ swept, Bears q token := by
  induction exclusions generalizing passed rest swept with
  | nil =>
      cases h
      obtain ⟨piece, hPiece, hBears⟩ := hRest
      exact ⟨piece.2, List.mem_map_of_mem hPiece, hBears⟩
  | cons e later ih =>
      obtain ⟨gaps, after, hGaps, hAfter, rfl⟩ := sweep_cons_eq_ok_iff.1 h
      obtain ⟨piece, hPiece, hBears⟩ := hRest
      rw [← e.front_append_covered_append_behind rest, List.mem_append, List.mem_append] at hPiece
      rcases hPiece with (hFront | hCovered) | hBehind
      · exact ⟨piece.2, by simp [List.mem_map_of_mem hFront], hBears⟩
      · obtain ⟨g, rfl, hKept⟩ := exists_gap_of_hidden hq hGaps
          (fun hCaret => covered_of_isCaret hCaret rest) hCovered hBears
        exact ⟨_, by simp, hKept⟩
      · obtain ⟨token, hToken, hKept⟩ := ih hAfter ⟨piece, hBehind, hBears⟩
        exact ⟨token, List.mem_append_right _ hToken, hKept⟩

def InOrder (pieces : List Piece) : Prop := pieces.Pairwise fun a b => a.1 ≤ b.1

theorem inOrder_placed (offset : Nat) (tokens : List Token) : InOrder (placed offset tokens) :=
  (pairwise_placed offset tokens).imp fun h => Nat.le_trans (Nat.le_add_right _ _) h

theorem lt_of_mem_front {e : Exclusion} {rest : List Piece} {piece : Piece}
    (hPiece : piece ∈ e.front rest) (hVisible : piece.2.isVisible = true) : piece.1 < e.start := by
  have hTest := List.all_eq_true.1 List.all_takeWhile piece hPiece
  simpa [isBefore, hVisible] using hTest

theorem InOrder.behind {rest : List Piece} (h : InOrder rest) (e : Exclusion) :
    InOrder (e.behind rest) :=
  h.sublist ((List.dropWhile_sublist _).trans (List.dropWhile_sublist _))

/-- What is behind an exclusion begins at its end or later. -/
theorem InOrder.le_of_mem_behind {rest : List Piece} (h : InOrder rest) {e : Exclusion} {piece : Piece}
    (hPiece : piece ∈ e.behind rest) : e.stop ≤ piece.1 := by
  have hOrder := h.behind e
  cases hBehind : e.behind rest with
  | nil =>
      rw [hBehind] at hPiece
      cases hPiece
  | cons first others =>
      have hFails := List.head?_dropWhile_not (fun piece : Piece => decide (piece.1 < e.stop))
        (rest.dropWhile (isBefore e.start (!e.isCaret)))
      rw [← Exclusion.behind, hBehind] at hFails
      simp only [List.head?_cons, decide_eq_false_iff_not, Nat.not_lt] at hFails
      rw [hBehind] at hPiece hOrder
      rcases List.mem_cons.1 hPiece with rfl | hOthers
      · exact hFails
      · exact Nat.le_trans hFails ((List.pairwise_cons.1 hOrder).1 piece hOthers)

/-- What is shown within an exclusion is behind a gap afterwards. -/
theorem exists_gap_of_deleted (hq : Lasting q) {passed rest : List Piece} {exclusions : List Exclusion}
    {swept : List Token} (h : sweep passed rest exclusions = .ok swept) (hRest : InOrder rest)
    (hOrder : exclusions.Pairwise fun a b => a.stop ≤ b.start) {piece : Piece} (hPiece : piece ∈ rest)
    (hVisible : piece.2.isVisible = true) (hBears : Bears q piece.2)
    (hDeleted : ∃ e ∈ exclusions, e.start ≤ piece.1 ∧ piece.1 < e.stop) :
    ∃ g, .gap g ∈ swept ∧ Bears q (.gap g) := by
  induction exclusions generalizing passed rest swept with
  | nil => simp at hDeleted
  | cons e later ih =>
      obtain ⟨gaps, after, hGaps, hAfter, rfl⟩ := sweep_cons_eq_ok_iff.1 h
      obtain ⟨hFirst, hLater⟩ := List.pairwise_cons.1 hOrder
      rw [← e.front_append_covered_append_behind rest, List.mem_append, List.mem_append] at hPiece
      simp only [List.mem_cons, exists_eq_or_imp] at hDeleted
      have hStart : e.start ≤ piece.1 := by
        rcases hDeleted with hHere | ⟨other, hOther, hBehind, -⟩
        · exact hHere.1
        · exact Nat.le_trans e.ordered (Nat.le_trans (hFirst other hOther) hBehind)
      rcases hPiece with (hFront | hCovered) | hBehind
      · exact absurd (lt_of_mem_front hFront hVisible) (Nat.not_lt.2 hStart)
      · obtain ⟨g, rfl, hKept⟩ := exists_gap_of_hidden hq hGaps
          (fun hCaret => covered_of_isCaret hCaret rest) hCovered hBears
        exact ⟨g, by simp, hKept⟩
      · have hStop := hRest.le_of_mem_behind hBehind
        obtain ⟨g, hGap, hKept⟩ := ih hAfter (hRest.behind e) hLater hBehind
          (hDeleted.resolve_left fun hHere => absurd hHere.2 (Nat.not_lt.2 hStop))
        exact ⟨g, List.mem_append_right _ hGap, hKept⟩

end Exclusion

namespace View
open SourceView.Span Token

def firstOffset? (tokens : List Token) : Option Nat := ((spans tokens).map (·.start)).min?

def lastOffset? (tokens : List Token) : Option Nat := ((spans tokens).map (·.stop)).max?

variable {view after : View} {exclusions : List Exclusion}

/-- Exclusions leave every lasting property of the source material to some token. -/
theorem exists_mem_excludeAll {q : Span → Prop} (hq : Lasting q)
    (h : view.excludeAll exclusions = .ok after) (hBears : ∃ token ∈ view.tokens, Bears q token) :
    ∃ token ∈ after.tokens, Bears q token := by
  have hRooted : Rooted view.tokens := by
    obtain ⟨token, hToken, hShows, -, span, hSpan, -⟩ := hBears
    exact ⟨token, hToken, hShows, by rw [hSpan]; rfl⟩
  obtain ⟨swept, found, hSwept, -, hFound, -, -, hTokens⟩ :=
    exists_excludeAll hRooted (validate_of_excludeAll h)
  obtain rfl : after = found := Except.ok.inj (h.symm.trans hFound)
  obtain ⟨atom, hAtom, hAtomBears⟩ := exists_mem_atomize hq hBears
  rw [← map_snd_placed 0 (atomize view.tokens)] at hAtom
  obtain ⟨piece, hPiece, rfl⟩ := List.mem_map.1 hAtom
  rw [hTokens]
  exact (kept_bears hq).exists_mem_normalize
    (Exclusion.exists_mem_sweep hq hSwept ⟨piece, hPiece, hAtomBears⟩)

/-- What a span behind a view has, a span behind the view that exclusions make of it has. -/
theorem exists_span_of_excludeAll {q : Span → Prop} (hq : Lasting q)
    (h : view.excludeAll exclusions = .ok after) {span : Span} (hSpan : span ∈ spans view.tokens)
    (hHolds : q span) : ∃ other ∈ spans after.tokens, q other := by
  obtain ⟨token, hToken, hSome⟩ := List.mem_filterMap.1 hSpan
  cases hIdle : token.isIdle with
  | false =>
      obtain ⟨last, hLast, -, -, other, hOther, hLasts⟩ := exists_mem_excludeAll hq h
        ⟨token, hToken, view.canonical.shows token hToken, hIdle, span, hSome, hHolds⟩
      exact ⟨other, List.mem_filterMap.2 ⟨last, hLast, hOther⟩, hLasts⟩
  | true =>
      -- The idle gap is all that ties the view to its source, and what takes its place stands there.
      have hRooted : Rooted view.tokens := rooted_iff.2 ⟨token, hToken, by rw [hSome]; rfl⟩
      obtain ⟨hSpans, hCaret⟩ := view.canonical.spans_of_isIdle hToken hIdle hSome
      have hRegroups := regroups_excludeAll hRooted h
      obtain ⟨swept, found, -, hKept, hFound, -, -, hTokens⟩ :=
        exists_excludeAll hRooted (validate_of_excludeAll h)
      obtain rfl : after = found := Except.ok.inj (h.symm.trans hFound)
      obtain ⟨other, hOther⟩ := List.exists_mem_of_ne_nil _ (spans_ne_nil_of_rooted hKept.normalize)
      rw [← hTokens] at hOther
      have hBounds : ∀ behind ∈ spans view.tokens,
          span.start ≤ behind.start ∧ behind.stop ≤ span.stop := by
        simp [hSpans]
      have hWithin := hRegroups.within hBounds other hOther
      have hOrdered := other.ordered
      exact ⟨other, hOther, hq.widen hHolds (by omega) (by omega)⟩

/-- Exclusions leave the extent of the source behind a view as it is. -/
theorem extent_excludeAll (hRooted : Rooted view.tokens) (h : view.excludeAll exclusions = .ok after) :
    firstOffset? after.tokens = firstOffset? view.tokens ∧
      lastOffset? after.tokens = lastOffset? view.tokens := by
  have hSpans := spans_ne_nil_of_rooted hRooted
  cases hFirst : firstOffset? view.tokens with
  | none => exact absurd (List.map_eq_nil_iff.1 (List.min?_eq_none_iff.1 hFirst)) hSpans
  | some first =>
      cases hLast : lastOffset? view.tokens with
      | none => exact absurd (List.map_eq_nil_iff.1 (List.max?_eq_none_iff.1 hLast)) hSpans
      | some last =>
          obtain ⟨hLeastMem, hLeast⟩ := List.min?_eq_some_iff.1 hFirst
          obtain ⟨hMostMem, hMost⟩ := List.max?_eq_some_iff.1 hLast
          obtain ⟨least, hLeastSpan, rfl⟩ := List.mem_map.1 hLeastMem
          obtain ⟨most, hMostSpan, rfl⟩ := List.mem_map.1 hMostMem
          simp only [List.mem_map, forall_exists_index, and_imp, forall_apply_eq_imp_iff₂]
            at hLeast hMost
          have hWithin := (regroups_excludeAll hRooted h).within fun span hSpan =>
            ⟨hLeast span hSpan, hMost span hSpan⟩
          obtain ⟨low, hLow, hLowStart⟩ :=
            exists_span_of_excludeAll (lasting_start_le least.start) h hLeastSpan (Nat.le_refl _)
          obtain ⟨high, hHigh, hHighStop⟩ :=
            exists_span_of_excludeAll (lasting_le_stop most.stop) h hMostSpan (Nat.le_refl _)
          refine ⟨List.min?_eq_some_iff.2 ⟨?_, ?_⟩, List.max?_eq_some_iff.2 ⟨?_, ?_⟩⟩
          · exact List.mem_map.2 ⟨low, hLow, Nat.le_antisymm hLowStart (hWithin low hLow).1⟩
          · simpa using fun span hSpan => (hWithin span hSpan).1
          · exact List.mem_map.2 ⟨high, hHigh, Nat.le_antisymm (hWithin high hHigh).2 hHighStop⟩
          · simpa using fun span hSpan => (hWithin span hSpan).2

/-- A shown character is an atom. -/
theorem ShowsAt.exists_atom {offset position : Nat} (h : ShowsAt view offset position) :
    ∃ u : Excerpt, (offset, Token.excerpt u) ∈ placed 0 (atomize view.tokens) ∧ u.text ≠ [] ∧
      u.span.start = position ∧ u.span.stop = position + 1 := by
  obtain ⟨left, e, right, i, hTokens, hi, rfl, rfl⟩ := h
  have hStop := e.stop_eq
  have hText : (e.drop i).text ≠ [] := by
    simp only [Excerpt.drop, ne_eq, List.drop_eq_nil_iff]
    omega
  refine ⟨(e.drop i).take 1, ?_, ?_, ?_, ?_⟩
  · refine mem_placed_iff.2 ⟨atomize left ++ atoms (.excerpt (e.take i)),
      atoms (.excerpt ((e.drop i).drop 1)) ++ atomize right, ?_, ?_⟩
    · rw [hTokens, atomize_append, atomize_cons, ← atoms_take_append_atoms_drop e i,
        atoms_of_text_ne_nil hText]
      simp
    · rw [totalWidth_append, totalWidth_atomize, totalWidth_atoms, width_excerpt, Nat.zero_add]
      simp only [Excerpt.take, List.length_take]
      omega
  · simpa [Excerpt.take] using hText
  · show min (e.span.start + i) e.span.stop = e.span.start + i
    omega
  · show min (min (e.span.start + i) e.span.stop + 1) e.span.stop = e.span.start + i + 1
    omega

/-- A deleted character is behind a gap. -/
theorem exists_gap_of_excludeAll (h : view.excludeAll exclusions = .ok after) {offset position : Nat}
    (hShown : ShowsAt view offset position)
    (hDeleted : ∃ e ∈ exclusions, e.start ≤ offset ∧ offset < e.stop) :
    ∃ g, .gap g ∈ after.tokens ∧ g.anchor.start ≤ position ∧ position < g.anchor.stop := by
  have hValid := validate_of_excludeAll h
  obtain ⟨u, hPlaced, hText, hStart, hStop⟩ := hShown.exists_atom
  have hAtom : Token.excerpt u ∈ atomize view.tokens := mem_of_mem_placed hPlaced
  have hRooted : Rooted view.tokens :=
    rooted_atomize.1 ⟨.excerpt u, hAtom, (mem_atomize hAtom).1, rfl⟩
  obtain ⟨swept, found, hSwept, -, hFound, -, -, hTokens⟩ := exists_excludeAll hRooted hValid
  obtain rfl : after = found := Except.ok.inj (h.symm.trans hFound)
  have hActive : ∃ e ∈ exclusions.filter Exclusion.isActive, e.start ≤ offset ∧ offset < e.stop := by
    obtain ⟨e, he, hWithin⟩ := hDeleted
    have hProper : e.isCaret = false := Range.not_isCaret_iff.2 (by omega)
    exact ⟨e, List.mem_filter.2 ⟨he, by simp [Exclusion.isActive, hProper]⟩, hWithin⟩
  obtain ⟨g, hGap, hBears⟩ := Exclusion.exists_gap_of_deleted (lasting_holds position) hSwept
    (Exclusion.inOrder_placed 0 _) ((Exclusion.validate_eq_ok_iff.1 hValid).1.filter _) hPlaced
    (isVisible_iff.2 (List.length_pos_iff.2 hText))
    ⟨(mem_atomize hAtom).1, rfl, u.span, rfl, by omega⟩ hActive
  obtain ⟨-, hLast, last, rfl, -, -, span, ⟨⟩, hHolds⟩ :=
    (kept_bears_gap (lasting_holds position)).exists_mem_normalize ⟨_, hGap, g, rfl, hBears⟩
  rw [← hTokens] at hLast
  exact ⟨last, hLast, hHolds⟩

/-- Valid exclusions lose no source offset that a view is tied to. What they hide is behind gaps, and
the source material behind the view begins and ends where it did. Only where there is none at all is
there no place for a marker. -/
theorem source_kept (view : View) (exclusions : List Exclusion)
    (hValid : Exclusion.validate exclusions view.length = .ok ()) :
    ((∃ token ∈ view.tokens, token.span?.isSome = true) ∨ (∀ e ∈ exclusions, e.unknown = false) →
      ∃ after, view.excludeAll exclusions = .ok after ∧
        (∀ position, (∃ span ∈ spans view.tokens, span.start ≤ position ∧ position < span.stop) →
          ∃ span ∈ spans after.tokens, span.start ≤ position ∧ position < span.stop) ∧
        (∀ offset position, ShowsAt view offset position →
          (∃ e ∈ exclusions, e.start ≤ offset ∧ offset < e.stop) →
          ∃ g, .gap g ∈ after.tokens ∧ g.anchor.start ≤ position ∧ position < g.anchor.stop) ∧
        firstOffset? after.tokens = firstOffset? view.tokens ∧
        lastOffset? after.tokens = lastOffset? view.tokens) ∧
    ((∀ token ∈ view.tokens, token.span? = none) → (∃ e ∈ exclusions, e.unknown = true) →
      view.excludeAll exclusions = .error .noAnchor) := by
  refine ⟨fun hPossible => ?_, excludeAll_of_unrooted hValid⟩
  have hDone : ∃ after, view.excludeAll exclusions = .ok after ∧
      firstOffset? after.tokens = firstOffset? view.tokens ∧
      lastOffset? after.tokens = lastOffset? view.tokens := by
    by_cases hRooted : ∃ token ∈ view.tokens, token.span?.isSome = true
    · obtain ⟨-, after, -, -, hAfter, -, -, -⟩ := exists_excludeAll (rooted_iff.2 hRooted) hValid
      exact ⟨after, hAfter, extent_excludeAll (rooted_iff.2 hRooted) hAfter⟩
    · have hInactive := filter_isActive_of_unrooted hValid hRooted (hPossible.resolve_left hRooted)
      exact ⟨view, excludeAll_of_inactive hValid hInactive, rfl, rfl⟩
  obtain ⟨after, hAfter, hExtent⟩ := hDone
  refine ⟨after, hAfter, ?_, fun offset position => exists_gap_of_excludeAll hAfter, hExtent⟩
  rintro position ⟨span, hSpan, hHolds⟩
  exact exists_span_of_excludeAll (lasting_holds position) hAfter hSpan hHolds

/-- A text in front of what it follows in the source: its hidden first character stays behind a gap. -/
theorem source_kept_swapped :
    ∃ first second view,
      View.ofSpan (⟨"doc", ['a', 'b', 'c']⟩ : Source) ⟨⟨2, 3, by decide⟩, "doc"⟩ = .ok first ∧
      View.ofSpan (⟨"doc", ['a', 'b', 'c']⟩ : Source) ⟨⟨0, 2, by decide⟩, "doc"⟩ = .ok second ∧
      View.joinWithBlank [first, second] = .ok (some view) ∧
      ∃ after, view.excludeAll [⟨⟨0, 1, by decide⟩, false⟩, ⟨⟨4, 4, by decide⟩, true⟩] = .ok after ∧
        (∃ g, .gap g ∈ after.tokens ∧ g.anchor.start ≤ 2 ∧ 2 < g.anchor.stop) ∧
        firstOffset? after.tokens = some 0 ∧ lastOffset? after.tokens = some 3 := by
  have hParts : ∃ first second view,
      View.ofSpan (⟨"doc", ['a', 'b', 'c']⟩ : Source) ⟨⟨2, 3, by decide⟩, "doc"⟩ = .ok first ∧
      View.ofSpan (⟨"doc", ['a', 'b', 'c']⟩ : Source) ⟨⟨0, 2, by decide⟩, "doc"⟩ = .ok second ∧
      View.joinWithBlank [first, second] = .ok (some view) ∧ view.length = 4 ∧ ShowsAt view 0 2 ∧
      (∃ token ∈ view.tokens, token.span?.isSome = true) ∧
      firstOffset? view.tokens = some 0 ∧ lastOffset? view.tokens = some 3 :=
    ⟨_, _, _, rfl, rfl, rfl, rfl, ⟨[], _, _, 0, rfl, by decide, rfl, rfl⟩,
      ⟨_, List.mem_cons_self, rfl⟩, rfl, rfl⟩
  obtain ⟨first, second, view, hFirst, hSecond, hView, hLength, hShown, hRooted, hStart, hStop⟩ := hParts
  obtain ⟨after, hAfter, -, hHidden, hFirstOffset, hLastOffset⟩ :=
    (source_kept view [⟨⟨0, 1, by decide⟩, false⟩, ⟨⟨4, 4, by decide⟩, true⟩]
      (by rw [hLength]; rfl)).1 (.inl hRooted)
  exact ⟨first, second, view, hFirst, hSecond, hView, after, hAfter,
    hHidden 0 2 hShown ⟨_, List.mem_cons_self, by decide⟩, hFirstOffset.trans hStart,
    hLastOffset.trans hStop⟩

/-- An empty excerpt names a source but is dropped, and then nothing can be marked. -/
theorem no_source_to_keep :
    ∃ view, View.ofTokens .plainText [.excerpt ⟨⟨⟨0, 0, by decide⟩, "doc"⟩, [], rfl⟩] = .ok view ∧
      Exclusion.validate [⟨⟨0, 0, by decide⟩, true⟩] view.length = .ok () ∧
      ¬ ∃ after, view.excludeAll [⟨⟨0, 0, by decide⟩, true⟩] = .ok after := by
  refine ⟨_, rfl, rfl, ?_⟩
  rintro ⟨after, hAfter⟩
  cases hAfter

end View
end SourceView
