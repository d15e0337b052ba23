import SourceView.Proofs.Derivation
import SourceView.Proofs.Offset
import SourceView.Proofs.Regroups

/-! Views whose parts stand in the order of the source. Their spans ascend, and so the two source
offsets of the shown offsets take turns on the way through the source. -/
namespace SourceView

namespace Span

def Ascending (spans : List Span) : Prop := spans.Pairwise fun a b => a.stop ≤ b.start

/-- Two parts ascend together when each does and all of the first lies in front of the second. -/
theorem ascending_append {before after : List Span} :
    Ascending (before ++ after) ↔ Ascending before ∧ Ascending after ∧
      ∀ first ∈ before, ∀ second ∈ after, first.stop ≤ second.start :=
  List.pairwise_append

/-- Spans that can be passed through from one offset to another are those that ascend between the
two. -/
theorem chained_le_iff {start stop : Nat} {spans : List Span} :
    Chained (· ≤ ·) start spans stop ↔
      start ≤ stop ∧ Ascending spans ∧ ∀ span ∈ spans, start ≤ span.start ∧ span.stop ≤ stop := by
  induction spans generalizing start with
  | nil => simp [Chained, Ascending]
  | cons span rest ih =>
      have hOrdered := span.ordered
      simp only [Chained, ih, Ascending, List.pairwise_cons, List.mem_cons, forall_eq_or_imp]
      constructor
      · rintro ⟨hStart, hStop, hRest, hWithin⟩
        refine ⟨by omega, ⟨fun other hOther => (hWithin other hOther).1, hRest⟩, ⟨hStart, hStop⟩, ?_⟩
        intro other hOther
        have := hWithin other hOther
        omega
      · rintro ⟨-, ⟨hBetween, hRest⟩, ⟨hStart, hStop⟩, hWithin⟩
        exact ⟨hStart, hStop, hRest,
          fun other hOther => ⟨hBetween other hOther, (hWithin other hOther).2⟩⟩

theorem exists_stop_le (spans : List Span) : ∃ stop, ∀ span ∈ spans, span.stop ≤ stop := by
  induction spans with
  | nil => exact ⟨0, by simp⟩
  | cons span rest ih =>
      obtain ⟨stop, hRest⟩ := ih
      refine ⟨max span.stop stop, ?_⟩
      simp only [List.mem_cons, forall_eq_or_imp]
      exact ⟨Nat.le_max_left .., fun other h => Nat.le_trans (hRest other h) (Nat.le_max_right ..)⟩

/-- Splitting spans and uniting neighbours keeps them in order. -/
theorem Regroups.ascending {before after : List Span} (h : Regroups before after)
    (hBefore : Ascending before) : Ascending after := by
  obtain ⟨stop, hStop⟩ := exists_stop_le before
  have hChained : Chained (· ≤ ·) 0 before stop :=
    chained_le_iff.2 ⟨Nat.zero_le _, hBefore, fun span hSpan => ⟨Nat.zero_le _, hStop span hSpan⟩⟩
  exact (chained_le_iff.1 (h.chained following_le hChained)).2.1

theorem Ascending.stop_le_of_getLast? {spans : List Span} (h : Ascending spans) {last : Span}
    (hLast : spans.getLast? = some last) : ∀ span ∈ spans, span.stop ≤ last.stop := by
  obtain ⟨front, rfl⟩ := List.getLast?_eq_some_iff.1 hLast
  intro span hSpan
  rcases List.mem_append.1 hSpan with hFront | hHere
  · exact Nat.le_trans ((ascending_append.1 h).2.2 span hFront last (by simp)) last.ordered
  · obtain rfl := List.mem_singleton.1 hHere
    exact Nat.le_refl _

theorem Ascending.start_le_of_head? {spans : List Span} (h : Ascending spans) {first : Span}
    (hFirst : spans.head? = some first) : ∀ span ∈ spans, first.start ≤ span.start := by
  obtain ⟨rest, rfl⟩ := List.head?_eq_some_iff.1 hFirst
  simp only [List.mem_cons, forall_eq_or_imp]
  refine ⟨Nat.le_refl _, fun span hSpan => ?_⟩
  exact Nat.le_trans first.ordered ((List.pairwise_cons.1 h).1 span hSpan)

end Span

namespace View
open Token SourceView.Span

/-- Whether all source material of the first view ends where that of the second begins or in front
of that. -/
def Precedes (a b : View) : Prop :=
  ∀ first ∈ spans a.tokens, ∀ second ∈ spans b.tokens, first.stop ≤ second.start

/-- A view that is obtained from the text of a source by hiding, marking and trimming, and by joining
views in the order of their source material. -/
inductive DocumentOrdered : View → Prop
  | ofSpan {α : Type} [Provider α] (provider : α) (span : Span) (domain : Domain) {view : View}
      (h : View.ofSpan provider span domain = .ok view) : DocumentOrdered view
  | ofSource (source : Source) (domain : Domain) {view : View}
      (h : View.ofSource source domain = .ok view) : DocumentOrdered view
  | join {views : List View} {view : View} (hViews : ∀ part ∈ views, DocumentOrdered part)
      (hOrder : views.Pairwise Precedes) (h : View.join views = .ok view) : DocumentOrdered view
  | joinWithBlank {views : List View} {view : View} (blank : List Char)
      (hViews : ∀ part ∈ views, DocumentOrdered part) (hOrder : views.Pairwise Precedes)
      (h : View.joinWithBlank views blank = .ok (some view)) : DocumentOrdered view
  | hide {before view : View} (wanted : Loose) (hBefore : DocumentOrdered before)
      (h : before.hide wanted = .ok view) : DocumentOrdered view
  | mark {before view : View} (wanted : Loose) (hBefore : DocumentOrdered before)
      (h : before.mark wanted = .ok view) : DocumentOrdered view
  | excludeAll {before view : View} (exclusions : List Exclusion) (hBefore : DocumentOrdered before)
      (h : before.excludeAll exclusions = .ok view) : DocumentOrdered view
  | trim {before view : View} (hBefore : DocumentOrdered before) (h : before.trim = .ok view) :
      DocumentOrdered view

/-- Views are joined in the order of their source material, with separators or without. -/
theorem DocumentOrdered.derived {view : View} (h : DocumentOrdered view) :
    Derived (fun _ _ _ _ => True) (List.Pairwise Precedes) (List.Pairwise Precedes) view := by
  induction h with
  | ofSpan provider span domain h => exact .ofSpan trivial h
  | ofSource source domain h => exact .ofSource trivial h
  | join hViews hOrder h ih => exact .join ih hOrder h
  | joinWithBlank blank hViews hOrder h ih => exact .joinWithBlank ih hOrder h
  | hide wanted hBefore h ih => exact Derived.preserved.hide h ih
  | mark wanted hBefore h ih => exact Derived.preserved.mark h ih
  | excludeAll exclusions hBefore h ih => exact .excludeAll ih h
  | trim hBefore h ih => exact Derived.preserved.trim h ih

theorem DocumentOrdered.grounded {view : View} (h : DocumentOrdered view) : Grounded view.tokens :=
  h.derived.grounded

/-- The view of a span has no other spans than that one. -/
theorem ascending_ofSpan {α : Type} [Provider α] {provider : α} {span : Span} {domain : Domain}
    {view : View} (h : View.ofSpan provider span domain = .ok view) :
    Ascending (spans view.tokens) := by
  obtain ⟨token, hSpan, -, -, hTokens⟩ := exists_token_of_ofSpan h
  have hOne : spans [token] = [span] := List.filterMap_cons_some hSpan
  rw [hTokens]
  exact (regroups_normalize [token]).ascending (hOne ▸ List.pairwise_singleton _ _)

/-- Separators add no spans to those of the parts. -/
theorem spans_spacedTokens (separator : Separator) (last? : Option Char) (views : List View) :
    spans (spacedTokens separator last? views) = views.flatMap fun view => spans view.tokens := by
  induction views generalizing last? with
  | nil => rfl
  | cons view rest ih =>
      rw [spacedTokens, spans_append, spans_append, ih, List.flatMap_cons]
      split <;> rfl

/-- The spans of views in order ascend when those of each view do. -/
theorem ascending_flatMap {views : List View} (hViews : ∀ view ∈ views, Ascending (spans view.tokens))
    (hOrder : views.Pairwise Precedes) :
    Ascending (views.flatMap fun view => spans view.tokens) :=
  List.pairwise_flatMap.2 ⟨hViews, hOrder⟩

/-- Joins in the order of the source material keep the spans in order. So do exclusions, which split
spans or unite neighbours. -/
theorem Derived.ascending {reads : (α : Type) → Provider α → α → Span → Prop}
    {spaces : List View → Prop} (hSpaces : ∀ views, spaces views → views.Pairwise Precedes)
    {view : View} (h : Derived reads (List.Pairwise Precedes) spaces view) :
    Ascending (spans view.tokens) := by
  induction h with
  | ofSpan hReads h => exact ascending_ofSpan h
  | join hViews hOrder h ih =>
      rcases join_cases h with rfl | hTokens
      · exact ih _ List.mem_cons_self
      · rw [hTokens]
        apply (regroups_normalize _).ascending
        rw [spans, List.filterMap_flatMap]
        exact ascending_flatMap ih hOrder
  | joinWithBlank hViews hOrder h ih =>
      rcases joinWithBlank_cases h with rfl | ⟨separator, hTokens⟩
      · exact ih _ List.mem_cons_self
      · rw [hTokens]
        apply (regroups_normalize _).ascending
        rw [spans_spacedTokens]
        exact ascending_flatMap ih (hSpaces _ hOrder)
  | excludeAll hBefore h ih => exact (regroups_excludeAll hBefore.grounded.rooted h).ascending ih

/-- The spans of a view in document order ascend. -/
theorem DocumentOrdered.ascending {view : View} (h : DocumentOrdered view) :
    Ascending (spans view.tokens) := h.derived.ascending fun _ hOrder => hOrder

namespace Boundary
variable {view : View} {offset : Nat} {left hidden right : List Token}

/-- The spans on the two sides of a boundary ascend, those hidden at it between them. -/
theorem ascending_parts (h : Boundary view offset left hidden right)
    (hAscending : Ascending (spans view.tokens)) :
    Ascending (spans left ++ (spans hidden ++ spans right)) := by
  rwa [h.tokens_eq, spans_append, spans_append] at hAscending

/-- The source offset behind a boundary parts the spans: those up to there end in front of it, and
the others begin behind it. -/
theorem behind_parts (h : Boundary view offset left hidden right)
    (hAscending : Ascending (spans view.tokens)) (hSpans : spans view.tokens ≠ []) {position : Nat}
    (hBehind : view.sourceOffset offset .behind = .ok position) :
    (∀ span ∈ spans (left ++ hidden), span.stop ≤ position) ∧
      ∀ span ∈ spans right, position ≤ span.start := by
  obtain ⟨found, hFound, hFrom⟩ := h.exists_behind hSpans
  obtain rfl : position = found := Except.ok.inj (hBehind.symm.trans hFound)
  have hParts := h.ascending_parts hAscending
  rw [← List.append_assoc, ← spans_append] at hParts
  obtain ⟨hFront, hRight, hBetween⟩ := ascending_append.1 hParts
  rcases hFrom with ⟨e, rest, rfl, rfl⟩ | ⟨last, hLast, rfl⟩ | ⟨hNone, first, hFirst, rfl⟩
  · exact ⟨fun span hSpan => hBetween span hSpan e.span List.mem_cons_self,
      hRight.start_le_of_head? rfl⟩
  · exact ⟨hFront.stop_le_of_getLast? hLast, hBetween last (List.mem_of_getLast? hLast)⟩
  · rw [hNone]
    exact ⟨by simp, hRight.start_le_of_head? hFirst⟩

/-- The source offset in front of a boundary ends the spans of what is shown up to there. -/
theorem stop_le_before (h : Boundary view offset left hidden right)
    (hAscending : Ascending (spans view.tokens)) (hSpans : spans view.tokens ≠ []) {position : Nat}
    (hBefore : view.sourceOffset offset .before = .ok position) :
    ∀ span ∈ spans left, span.stop ≤ position := by
  obtain ⟨found, hFound, hFrom⟩ := h.exists_before hSpans
  obtain rfl : position = found := Except.ok.inj (hBefore.symm.trans hFound)
  obtain ⟨hLeft, -, hBetween⟩ := ascending_append.1 (h.ascending_parts hAscending)
  rcases hFrom with ⟨front, e, rfl, rfl⟩ | ⟨first, hFirst, rfl⟩ | ⟨-, hSame⟩
  · apply hLeft.stop_le_of_getLast?
    rw [spans_append]
    exact List.getLast?_concat
  · intro span hSpan
    exact hBetween span hSpan first (List.mem_append_left _ (List.mem_of_head? hFirst))
  · intro span hSpan
    apply (h.behind_parts hAscending hSpans hSame).1
    rw [spans_append]
    exact List.mem_append_left _ hSpan

/-- At a boundary the source offset in front of hidden material is not behind the other one. -/
theorem before_le_behind (h : Boundary view offset left hidden right)
    (hAscending : Ascending (spans view.tokens)) (hSpans : spans view.tokens ≠ []) {before behind : Nat}
    (hBefore : view.sourceOffset offset .before = .ok before)
    (hBehind : view.sourceOffset offset .behind = .ok behind) : before ≤ behind := by
  obtain ⟨found, hFound, hFrom⟩ := h.exists_before hSpans
  obtain rfl : before = found := Except.ok.inj (hBefore.symm.trans hFound)
  have hEnds := (h.behind_parts hAscending hSpans hBehind).1
  rw [spans_append] at hEnds
  rcases hFrom with ⟨front, e, rfl, rfl⟩ | ⟨first, hFirst, rfl⟩ | ⟨-, hSame⟩
  · apply hEnds
    rw [spans_append]
    simp [spans, span?]
  · exact Nat.le_trans first.ordered (hEnds first (List.mem_append_right _ (List.mem_of_head? hFirst)))
  · exact Nat.le_of_eq (Except.ok.inj (hSame.symm.trans hBehind))

end Boundary

/-- The two source offsets of a shown offset are the same one within an excerpt, and in order at a
boundary. -/
theorem before_le_behind {view : View} (hAscending : Ascending (spans view.tokens))
    (hSpans : spans view.tokens ≠ []) {offset before behind : Nat} (hOffset : offset ≤ view.length)
    (hBefore : view.sourceOffset offset .before = .ok before)
    (hBehind : view.sourceOffset offset .behind = .ok behind) : before ≤ behind := by
  rcases exists_inside_or_boundary hOffset with
    ⟨left, e, right, i, hTokens, hPositive, hLength, rfl⟩ | ⟨left, hidden, right, hParts⟩
  · rw [sourceOffset_inside .before hTokens hPositive hLength] at hBefore
    rw [sourceOffset_inside .behind hTokens hPositive hLength] at hBehind
    exact Nat.le_of_eq (Except.ok.inj (hBefore.symm.trans hBehind))
  · exact hParts.before_le_behind hAscending hSpans hBefore hBehind

/-- An active separator has source material in front of it. -/
theorem spans_ne_nil_of_active {view : View} {left right : List Token} {s : Separator}
    (hTokens : view.tokens = left ++ .separator s :: right) (hActive : s.active = true) :
    spans left ≠ [] := by
  have hSettled := view.canonical.settled
  rw [hTokens, settled_append] at hSettled
  have hWakes : left.any wakes = true := by
    rw [← hActive, hSettled.2.1, Bool.false_or]
  obtain ⟨token, hToken, hWakes⟩ := List.any_eq_true.1 hWakes
  intro hNone
  have hSpan := List.filterMap_eq_nil_iff.1 hNone token hToken
  cases token with
  | separator s => cases hWakes
  | excerpt e => cases hSpan
  | gap g => cases hSpan

/-- Passing an active separator never leads back in the source. -/
theorem behind_le_before_of_separator {view : View} (hAscending : Ascending (spans view.tokens))
    (hSpans : spans view.tokens ≠ []) {left right : List Token} {s : Separator}
    (hTokens : view.tokens = left ++ .separator s :: right) (hActive : s.active = true)
    {before behind : Nat}
    (hBehind : view.sourceOffset (totalWidth left : Nat) .behind = .ok behind)
    (hBefore : view.sourceOffset (totalWidth left + 1 : Nat) .before = .ok before) :
    behind ≤ before := by
  have hWidth : (Token.separator s).width = 1 := by simp [width_separator, hActive]
  have hVisible : (Token.separator s).isVisible = true := isVisible_iff.2 (by omega)
  obtain ⟨shown, hidden, hLeft, hFront⟩ := exists_boundary_front hTokens hVisible
  obtain ⟨_, _, -, hBack⟩ := exists_boundary_back hTokens hVisible
  rw [hWidth] at hBack
  obtain ⟨found, hFound, hFrom⟩ := hFront.exists_behind hSpans
  obtain rfl : behind = found := Except.ok.inj (hBehind.symm.trans hFound)
  rw [← hLeft] at hFrom
  rcases hFrom with ⟨e, rest, hEq, -⟩ | ⟨last, hLast, rfl⟩ | ⟨hNone, -⟩
  · cases hEq
  · apply hBack.stop_le_before hAscending hSpans hBefore
    rw [spans_append]
    exact List.mem_append_left _ (List.mem_of_getLast? hLast)
  · exact absurd hNone (spans_ne_nil_of_active hTokens hActive)

/-- Passing one shown character or separator never leads back in the source. -/
theorem behind_le_before_succ {view : View} (hAscending : Ascending (spans view.tokens))
    (hSpans : spans view.tokens ≠ []) {offset before behind : Nat} (hOffset : offset < view.length)
    (hBehind : view.sourceOffset offset .behind = .ok behind)
    (hBefore : view.sourceOffset (offset + 1 : Nat) .before = .ok before) : behind ≤ before := by
  rcases exists_showsAt_or_separator hOffset with
    ⟨position, hShown⟩ | ⟨left, s, right, hTokens, hActive, rfl⟩
  · obtain rfl : behind = position := Except.ok.inj (hBehind.symm.trans hShown.sourceOffset_behind)
    obtain rfl : before = behind + 1 := Except.ok.inj (hBefore.symm.trans hShown.sourceOffset_before)
    exact Nat.le_succ _
  · exact behind_le_before_of_separator hAscending hSpans hTokens hActive hBehind hBefore

/-- Both source offsets of every shown offset, as they take turns: what is hidden at an offset lies
between the two, and what is shown there lies between the second and the first one at the next
offset. -/
structure Interleaved (view : View) (before behind : Nat → Nat) : Prop where
  before_eq : ∀ offset ≤ view.length, view.sourceOffset offset .before = .ok (before offset)
  behind_eq : ∀ offset ≤ view.length, view.sourceOffset offset .behind = .ok (behind offset)
  ordered : ∀ offset ≤ view.length, before offset ≤ behind offset
  next : ∀ offset < view.length, behind offset ≤ before (offset + 1)

/-- Where the spans of a grounded view ascend, every offset has both source offsets, and they take
turns. -/
theorem exists_interleaved {view : View} (hGrounded : Grounded view.tokens)
    (hAscending : Ascending (spans view.tokens)) :
    ∃ before behind, Interleaved view before behind := by
  have hSpans := spans_ne_nil_of_rooted hGrounded.rooted
  let position (side : Side) (offset : Nat) : Nat :=
    (view.sourceOffset offset side).toOption.getD 0
  have hPosition (side : Side) (offset : Nat) (hOffset : offset ≤ view.length) :
      view.sourceOffset offset side = .ok (position side offset) := by
    obtain ⟨found, hFound, -⟩ := exists_sourceOffset hSpans hOffset side
    have hSame : position side offset = found := by simp only [position, hFound]; rfl
    rw [hSame, hFound]
  refine ⟨position .before, position .behind, hPosition .before, hPosition .behind, ?_, ?_⟩
  · intro offset hOffset
    exact View.before_le_behind hAscending hSpans hOffset (hPosition .before offset hOffset)
      (hPosition .behind offset hOffset)
  · intro offset hOffset
    exact behind_le_before_succ hAscending hSpans hOffset
      (hPosition .behind offset (Nat.le_of_lt hOffset)) (hPosition .before (offset + 1) hOffset)

namespace Interleaved
variable {view : View} {before behind : Nat → Nat}

/-- Of two shown offsets the whole interval of the first lies in front of that of the second. -/
theorem behind_le_before (h : Interleaved view before behind) {first second : Nat}
    (hOrder : first < second) (hSecond : second ≤ view.length) : behind first ≤ before second := by
  induction second with
  | zero => exact absurd hOrder (Nat.not_lt_zero _)
  | succ second ih =>
      have hNext := h.next second hSecond
      rcases Nat.lt_succ_iff_lt_or_eq.1 hOrder with hLess | rfl
      · have hHere := ih hLess (by omega)
        have hOrdered := h.ordered second (by omega)
        omega
      · exact hNext

theorem before_mono (h : Interleaved view before behind) {first second : Nat}
    (hOrder : first ≤ second) (hSecond : second ≤ view.length) : before first ≤ before second := by
  rcases Nat.eq_or_lt_of_le hOrder with rfl | hLess
  · exact Nat.le_refl _
  · exact Nat.le_trans (h.ordered first (by omega)) (h.behind_le_before hLess hSecond)

theorem behind_mono (h : Interleaved view before behind) {first second : Nat}
    (hOrder : first ≤ second) (hSecond : second ≤ view.length) : behind first ≤ behind second := by
  rcases Nat.eq_or_lt_of_le hOrder with rfl | hLess
  · exact Nat.le_refl _
  · exact Nat.le_trans (h.behind_le_before hLess hSecond) (h.ordered second hSecond)

end Interleaved

/-- Along a view in document order both source offsets ascend, and they take turns. -/
theorem offsets_interleave {view : View} (hView : DocumentOrdered view) :
    ∃ before behind, Interleaved view before behind ∧
      ∀ first second, first ≤ second → second ≤ view.length →
        before first ≤ before second ∧ behind first ≤ behind second := by
  obtain ⟨before, behind, hOffsets⟩ := exists_interleaved hView.grounded hView.ascending
  refine ⟨before, behind, hOffsets, fun first second hOrder hSecond => ?_⟩
  exact ⟨hOffsets.before_mono hOrder hSecond, hOffsets.behind_mono hOrder hSecond⟩

/-- Two parts of a text with some of it left out between them, a separator in its place, and a marker
in front of it. -/
theorem offsets_interleave_separated :
    ∃ first second marked view,
      View.ofSpan (⟨"doc", ['a', 'b', 'c', 'd']⟩ : Source) ⟨⟨0, 2, by decide⟩, "doc"⟩ = .ok first ∧
      View.ofSpan (⟨"doc", ['a', 'b', 'c', 'd']⟩ : Source) ⟨⟨3, 4, by decide⟩, "doc"⟩ = .ok second ∧
      first.mark (.range ⟨1, 2, by decide⟩) = .ok marked ∧
      View.joinWithBlank [marked, second] = .ok (some view) ∧
      ∃ before behind, Interleaved view before behind ∧
        ∀ first second, first ≤ second → second ≤ view.length →
          before first ≤ before second ∧ behind first ≤ behind second := by
  have hParts : ∃ first second marked view,
      View.ofSpan (⟨"doc", ['a', 'b', 'c', 'd']⟩ : Source) ⟨⟨0, 2, by decide⟩, "doc"⟩ = .ok first ∧
      View.ofSpan (⟨"doc", ['a', 'b', 'c', 'd']⟩ : Source) ⟨⟨3, 4, by decide⟩, "doc"⟩ = .ok second ∧
      first.mark (.range ⟨1, 2, by decide⟩) = .ok marked ∧
      View.joinWithBlank [marked, second] = .ok (some view) ∧ Precedes marked second := by
    refine ⟨_, _, _, _, rfl, rfl, rfl, rfl, ?_⟩
    unfold Precedes
    decide
  obtain ⟨first, second, marked, view, hFirst, hSecond, hMarked, hView, hOrder⟩ := hParts
  refine ⟨first, second, marked, view, hFirst, hSecond, hMarked, hView, ?_⟩
  apply offsets_interleave
  refine .joinWithBlank [' '] ?_ (by simp [hOrder]) hView
  simp only [List.mem_cons, forall_eq_or_imp]
  refine ⟨.mark _ (.ofSpan _ _ _ hFirst) hMarked, .ofSpan _ _ _ hSecond, by simp⟩

end View
end SourceView
