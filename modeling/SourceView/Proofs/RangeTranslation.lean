import SourceView.Proofs.DocumentOrder

/-! Ranges of views in document order. A shown range and its source range hold the same characters,
and so do a source range and the shown range that it is translated to. -/
namespace SourceView.View
open Token SourceView.Span

/-- A range that is not empty goes to the source offsets behind its start and in front of its end,
without being turned around where these are in order. -/
theorem sourceRange_eq {view : View} {wanted : Loose} {range : Range} {start stop : Nat}
    (hWanted : wanted.toRange = .ok range) (hNotCaret : range.start < range.stop)
    (hStop : range.stop ≤ view.length)
    (hBehind : view.sourceOffset range.start .behind = .ok start)
    (hBefore : view.sourceOffset range.stop .before = .ok stop) (hOrdered : start ≤ stop) :
    view.sourceRange wanted = .ok ⟨start, stop, hOrdered⟩ := by
  have hCaret : range.isCaret = false := Range.not_isCaret_iff.2 hNotCaret
  simp only [sourceRange, checkedRange_of_le hWanted hStop, hCaret, bind, Except.bind, pure,
    Except.pure, Bool.false_eq_true, if_false, hBehind, hBefore, Nat.min_eq_left hOrdered,
    Nat.max_eq_right hOrdered]

/-- A shown character is in a shown range exactly when it is between the source offset behind the
start of the range and the one in front of its end. -/
theorem Interleaved.mem_range_iff {view : View} {before behind : Nat → Nat}
    (h : Interleaved view before behind) {start stop offset position : Nat}
    (hStart : start ≤ view.length) (hStop : stop ≤ view.length) (hOffset : offset < view.length)
    (hShown : ShowsAt view offset position) :
    start ≤ offset ∧ offset < stop ↔ behind start ≤ position ∧ position < before stop := by
  have hHere : behind offset = position :=
    Except.ok.inj ((h.behind_eq offset (Nat.le_of_lt hOffset)).symm.trans hShown.sourceOffset_behind)
  have hNext : before (offset + 1) = position + 1 :=
    Except.ok.inj ((h.before_eq (offset + 1) hOffset).symm.trans hShown.sourceOffset_before)
  constructor
  · rintro ⟨hFirst, hLast⟩
    have hBehind := h.behind_mono hFirst (Nat.le_of_lt hOffset)
    have hBefore : before (offset + 1) ≤ before stop := h.before_mono hLast hStop
    omega
  · rintro ⟨hFirst, hLast⟩
    constructor
    · apply Nat.le_of_not_lt
      intro hEarly
      have hBefore : before (offset + 1) ≤ before start := h.before_mono hEarly hStart
      have hOrdered := h.ordered start hStart
      omega
    · apply Nat.lt_of_not_le
      intro hLate
      have hBefore := h.before_mono hLate (Nat.le_of_lt hOffset)
      have hOrdered := h.ordered offset (Nat.le_of_lt hOffset)
      omega

theorem ShowsAt.lt_length {view : View} {offset position : Nat} (h : ShowsAt view offset position) :
    offset < view.length := by
  obtain ⟨left, e, right, i, hTokens, hi, rfl, -⟩ := h
  rw [show view.length = totalWidth view.tokens from length_shownText _, hTokens, totalWidth_append]
  simp only [totalWidth, width_excerpt]
  omega

/-- An excerpt touches the source offsets from its start to its end, both of them included. -/
theorem touching?_eq_some_iff {target shown : Nat} {piece : Nat × Token} :
    touching? target piece = some shown ↔ ∃ e, piece.2 = .excerpt e ∧ e.span.start ≤ target ∧
      target ≤ e.span.stop ∧ shown = piece.1 + (target - e.span.start) := by
  obtain ⟨start, token⟩ := piece
  cases token with
  | gap g => simp [touching?]
  | separator s => simp [touching?]
  | excerpt e =>
      simp only [touching?, Range.touches, Option.ite_none_right_eq_some, Bool.and_eq_true,
        decide_eq_true_eq, Int.ofNat_le, Int.toNat_natCast, Option.some.injEq, excerpt.injEq,
        exists_eq_left', and_assoc, @eq_comm _ _ shown]

/-- A character of the source is shown where an excerpt that has it is placed. -/
theorem showsAt_iff {view : View} {offset position : Nat} :
    ShowsAt view offset position ↔ ∃ start e i, (start, Token.excerpt e) ∈ placed 0 view.tokens ∧
      i < e.text.length ∧ offset = start + i ∧ position = e.span.start + i := by
  constructor
  · rintro ⟨left, e, right, i, hTokens, hi, rfl, rfl⟩
    exact ⟨_, e, i, mem_placed_iff.2 ⟨left, right, hTokens, (Nat.zero_add _).symm⟩, hi, rfl, rfl⟩
  · rintro ⟨start, e, i, hPlaced, hi, rfl, rfl⟩
    obtain ⟨left, right, hTokens, rfl⟩ := mem_placed_iff.1 hPlaced
    exact ⟨left, e, right, i, hTokens, hi, by rw [Nat.zero_add], rfl⟩

/-- What stands in front of another token in a view does so in the source. -/
theorem pairwise_spans_placed {view : View} (hAscending : Ascending (spans view.tokens)) :
    (placed 0 view.tokens).Pairwise fun a b => ∀ first, a.2.span? = some first →
      ∀ second, b.2.span? = some second → first.stop ≤ second.start := by
  rw [← map_snd_placed 0 view.tokens, Exclusion.spans_map_snd] at hAscending
  exact List.pairwise_filterMap.1 hAscending

/-- Where a source offset is shown, and how the other excerpts stand to the one there: those in front
of it end in front of the source offset, and the others begin behind it. -/
theorem exists_of_shownOffset? {view : View} (hAscending : Ascending (spans view.tokens))
    {target shown : Nat} (h : view.shownOffset? target = some shown) :
    ∃ start e, (start, Token.excerpt e) ∈ placed 0 view.tokens ∧ e.span.start ≤ target ∧
      target ≤ e.span.stop ∧ shown = start + (target - e.span.start) ∧
      ∀ other u, (other, Token.excerpt u) ∈ placed 0 view.tokens →
        (other + u.text.length ≤ start ∧ u.span.stop < target) ∨ (other = start ∧ u = e) ∨
          (start + e.text.length ≤ other ∧ e.span.stop ≤ u.span.start) := by
  obtain ⟨front, ⟨start, token⟩, back, hPlaced, hTouches, hMissed⟩ := List.findSome?_eq_some_iff.1 h
  obtain ⟨e, rfl, hStart, hStop, rfl⟩ := touching?_eq_some_iff.1 hTouches
  have hApart := pairwise_placed 0 view.tokens
  have hOrder := pairwise_spans_placed hAscending
  rw [hPlaced] at hApart hOrder
  refine ⟨start, e, by simp [hPlaced], hStart, hStop, rfl, fun other u hMem => ?_⟩
  rw [hPlaced] at hMem
  rcases List.mem_append.1 hMem with hFront | hHere
  · have hWidth : other + u.text.length ≤ start :=
      (List.pairwise_append.1 hApart).2.2 _ hFront _ List.mem_cons_self
    have hSpan : u.span.stop ≤ e.span.start :=
      (List.pairwise_append.1 hOrder).2.2 _ hFront _ List.mem_cons_self _ rfl _ rfl
    -- The excerpt would have been found first if it reached the source offset.
    have hAway : ¬ target ≤ u.span.stop := by
      intro hReached
      have hOrdered := u.span.ordered
      have hTouched : touching? target (other, .excerpt u) = some _ :=
        touching?_eq_some_iff.2 ⟨u, rfl, by omega, hReached, rfl⟩
      rw [hMissed _ hFront] at hTouched
      cases hTouched
    exact .inl ⟨hWidth, Nat.lt_of_not_le hAway⟩
  · rcases List.mem_cons.1 hHere with hSame | hBack
    · obtain ⟨rfl, hToken⟩ := Prod.mk.inj hSame
      exact .inr (.inl ⟨rfl, by simpa using hToken⟩)
    · have hWidth : start + e.text.length ≤ other :=
        (List.pairwise_cons.1 (List.pairwise_append.1 hApart).2.1).1 _ hBack
      have hSpan : e.span.stop ≤ u.span.start :=
        (List.pairwise_cons.1 (List.pairwise_append.1 hOrder).2.1).1 _ hBack _ rfl _ rfl
      exact .inr (.inr ⟨hWidth, hSpan⟩)

/-- A source offset is shown in front of exactly those characters that it is in front of. -/
theorem le_iff_of_shownOffset? {view : View} (hAscending : Ascending (spans view.tokens))
    {target shown offset position : Nat} (hTarget : view.shownOffset? target = some shown)
    (hShown : ShowsAt view offset position) : shown ≤ offset ↔ target ≤ position := by
  obtain ⟨start, e, -, hStart, hStop, rfl, hOthers⟩ := exists_of_shownOffset? hAscending hTarget
  obtain ⟨other, u, i, hMem, hi, rfl, rfl⟩ := showsAt_iff.1 hShown
  have hEnd := e.stop_eq
  have hOtherEnd := u.stop_eq
  rcases hOthers other u hMem with hFront | ⟨rfl, rfl⟩ | hBack
  · omega
  · omega
  · omega

/-- Of two source offsets that are shown, the later one is not shown in front of the earlier one. -/
theorem shownOffset?_mono {view : View} (hAscending : Ascending (spans view.tokens))
    {first last shownFirst shownLast : Nat} (hOrder : first ≤ last)
    (hFirst : view.shownOffset? first = some shownFirst)
    (hLast : view.shownOffset? last = some shownLast) : shownFirst ≤ shownLast := by
  obtain ⟨start, e, -, hStart, hStop, rfl, hOthers⟩ := exists_of_shownOffset? hAscending hFirst
  obtain ⟨other, u, hMem, hOtherStart, hOtherStop, rfl, -⟩ := exists_of_shownOffset? hAscending hLast
  have hEnd := e.stop_eq
  rcases hOthers other u hMem with hFront | ⟨rfl, rfl⟩ | hBack
  · omega
  · omega
  · omega

/-- A source range is translated by its two ends. They are never found in reverse order. -/
theorem shownRange?_eq_ok_iff {view : View} {wanted : Loose} {range shown : Range}
    (hWanted : wanted.toRange = .ok range) :
    view.shownRange? wanted = .ok (some shown) ↔
      view.shownOffset? range.start = some shown.start ∧
        view.shownOffset? range.stop = some shown.stop := by
  obtain ⟨shownStart, shownStop, hOrdered⟩ := shown
  simp only [shownRange?, hWanted, bind, Except.bind]
  cases hStart : view.shownOffset? range.start with
  | none => simp [pure, Except.pure]
  | some start =>
      cases hStop : view.shownOffset? range.stop with
      | none => simp [pure, Except.pure]
      | some stop =>
          by_cases hLe : start ≤ stop
          · simp [hLe, pure, Except.pure]
          · simp only [dif_neg hLe]
            constructor
            · intro h
              cases h
            · rintro ⟨⟨⟩, ⟨⟩⟩
              exact absurd hOrdered hLe

/-- How ranges are translated. A shown range that is not empty goes to the range from the source
offset behind its start to the one in front of its end, which holds the same characters. A source
range whose ends are both shown goes to the range between them, which also holds the same ones. -/
structure RangesExact (view : View) : Prop where
  toSource : ∀ wanted range, Loose.toRange wanted = .ok range → range.start < range.stop →
    range.stop ≤ view.length → ∃ found, view.sourceRange wanted = .ok found ∧
      view.sourceOffset range.start .behind = .ok found.start ∧
      view.sourceOffset range.stop .before = .ok found.stop ∧
      ∀ offset position, ShowsAt view offset position →
        (range.start ≤ offset ∧ offset < range.stop ↔
          found.start ≤ position ∧ position < found.stop)
  toShown : ∀ wanted range found, Loose.toRange wanted = .ok range →
    view.shownRange? wanted = .ok (some found) →
      ∀ offset position, ShowsAt view offset position →
        (found.start ≤ offset ∧ offset < found.stop ↔
          range.start ≤ position ∧ position < range.stop)
  ends : ∀ wanted range start stop, Loose.toRange wanted = .ok range →
    view.shownOffset? range.start = some start → view.shownOffset? range.stop = some stop →
      ∃ hOrdered, view.shownRange? wanted = .ok (some ⟨start, stop, hOrdered⟩)

/-- In a view in document order ranges are translated exactly in both directions. -/
theorem ranges_exact {view : View} (hView : DocumentOrdered view) : RangesExact view := by
  obtain ⟨before, behind, hOffsets⟩ := exists_interleaved hView.grounded hView.ascending
  refine ⟨fun wanted range hWanted hNotCaret hStop => ?_,
    fun wanted range found hWanted hFound offset position hShown => ?_,
    fun wanted range start stop hWanted hStart hStop => ?_⟩
  · have hBehind := hOffsets.behind_eq range.start (by omega)
    have hBefore := hOffsets.before_eq range.stop hStop
    have hOrdered := hOffsets.behind_le_before hNotCaret hStop
    refine ⟨⟨behind range.start, before range.stop, hOrdered⟩,
      sourceRange_eq hWanted hNotCaret hStop hBehind hBefore hOrdered, hBehind, hBefore, ?_⟩
    intro offset position hShown
    exact hOffsets.mem_range_iff (by omega) hStop hShown.lt_length hShown
  · obtain ⟨hStart, hStop⟩ := (shownRange?_eq_ok_iff hWanted).1 hFound
    have hFirst := le_iff_of_shownOffset? hView.ascending hStart hShown
    have hLast := le_iff_of_shownOffset? hView.ascending hStop hShown
    omega
  · have hOrdered := shownOffset?_mono hView.ascending range.ordered hStart hStop
    exact ⟨hOrdered, (shownRange?_eq_ok_iff hWanted).2 ⟨hStart, hStop⟩⟩

/-- A text with a character hidden, in front of a later part and a separator. -/
theorem ranges_exact_separated :
    ∃ first second hidden view,
      View.ofSpan (⟨"doc", ['a', 'b', 'c', 'd', 'e']⟩ : Source) ⟨⟨0, 3, by decide⟩, "doc"⟩ = .ok first ∧
      View.ofSpan (⟨"doc", ['a', 'b', 'c', 'd', 'e']⟩ : Source) ⟨⟨4, 5, by decide⟩, "doc"⟩ =
        .ok second ∧
      first.hide (.range ⟨1, 2, by decide⟩) = .ok hidden ∧
      View.joinWithBlank [hidden, second] = .ok (some view) ∧ RangesExact view := by
  have hParts : ∃ first second hidden view,
      View.ofSpan (⟨"doc", ['a', 'b', 'c', 'd', 'e']⟩ : Source) ⟨⟨0, 3, by decide⟩, "doc"⟩ = .ok first ∧
      View.ofSpan (⟨"doc", ['a', 'b', 'c', 'd', 'e']⟩ : Source) ⟨⟨4, 5, by decide⟩, "doc"⟩ =
        .ok second ∧
      first.hide (.range ⟨1, 2, by decide⟩) = .ok hidden ∧
      View.joinWithBlank [hidden, second] = .ok (some view) ∧ Precedes hidden second := by
    refine ⟨_, _, _, _, rfl, rfl, rfl, rfl, ?_⟩
    unfold Precedes
    decide
  obtain ⟨first, second, hidden, view, hFirst, hSecond, hHidden, hView, hOrder⟩ := hParts
  refine ⟨first, second, hidden, view, hFirst, hSecond, hHidden, hView, ?_⟩
  apply ranges_exact
  refine .joinWithBlank [' '] ?_ (by simp [hOrder]) hView
  simp only [List.mem_cons, forall_eq_or_imp]
  exact ⟨.hide _ (.ofSpan _ _ _ hFirst) hHidden, .ofSpan _ _ _ hSecond, by simp⟩

end SourceView.View
