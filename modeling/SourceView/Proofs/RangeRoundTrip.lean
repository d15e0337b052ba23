import SourceView.Proofs.RoundTrip

/-! Ranges from the view to the source and back. Where everything shown comes from the source, an
offset of the shown text is determined by the characters in front of it. A view in document order
keeps them in front in the source as well, so the way back leads to the same offset. -/
namespace SourceView.View
open Token

def Unseparated (view : View) : Prop := ∀ token ∈ view.tokens, token.isSeparator = false

/-- A view that is obtained from the text of a source by hiding, marking and trimming, and by joining
views without separators in the order of their source material. -/
inductive PlainOrdered : View → Prop
  | ofSpan {α : Type} [Provider α] (provider : α) (span : Span) (domain : Domain) {view : View}
      (h : View.ofSpan provider span domain = .ok view) : PlainOrdered view
  | ofSource (source : Source) (domain : Domain) {view : View}
      (h : View.ofSource source domain = .ok view) : PlainOrdered view
  | join {views : List View} {view : View} (hViews : ∀ part ∈ views, PlainOrdered part)
      (hOrder : views.Pairwise Precedes) (h : View.join views = .ok view) : PlainOrdered view
  | hide {before view : View} (wanted : Loose) (hBefore : PlainOrdered before)
      (h : before.hide wanted = .ok view) : PlainOrdered view
  | mark {before view : View} (wanted : Loose) (hBefore : PlainOrdered before)
      (h : before.mark wanted = .ok view) : PlainOrdered view
  | excludeAll {before view : View} (exclusions : List Exclusion) (hBefore : PlainOrdered before)
      (h : before.excludeAll exclusions = .ok view) : PlainOrdered view
  | trim {before view : View} (hBefore : PlainOrdered before) (h : before.trim = .ok view) :
      PlainOrdered view

/-- Views are joined in the order of their source material, and without separators only. -/
theorem PlainOrdered.derived {view : View} (h : PlainOrdered view) :
    Derived (fun _ _ _ _ => True) (List.Pairwise Precedes) (fun _ => False) view := by
  induction h with
  | ofSpan provider span domain h => exact .ofSpan trivial h
  | ofSource source domain h => exact .ofSource trivial h
  | join hViews hOrder h ih => exact .join ih hOrder h
  | hide wanted hBefore h ih => exact Derived.preserved.hide h ih
  | mark wanted hBefore h ih => exact Derived.preserved.mark h ih
  | excludeAll exclusions hBefore h ih => exact .excludeAll ih h
  | trim hBefore h ih => exact Derived.preserved.trim h ih

/-- The canonical form of a sequence without separators has none. -/
theorem not_isSeparator_normalize {tokens : List Token}
    (h : ∀ token ∈ tokens, token.isSeparator = false) :
    ∀ token ∈ normalize tokens, token.isSeparator = false :=
  forall_mem_normalize h (fun _ _ hSeparator => hSeparator) (fun _ _ _ _ _ => rfl) fun _ _ _ _ => rfl

theorem unseparated_ofSpan {α : Type} [Provider α] {provider : α} {span : Span} {domain : Domain}
    {view : View} (h : View.ofSpan provider span domain = .ok view) : Unseparated view := by
  obtain ⟨token, hSpan, -, -, hTokens⟩ := exists_token_of_ofSpan h
  rw [Unseparated, hTokens]
  apply not_isSeparator_normalize
  rw [List.forall_mem_singleton]
  cases token with
  | excerpt e => rfl
  | gap g => rfl
  | separator s => cases hSpan

/-- Exclusions put gaps into a view but no separators. -/
theorem unseparated_excludeAll {view after : View} {exclusions : List Exclusion}
    (hRooted : Rooted view.tokens) (hView : Unseparated view)
    (h : view.excludeAll exclusions = .ok after) : Unseparated after := by
  obtain ⟨swept, found, hSwept, -, hFound, -, -, hTokens⟩ :=
    exists_excludeAll hRooted (validate_of_excludeAll h)
  obtain rfl : after = found := Except.ok.inj (h.symm.trans hFound)
  have hAlways : Exclusion.Inherited fun _ => True :=
    ⟨fun _ _ _ _ => trivial, fun _ _ => trivial, fun _ _ => trivial⟩
  rw [Unseparated, hTokens]
  apply not_isSeparator_normalize
  refine hAlways.forall_mem_sweep (fun _ _ => rfl) (fun _ _ _ _ => trivial) hSwept ?_
  intro piece hPiece
  exact forall_mem_atomize hView (fun _ _ _ => rfl) (fun _ _ _ => rfl) _ (mem_of_mem_placed hPiece)

/-- Where nothing is joined with separators, none comes up. -/
theorem Derived.unseparated {reads : (α : Type) → Provider α → α → Span → Prop}
    {joins : List View → Prop} {view : View} (h : Derived reads joins (fun _ => False) view) :
    Unseparated view := by
  induction h with
  | ofSpan hReads h => exact unseparated_ofSpan h
  | join hViews hJoins h ih =>
      exact forall_mem_join (fun _ hAll => not_isSeparator_normalize hAll) ih h
  | joinWithBlank hViews hSpaces h ih => cases hSpaces
  | excludeAll hBefore h ih => exact unseparated_excludeAll hBefore.grounded.rooted ih h

variable {view : View} {offset position target shown : Nat}

/-- Without separators every shown character is one of the source. -/
theorem Unseparated.exists_showsAt (h : Unseparated view) (hOffset : offset < view.length) :
    ∃ position, ShowsAt view offset position := by
  refine (exists_showsAt_or_separator hOffset).resolve_right ?_
  rintro ⟨left, s, right, hTokens, -⟩
  have hPlain := h (.separator s) (by simp [hTokens])
  cases hPlain

/-- A source offset is never translated to one behind the text. -/
theorem shownOffset?_le_length (hAscending : Span.Ascending (spans view.tokens))
    (hTarget : view.shownOffset? target = some shown) : shown ≤ view.length := by
  obtain ⟨start, e, hPlaced, -, hStop, rfl, -⟩ := exists_of_shownOffset? hAscending hTarget
  have hEnd := e.stop_eq
  have hPositive := text_length_pos hPlaced
  have hLast : ShowsAt view (start + (e.text.length - 1)) (e.span.start + (e.text.length - 1)) :=
    showsAt_iff.2 ⟨start, e, _, hPlaced, by omega, rfl, rfl⟩
  have hInside := hLast.lt_length
  omega

/-- A source offset that is in front of the same shown characters as an offset of the shown text is
shown there. -/
theorem Unseparated.shownOffset?_eq (h : Unseparated view)
    (hAscending : Span.Ascending (spans view.tokens)) (hOffset : offset ≤ view.length)
    (hFront : ∀ other position, ShowsAt view other position → (offset ≤ other ↔ target ≤ position))
    (hTarget : view.shownOffset? target = some shown) : shown = offset := by
  have hSame (other : Nat) (hOther : other < view.length) : shown ≤ other ↔ offset ≤ other := by
    obtain ⟨position, hShown⟩ := h.exists_showsAt hOther
    rw [le_iff_of_shownOffset? hAscending hTarget hShown, hFront other position hShown]
  have hLength := shownOffset?_le_length hAscending hTarget
  rcases Nat.lt_trichotomy shown offset with hLess | hEq | hGreater
  · have hAt := hSame shown (by omega)
    omega
  · exact hEq
  · have hAt := hSame offset (by omega)
    omega

/-- Both ends of a character of the source that is shown are shown. -/
theorem ShowsAt.exists_shownOffset? (h : ShowsAt view offset position) (hStart : position ≤ target)
    (hStop : target ≤ position + 1) : ∃ shown, view.shownOffset? target = some shown := by
  obtain ⟨start, e, i, he, hi, rfl, rfl⟩ := showsAt_iff.1 h
  have hEnd := e.stop_eq
  obtain ⟨first, u, -, -, -, hFound, -⟩ :=
    @exists_first_touching view target _ _ he (by omega) (by omega)
  exact ⟨_, hFound⟩

/-- A shown character stands at an offset or later exactly when it is not in front of the source
offset behind what is hidden there. -/
theorem Interleaved.le_iff_behind {before behind : Nat → Nat} (h : Interleaved view before behind)
    (hOffset : offset ≤ view.length) {other : Nat} (hShown : ShowsAt view other position) :
    offset ≤ other ↔ behind offset ≤ position := by
  have hOther := hShown.lt_length
  have hAll := h.mem_range_iff (Nat.zero_le _) (Nat.le_refl _) hOther hShown
  have hFrom := h.mem_range_iff hOffset (Nat.le_refl _) hOther hShown
  omega

/-- The same holds of the source offset in front of what is hidden there. -/
theorem Interleaved.le_iff_before {before behind : Nat → Nat} (h : Interleaved view before behind)
    (hOffset : offset ≤ view.length) {other : Nat} (hShown : ShowsAt view other position) :
    offset ≤ other ↔ before offset ≤ position := by
  have hOther := hShown.lt_length
  have hAll := h.mem_range_iff (Nat.zero_le _) (Nat.le_refl _) hOther hShown
  have hUpTo := h.mem_range_iff (Nat.zero_le _) hOffset hOther hShown
  omega

namespace Interleaved
variable {before behind : Nat → Nat}

/-- Without separators the source offset at which a character stands leads back to its shown offset. -/
theorem shownOffset?_behind (h : Interleaved view before behind) (hPlain : Unseparated view)
    (hAscending : Span.Ascending (spans view.tokens)) (hOffset : offset < view.length) :
    view.shownOffset? (behind offset) = some offset := by
  obtain ⟨position, hShown⟩ := hPlain.exists_showsAt hOffset
  have hHere : behind offset = position :=
    Except.ok.inj ((h.behind_eq offset (by omega)).symm.trans hShown.sourceOffset_behind)
  obtain ⟨shown, hFound⟩ := hShown.exists_shownOffset? (Nat.le_of_eq hHere.symm) (by omega)
  obtain rfl := hPlain.shownOffset?_eq hAscending (Nat.le_of_lt hOffset)
    (fun _ _ hOther => h.le_iff_behind (Nat.le_of_lt hOffset) hOther) hFound
  exact hFound

/-- Without separators the source offset at which a character ends leads back to the shown offset
behind it. -/
theorem shownOffset?_before (h : Interleaved view before behind) (hPlain : Unseparated view)
    (hAscending : Span.Ascending (spans view.tokens)) (hOffset : offset < view.length) :
    view.shownOffset? (before (offset + 1)) = some (offset + 1) := by
  obtain ⟨position, hShown⟩ := hPlain.exists_showsAt hOffset
  have hNext : before (offset + 1) = position + 1 :=
    Except.ok.inj ((h.before_eq (offset + 1) hOffset).symm.trans hShown.sourceOffset_before)
  obtain ⟨shown, hFound⟩ := hShown.exists_shownOffset? (by omega) (Nat.le_of_eq hNext)
  obtain rfl := hPlain.shownOffset?_eq hAscending hOffset
    (fun _ _ hOther => h.le_iff_before hOffset hOther) hFound
  exact hFound

end Interleaved

/-- In a view without separators whose source material is in order, a shown range leads to a source
range that leads back to it. -/
theorem exists_sourceRange_of_unseparated (hGrounded : Grounded view.tokens)
    (hAscending : Span.Ascending (spans view.tokens)) (hPlain : Unseparated view) {wanted : Loose}
    {range : Range} (hWanted : wanted.toRange = .ok range) (hNotCaret : range.start < range.stop)
    (hStop : range.stop ≤ view.length) :
    ∃ found, view.sourceRange wanted = .ok found ∧
      view.shownRange? (.range found) = .ok (some range) := by
  obtain ⟨before, behind, hOffsets⟩ := exists_interleaved hGrounded hAscending
  have hBehind := hOffsets.behind_eq range.start (by omega)
  have hBefore := hOffsets.before_eq range.stop hStop
  have hOrdered := hOffsets.behind_le_before hNotCaret hStop
  refine ⟨⟨behind range.start, before range.stop, hOrdered⟩,
    sourceRange_eq hWanted hNotCaret hStop hBehind hBefore hOrdered, ?_⟩
  obtain ⟨last, hLast⟩ := Nat.exists_eq_add_of_lt hNotCaret
  refine (shownRange?_eq_ok_iff rfl).2 ⟨?_, ?_⟩
  · exact hOffsets.shownOffset?_behind hPlain hAscending (by omega)
  · simp only [hLast] at hStop ⊢
    exact hOffsets.shownOffset?_before hPlain hAscending hStop

/-- In a view that is put together without separators in the order of the source, every shown range
that is not empty leads to a source range that leads back to it. -/
theorem range_round_trip (hView : PlainOrdered view) {wanted : Loose} {range : Range}
    (hWanted : wanted.toRange = .ok range) (hNotCaret : range.start < range.stop)
    (hStop : range.stop ≤ view.length) :
    ∃ found, view.sourceRange wanted = .ok found ∧
      view.shownRange? (.range found) = .ok (some range) :=
  exists_sourceRange_of_unseparated hView.derived.grounded
    (hView.derived.ascending fun _ hNever => hNever.elim) hView.derived.unseparated hWanted hNotCaret hStop

/-- A text with a character hidden and another one marked, in front of a part that goes on where it
ends: a range from the first character to that part. -/
theorem range_round_trip_marked :
    ∃ first second hidden marked view found,
      View.ofSpan (⟨"doc", ['a', 'b', 'c', 'd', 'e']⟩ : Source) ⟨⟨0, 3, by decide⟩, "doc"⟩ = .ok first ∧
      View.ofSpan (⟨"doc", ['a', 'b', 'c', 'd', 'e']⟩ : Source) ⟨⟨3, 5, by decide⟩, "doc"⟩ =
        .ok second ∧
      first.hide (.range ⟨1, 2, by decide⟩) = .ok hidden ∧
      hidden.mark (.range ⟨1, 2, by decide⟩) = .ok marked ∧
      View.join [marked, second] = .ok view ∧
      view.sourceRange (.range ⟨0, 2, by decide⟩) = .ok found ∧
      view.shownRange? (.range found) = .ok (some ⟨0, 2, by decide⟩) := by
  have hParts : ∃ first second hidden marked view,
      View.ofSpan (⟨"doc", ['a', 'b', 'c', 'd', 'e']⟩ : Source) ⟨⟨0, 3, by decide⟩, "doc"⟩ = .ok first ∧
      View.ofSpan (⟨"doc", ['a', 'b', 'c', 'd', 'e']⟩ : Source) ⟨⟨3, 5, by decide⟩, "doc"⟩ =
        .ok second ∧
      first.hide (.range ⟨1, 2, by decide⟩) = .ok hidden ∧
      hidden.mark (.range ⟨1, 2, by decide⟩) = .ok marked ∧
      View.join [marked, second] = .ok view ∧ Precedes marked second ∧ 2 ≤ view.length := by
    refine ⟨_, _, _, _, _, rfl, rfl, rfl, rfl, rfl, ?_, by decide⟩
    unfold Precedes
    decide
  obtain ⟨first, second, hidden, marked, view, hFirst, hSecond, hHidden, hMarked, hView, hOrder,
    hLength⟩ := hParts
  have hPlain : PlainOrdered view := by
    refine .join ?_ (by simp [hOrder]) hView
    simp only [List.mem_cons, forall_eq_or_imp]
    exact ⟨.mark _ (.hide _ (.ofSpan _ _ _ hFirst) hHidden) hMarked, .ofSpan _ _ _ hSecond, by simp⟩
  obtain ⟨found, hFound, hBack⟩ :=
    @range_round_trip _ hPlain (.range ⟨0, 2, by decide⟩) _ rfl (by decide) hLength
  exact ⟨first, second, hidden, marked, view, found, hFirst, hSecond, hHidden, hMarked, hView, hFound,
    hBack⟩

end SourceView.View
