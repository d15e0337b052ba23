import SourceView.Proofs.Locality

/-! Marking a place twice. A marker becomes one with the gaps around it, also when it wakes the
separators behind it and the text gets longer. A second marker at the same offset comes to stand in
front of it, at a point of the source that it already stands for, and is taken up by it. -/
namespace SourceView

namespace Token

/-- A gap takes up the one behind it and stays unknown. -/
theorem exists_attach_gap (g : Gap) (rest : List Token) :
    ∃ other tail, attach (gap g) rest = gap other :: tail ∧ Extends (gap g) (gap other) ∧
      (g.unknown = true → other.unknown = true) := by
  obtain ⟨first, tail, hAttached, hExtends⟩ := exists_attach_eq_cons (gap g) rest
  cases first with
  | excerpt e => exact hExtends.elim
  | separator s => exact hExtends.elim
  | gap other =>
      refine ⟨other, tail, hAttached, hExtends, fun hUnknown => ?_⟩
      cases rest with
      | nil =>
          cases hAttached
          exact hUnknown
      | cons next others =>
          cases next <;> cases hAttached <;> simp [Gap.append, hUnknown]

/-- A marker at an offset is found there again, as one with the gaps around it. -/
theorem PartedAt.exists_marker {offset : Nat} {tokens before after : List Token}
    (h : PartedAt offset tokens before after)
    (hCanonical : Canonical tokens) (point : Span) (rest : List Token) :
    ∃ g others, atomize (normalize (before ++ gap ⟨point, true⟩ :: rest)) = before ++ gap g :: others ∧
      Extends (gap ⟨point, true⟩) (gap g) ∧ g.unknown = true := by
  have hTied : Tied (before ++ gap ⟨point, true⟩ :: rest) :=
    tied_append.2 (.inr ((tied_marker point).append rest))
  have hKept : effective (gap ⟨point, true⟩ :: rest) = gap ⟨point, true⟩ :: effective rest := by
    simp [effective, isEmptyExcerpt, isIdle]
  obtain ⟨g, tail, hFused, hExtends, hUnknown⟩ :=
    exists_attach_gap ⟨point, true⟩ (fuse (settle true (effective rest)))
  refine ⟨g, atomize tail, ?_, hExtends, hUnknown rfl⟩
  have hBehind : fuse (settle (before.any wakes) (gap ⟨point, true⟩ :: effective rest)) =
      gap g :: tail := by
    rw [← hFused, settle]
    · simp [wakes, fuse]
    · simp
  rw [h.atomize_normalize_append hCanonical hTied, hKept, hBehind]
  rfl

end Token

namespace Exclusion
open Token

variable {offset : Nat} {tokens before after swept : List Token} {e : Exclusion}

/-- A mark at an offset puts a marker behind all that begins in front of it. -/
theorem exists_anchor_of_sweep (hCaret : e.start = e.stop) (hWidth : totalWidth before = e.stop)
    (hPassed : ∀ piece ∈ placed 0 before, piece.1 < e.stop)
    (h : sweep [] (placed 0 (before ++ after)) [e] = .ok swept) :
    ∃ anchor, markerAnchor (placed 0 before).reverse (placed e.stop after) = .ok anchor ∧
      swept = before ++ .gap ⟨anchor, true⟩ :: after := by
  have hIsCaret : e.isCaret = true := Range.isCaret_iff.2 (Nat.le_of_eq hCaret.symm)
  obtain ⟨-, -, -, hFront⟩ := @parts_append e (placed 0 before) [] hPassed (by simp)
  rw [covered_of_isCaret hIsCaret, List.append_nil] at hFront
  obtain ⟨gaps, others, hGaps, hOthers, rfl⟩ := exists_of_sweep_cons hWidth hPassed h
  rw [hFront, covered_of_isCaret hIsCaret] at hGaps
  rw [hFront, map_snd_placed]
  cases hOthers
  rw [map_snd_placed]
  rcases substitute_cases hGaps with ⟨anchor, hAnchor, rfl, -⟩ | ⟨hNot, -⟩ | ⟨hNot, -⟩
  · exact ⟨anchor, hAnchor, by simp⟩
  · rw [hIsCaret] at hNot
    cases hNot
  · rw [hIsCaret] at hNot
    cases hNot

/-- A second marker stands at a point that the first one stands for. -/
theorem opens_of_markerAnchor {left right others : List Piece} {first second : Span} {g : Gap}
    (hFirst : markerAnchor left right = .ok first)
    (hSecond : markerAnchor left ((offset, .gap g) :: others) = .ok second)
    (hExtends : Extends (.gap ⟨first, true⟩) (.gap g)) : Opens second (.gap g) := by
  rw [markerAnchor_eq] at hFirst hSecond
  cases hLeft : left.findSome? (·.2.span?) with
  | some span =>
      rw [hLeft] at hFirst hSecond
      obtain rfl : first = second := Except.ok.inj (hFirst.symm.trans hSecond)
      obtain ⟨hSource, hStart, hStop⟩ := hExtends
      exact ⟨hSource.symm, hStart, hStop⟩
  | none =>
      rw [hLeft] at hSecond
      cases hSecond
      exact opens_head rfl

/-- What stands in front of a marked place is found again in front of the marker. -/
theorem exists_parts_of_sweep_mark (hCanonical : Canonical tokens) (hCaret : e.start = e.stop)
    (hStop : e.stop ≤ totalWidth tokens)
    (h : sweep [] (placed 0 (atomize tokens)) [e] = .ok swept) :
    ∃ before after first g others, PartedAt e.stop tokens before after ∧
      markerAnchor (placed 0 before).reverse (placed e.stop after) = .ok first ∧
      Extends (.gap ⟨first, true⟩) (.gap g) ∧ g.unknown = true ∧
      atomize (normalize swept) = before ++ .gap g :: others := by
  obtain ⟨before, after, hParts⟩ := exists_partedAt hStop
  rw [hParts.atoms_eq] at h
  obtain ⟨first, hAnchor, rfl⟩ := exists_anchor_of_sweep hCaret hParts.width_eq hParts.passed h
  obtain ⟨g, others, hAtoms, hExtends, hUnknown⟩ := hParts.exists_marker hCanonical first after
  exact ⟨before, after, first, g, others, hParts, hAnchor, hExtends, hUnknown, hAtoms⟩

/-- A marker leaves at least as much text as it found, so its offset stays within. -/
theorem stop_le_of_sweep_mark (hCanonical : Canonical tokens) (hCaret : e.start = e.stop)
    (hStop : e.stop ≤ totalWidth tokens)
    (h : sweep [] (placed 0 (atomize tokens)) [e] = .ok swept) :
    e.stop ≤ totalWidth (normalize swept) := by
  obtain ⟨before, after, first, g, others, hParts, -, -, -, hAtoms⟩ :=
    exists_parts_of_sweep_mark hCanonical hCaret hStop h
  rw [← totalWidth_atomize, hAtoms, totalWidth_append, hParts.width_eq]
  exact Nat.le_add_right _ _

/-- Marking a place a second time changes nothing. -/
theorem normalize_sweep_sweep (hCanonical : Canonical tokens) (hCaret : e.start = e.stop)
    (hStop : e.stop ≤ totalWidth tokens)
    (hFirst : sweep [] (placed 0 (atomize tokens)) [e] = .ok swept) {again : List Token}
    (hSecond : sweep [] (placed 0 (atomize (normalize swept))) [e] = .ok again) :
    normalize again = normalize swept := by
  obtain ⟨before, after, first, g, others, hParts, hAnchor, hExtends, hUnknown, hAtoms⟩ :=
    exists_parts_of_sweep_mark hCanonical hCaret hStop hFirst
  rw [hAtoms] at hSecond
  obtain ⟨second, hAgain, rfl⟩ :=
    exists_anchor_of_sweep hCaret hParts.width_eq hParts.passed hSecond
  have hBusy : (Token.gap g).isIdle = false := by simp [isIdle, hUnknown]
  have hTaken : (⟨second, true⟩ : Gap).append g = g := by
    rw [append_of_opens (opens_of_markerAnchor hAnchor hAgain hExtends), ← hUnknown]
  calc normalize (before ++ .gap ⟨second, true⟩ :: .gap g :: others)
      = normalize (before ++ .gap ((⟨second, true⟩ : Gap).append g) :: others) :=
        (normalize_append_gap rfl hBusy before others).symm
    _ = normalize (atomize (normalize swept)) := by rw [hTaken, hAtoms]
    _ = normalize swept := by rw [normalize_atomize, normalize_normalize]

end Exclusion

namespace View
open Token

/-- Marking an offset a second time changes nothing, also where the first time has made the text
longer. Only where there is no source material at all is there no place for a marker. -/
theorem mark_mark (view : View) {wanted : Loose} {range : Range} (hWanted : wanted.toRange = .ok range)
    (hCaret : range.start = range.stop) (hStop : range.stop ≤ view.length) :
    ((∃ token ∈ view.tokens, token.span?.isSome = true) →
      ∃ marked, view.mark wanted = .ok marked ∧ marked.mark wanted = .ok marked) ∧
    ((∀ token ∈ view.tokens, token.span? = none) → view.mark wanted = .error .noAnchor) := by
  have hMark (view : View) : view.mark wanted = view.excludeAll [⟨range, true⟩] := by
    unfold View.mark Exclusion.mark
    rw [hWanted]
    rfl
  have hActive : [(⟨range, true⟩ : Exclusion)].filter Exclusion.isActive = [⟨range, true⟩] := rfl
  have hValid (view : View) (hStop : range.stop ≤ view.length) :
      Exclusion.validate [(⟨range, true⟩ : Exclusion)] view.length = .ok () :=
    Exclusion.validate_eq_ok_iff.2 ⟨List.pairwise_singleton _ _, by simpa using hStop⟩
  simp only [hMark]
  refine ⟨fun hRooted => ?_, fun hNone =>
    excludeAll_of_unrooted (hValid view hStop) hNone ⟨_, List.mem_singleton.2 rfl, rfl⟩⟩
  obtain ⟨swept, marked, hSwept, hKept, hMarked, -, -, hTokens⟩ :=
    exists_excludeAll (rooted_iff.2 hRooted) (hValid view hStop)
  have hMarkedRooted : Rooted marked.tokens := by
    rw [hTokens]
    exact hKept.normalize
  rw [hActive] at hSwept
  have hTotal : range.stop ≤ totalWidth view.tokens := by rwa [← length_eq_totalWidth]
  have hWithin : range.stop ≤ marked.length := by
    rw [length_eq_totalWidth, hTokens]
    exact Exclusion.stop_le_of_sweep_mark view.canonical hCaret hTotal hSwept
  obtain ⟨again, remarked, hAgain, -, hRemarked, hDomain, hSource, hSame⟩ :=
    exists_excludeAll hMarkedRooted (hValid marked hWithin)
  rw [hActive, hTokens] at hAgain
  obtain rfl : remarked = marked := by
    refine eq_of_parts hDomain hSource ?_
    rw [hSame, hTokens]
    exact Exclusion.normalize_sweep_sweep view.canonical hCaret hTotal hSwept hAgain
  exact ⟨remarked, hMarked, hRemarked⟩

/-- A marker in front of a dormant separator wakes it, and marking the place again changes nothing. -/
theorem mark_mark_dormant :
    ∃ first second view hidden marked,
      View.ofSpan (⟨"doc", ['a', 'b']⟩ : Source) ⟨⟨0, 1, by decide⟩, "doc"⟩ = .ok first ∧
      View.ofSpan (⟨"doc", ['a', 'b']⟩ : Source) ⟨⟨1, 2, by decide⟩, "doc"⟩ = .ok second ∧
      View.joinWithBlank [first, second] = .ok (some view) ∧
      view.hide (.range ⟨0, 1, by decide⟩) = .ok hidden ∧ hidden.length = 1 ∧
      hidden.mark (.range ⟨0, 0, by decide⟩) = .ok marked ∧ marked.length = 2 ∧
      marked.mark (.range ⟨0, 0, by decide⟩) = .ok marked := by
  have hParts : ∃ first second view hidden marked,
      View.ofSpan (⟨"doc", ['a', 'b']⟩ : Source) ⟨⟨0, 1, by decide⟩, "doc"⟩ = .ok first ∧
      View.ofSpan (⟨"doc", ['a', 'b']⟩ : Source) ⟨⟨1, 2, by decide⟩, "doc"⟩ = .ok second ∧
      View.joinWithBlank [first, second] = .ok (some view) ∧
      view.hide (.range ⟨0, 1, by decide⟩) = .ok hidden ∧ hidden.length = 1 ∧
      hidden.mark (.range ⟨0, 0, by decide⟩) = .ok marked ∧ marked.length = 2 ∧
      ∃ token ∈ hidden.tokens, token.span?.isSome = true :=
    ⟨_, _, _, _, _, rfl, rfl, rfl, rfl, rfl, rfl, rfl, _, List.mem_cons_self, rfl⟩
  obtain ⟨first, second, view, hidden, marked, hFirst, hSecond, hView, hHidden, hLength, hMarked,
    hLonger, hRooted⟩ := hParts
  obtain ⟨found, hFound, hAgain⟩ :=
    (@mark_mark hidden (.range ⟨0, 0, by decide⟩) _ rfl rfl (Nat.zero_le _)).1 hRooted
  obtain rfl : marked = found := Except.ok.inj (hMarked.symm.trans hFound)
  exact ⟨first, second, view, hidden, marked, hFirst, hSecond, hView, hHidden, hLength, hMarked,
    hLonger, hAgain⟩

/-- An empty excerpt names a source but is dropped, and then the offset in front cannot be marked. -/
theorem no_mark_without_source :
    ∃ view, View.ofTokens .plainText [.excerpt ⟨⟨⟨0, 0, by decide⟩, "doc"⟩, [], rfl⟩] = .ok view ∧
      0 ≤ view.length ∧ view.mark (.range ⟨0, 0, by decide⟩) = .error .noAnchor :=
  ⟨_, rfl, Nat.zero_le _, rfl⟩

end View
end SourceView
