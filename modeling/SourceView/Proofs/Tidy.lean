import SourceView.Proofs.Canonical
import SourceView.Proofs.Placed

/-! The canonical form as it shows in a sequence, and what it means for the offsets of a view: the
unknown ones are strictly increasing, since between two unknown gaps something is always shown. -/
namespace SourceView.Token

/-- What can be seen of the canonical form in a sequence: which tokens stand in it, which stand side
by side, and what stands in front of each separator. -/
structure Tidy (tokens : List Token) : Prop where
  shows : ∀ e, excerpt e ∈ tokens → e.text ≠ []
  excerpts : ∀ a b, [excerpt a, excerpt b] <:+: tokens →
    ¬ (a.span.source = b.span.source ∧ a.span.stop = b.span.start)
  gaps : ∀ a b, ¬ [gap a, gap b] <:+: tokens
  idle : ∀ before g after, tokens = before ++ gap g :: after → g.unknown = false →
    g.anchor.length = 0 → before = [] ∧ ∀ other ∈ after, ∃ s, other = separator s
  active : ∀ before s after, tokens = before ++ separator s :: after →
    (s.active = true ↔ ∃ token ∈ before, (∃ e, token = excerpt e) ∨
      ∃ g, token = gap g ∧ g.unknown = true)

/-- A sequence is separated when any two tokens side by side may stand so. -/
theorem separated_iff {tokens : List Token} :
    Separated tokens ↔ ∀ a b, [a, b] <:+: tokens → Apart a b := by
  induction tokens with
  | nil => simp [Separated]
  | cons token rest ih =>
      cases rest with
      | nil => simp [Separated, List.infix_cons_iff]
      | cons next tail =>
          rw [Separated, ih]
          constructor
          · rintro ⟨hApart, hRest⟩ a b hInfix
            rcases List.infix_cons_iff.1 hInfix with hPrefix | hInfix
            · obtain ⟨hFirst, hSecond⟩ := List.cons_prefix_cons.1 hPrefix
              rw [hFirst, (List.cons_prefix_cons.1 hSecond).1]
              exact hApart
            · exact hRest a b hInfix
          · intro h
            refine ⟨h token next ⟨[], tail, rfl⟩, fun a b hInfix => h a b ?_⟩
            exact List.infix_cons_iff.2 (.inr hInfix)

/-- A sequence is settled when each separator is active exactly if something in front of it wakes
it. -/
theorem settled_iff {awake : Bool} {tokens : List Token} :
    Settled awake tokens ↔ ∀ before s after, tokens = before ++ separator s :: after →
      s.active = (awake || before.any wakes) := by
  induction tokens generalizing awake with
  | nil => simp [Settled]
  | cons token rest ih =>
      constructor
      · intro h before s after hEq
        cases before with
        | nil =>
            obtain ⟨rfl, rfl⟩ := List.cons.inj hEq
            simpa using h.1
        | cons first before =>
            obtain ⟨rfl, hRest⟩ := List.cons.inj hEq
            simpa [Bool.or_assoc] using ih.1 h.tail before s after hRest
      · intro h
        have hRest : Settled (awake || token.wakes) rest := by
          apply ih.2
          intro before s after hEq
          have := h (token :: before) s after (by rw [hEq]; rfl)
          simpa [Bool.or_assoc] using this
        cases token with
        | separator s =>
            refine ⟨by simpa using h [] s rest rfl, ?_⟩
            simpa [wakes] using hRest
        | excerpt e => exact hRest
        | gap g => exact hRest

theorem any_wakes_iff {tokens : List Token} :
    tokens.any wakes = true ↔ ∃ token ∈ tokens, (∃ e, token = excerpt e) ∨
      ∃ g, token = gap g ∧ g.unknown = true := by
  rw [List.any_eq_true]
  refine exists_congr fun token => and_congr_right fun _ => ?_
  cases token <;> simp [wakes]

theorem isIdle_iff {g : Gap} :
    (gap g).isIdle = true ↔ g.unknown = false ∧ g.anchor.length = 0 := by
  have := g.anchor.ordered
  simp only [isIdle, Range.isCaret, Range.length, Bool.and_eq_true, Bool.not_eq_true', beq_iff_eq]
  exact and_congr_right fun _ => by omega

/-- The canonical form is the tidy one. -/
theorem canonical_iff_tidy {tokens : List Token} : Canonical tokens ↔ Tidy tokens := by
  constructor
  · intro h
    refine ⟨?_, ?_, ?_, ?_, ?_⟩
    · intro e hMem
      simpa [isEmptyExcerpt] using h.shows _ hMem
    · exact fun a b hInfix => separated_iff.1 h.separated _ _ hInfix
    · exact fun a b hInfix => separated_iff.1 h.separated _ _ hInfix
    · intro before g after hEq hKnown hLength
      obtain ⟨rest, hRest, hSeparators⟩ :=
        h.idle (gap g) (by simp [hEq]) (isIdle_iff.2 ⟨hKnown, hLength⟩)
      cases before with
      | nil =>
          obtain rfl : after = rest := by simpa using hEq.symm.trans hRest
          refine ⟨rfl, fun other hOther => ?_⟩
          have := hSeparators other hOther
          cases other <;> simp_all [isSeparator]
      | cons first before =>
          obtain ⟨-, rfl⟩ := List.cons.inj (hEq.symm.trans hRest)
          simpa [isSeparator] using hSeparators (gap g) (by simp)
    · intro before s after hEq
      rw [settled_iff.1 h.settled before s after hEq, Bool.false_or, any_wakes_iff]
  · intro h
    refine ⟨?_, ?_, ?_, ?_⟩
    · intro token hToken
      cases token with
      | excerpt e => simpa [isEmptyExcerpt] using h.shows e hToken
      | gap g => rfl
      | separator s => rfl
    · apply separated_iff.2
      intro a b hInfix
      cases a with
      | separator s => trivial
      | gap g =>
          cases b with
          | gap other => exact h.gaps g other hInfix
          | excerpt e => trivial
          | separator s => trivial
      | excerpt e =>
          cases b with
          | excerpt other => exact h.excerpts e other hInfix
          | gap g => trivial
          | separator s => trivial
    · intro token hToken hIdle
      cases token with
      | excerpt e => simp [isIdle] at hIdle
      | separator s => simp [isIdle] at hIdle
      | gap g =>
          obtain ⟨before, after, rfl⟩ := List.append_of_mem hToken
          obtain ⟨hKnown, hLength⟩ := isIdle_iff.1 hIdle
          obtain ⟨rfl, hAfter⟩ := h.idle before g after rfl hKnown hLength
          refine ⟨after, rfl, fun other hOther => ?_⟩
          obtain ⟨s, rfl⟩ := hAfter other hOther
          rfl
    · apply settled_iff.2
      intro before s after hEq
      rw [Bool.false_or, Bool.eq_iff_iff, any_wakes_iff]
      exact h.active before s after hEq

/-- Behind something that wakes separators, only gaps show nothing. -/
theorem Settled.isVisible {token : Token} {rest : List Token} (h : Settled true (token :: rest))
    (hShows : token.isEmptyExcerpt = false) (hGap : ∀ g, token ≠ gap g) : token.isVisible = true := by
  cases token with
  | gap g => exact absurd rfl (hGap g)
  | separator s => simp [Token.isVisible, shown, h.1]
  | excerpt e => simpa [Token.isVisible, shown, isEmptyExcerpt] using hShows

/-- Behind an unknown gap the next token is shown, so a later marker begins at a later offset. -/
theorem pairwise_markers {offset : Nat} {awake : Bool} {tokens : List Token}
    (hShows : ∀ token ∈ tokens, token.isEmptyExcerpt = false) (hSeparated : Separated tokens)
    (hSettled : Settled awake tokens) :
    (((placed offset tokens).filter (·.2.isMarker)).map (·.1)).Pairwise (· < ·) := by
  induction tokens generalizing offset awake with
  | nil => exact .nil
  | cons token rest ih =>
      simp only [List.mem_cons, forall_eq_or_imp] at hShows
      have hRest := @ih (offset + token.width) _ hShows.2 hSeparated.tail hSettled.tail
      rw [placed, List.filter_cons]
      split
      · next hMarker =>
          refine List.pairwise_cons.2 ⟨fun start hStart => ?_, hRest⟩
          obtain ⟨⟨start, marker⟩, hMem, rfl⟩ := List.mem_map.1 hStart
          obtain ⟨hMem, hLater⟩ := List.mem_filter.1 hMem
          obtain ⟨before, after, rfl, rfl⟩ := mem_placed_iff.1 hMem
          cases token with
          | excerpt e => simp [isMarker] at hMarker
          | separator s => simp [isMarker] at hMarker
          | gap g =>
              have hUnknown : g.unknown = true := hMarker
              cases before with
              | nil =>
                  cases marker with
                  | gap other => exact hSeparated.1.elim
                  | excerpt e => simp [isMarker] at hLater
                  | separator s => simp [isMarker] at hLater
              | cons next before =>
                  have hNext : Settled true (next :: (before ++ marker :: after)) := by
                    simpa [wakes, hUnknown] using hSettled.tail
                  have hPositive : 0 < next.width := by
                    apply isVisible_iff.1
                    apply hNext.isVisible (hShows.2 next List.mem_cons_self)
                    rintro other rfl
                    exact hSeparated.1.elim
                  simp only [totalWidth]
                  omega
      · exact hRest

end SourceView.Token

namespace SourceView
open Token

/-- An unknown offset is the place of an unknown gap. -/
theorem mem_unknownOffsets_iff {view : View} {offset : Nat} :
    offset ∈ view.unknownOffsets ↔ ∃ before g after,
      view.tokens = before ++ gap g :: after ∧ g.unknown = true ∧ offset = totalWidth before := by
  unfold View.unknownOffsets
  rw [List.mem_map]
  constructor
  · rintro ⟨⟨start, token⟩, hMem, rfl⟩
    obtain ⟨hMem, hMarker⟩ := List.mem_filter.1 hMem
    obtain ⟨before, after, hTokens, hStart⟩ := mem_placed_iff.1 hMem
    cases token with
    | gap g => exact ⟨before, g, after, hTokens, hMarker, by simpa using hStart⟩
    | excerpt e => simp [isMarker] at hMarker
    | separator s => simp [isMarker] at hMarker
  · rintro ⟨before, g, after, hTokens, hUnknown, rfl⟩
    refine ⟨(totalWidth before, gap g), List.mem_filter.2 ⟨?_, hUnknown⟩, rfl⟩
    exact mem_placed_iff.2 ⟨before, after, hTokens, by simp⟩

theorem length_eq_totalWidth (view : View) : view.length = totalWidth view.tokens :=
  length_shownText view.tokens

/-- Every sequence is brought into the tidy form, and the tidy sequences are the ones that stay as
they are. The unknown offsets of a view are therefore the strictly increasing offsets at which its
unknown gaps stand. -/
theorem canonical_form :
    (∀ tokens, Tidy (normalize tokens)) ∧
    (∀ tokens, normalize tokens = tokens ↔ Tidy tokens) ∧
    (∀ tokens, normalize (normalize tokens) = normalize tokens) ∧
    ∀ view : View,
      view.unknownOffsets.Pairwise (· < ·) ∧
      (∀ offset ∈ view.unknownOffsets, offset ≤ view.length) ∧
      (∀ offset, offset ∈ view.unknownOffsets ↔ ∃ before g after,
        view.tokens = before ++ gap g :: after ∧ g.unknown = true ∧
          offset = totalWidth before) ∧
      view.length = totalWidth view.tokens := by
  refine ⟨fun tokens => canonical_iff_tidy.1 (canonical_normalize tokens), fun tokens => ?_,
    normalize_normalize, fun view => ⟨?_, fun offset hOffset => ?_, fun offset => ?_, ?_⟩⟩
  · constructor
    · intro h
      rw [← h]
      exact canonical_iff_tidy.1 (canonical_normalize tokens)
    · exact fun h => normalize_of_canonical (canonical_iff_tidy.2 h)
  · exact pairwise_markers view.canonical.shows view.canonical.separated view.canonical.settled
  · obtain ⟨before, g, after, hTokens, -, rfl⟩ := mem_unknownOffsets_iff.1 hOffset
    rw [length_eq_totalWidth, hTokens, totalWidth_append]
    omega
  · exact mem_unknownOffsets_iff
  · exact length_eq_totalWidth view

end SourceView
