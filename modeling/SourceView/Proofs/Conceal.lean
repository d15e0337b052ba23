import SourceView.Proofs.Edited

/-! Hiding without marking. Exclusions that only hide need no place for a marker, so they never fail,
and what they do to a run of pieces is a function of these pieces alone. It works part by part: what
stands in front of an offset is left to the exclusions there, and what stands behind it to theirs. -/
namespace SourceView

namespace Span

/-- The hull of some spans contains each of them. -/
theorem exists_hullAll?_of_mem {span : Span} {spans : List Span} (h : span ∈ spans) :
    ∃ anchor, hullAll? spans = some anchor ∧ anchor.start ≤ span.start ∧
      span.stop ≤ anchor.stop := by
  induction spans with
  | nil => cases h
  | cons first rest ih =>
      rw [← List.singleton_append, hullAll?_append]
      rcases List.mem_cons.1 h with rfl | hRest
      · cases hullAll? rest with
        | none => exact ⟨span, rfl, Nat.le_refl _, Nat.le_refl _⟩
        | some other => exact ⟨span.hull other, rfl, Nat.min_le_left _ _, Nat.le_max_left _ _⟩
      · obtain ⟨anchor, hAnchor, hStart, hStop⟩ := ih hRest
        rw [hAnchor]
        exact ⟨first.hull anchor, rfl, Nat.le_trans (Nat.min_le_right _ _) hStart,
          Nat.le_trans hStop (Nat.le_max_right _ _)⟩

end Span

namespace Exclusion
open Token

def Hides (e : Exclusion) : Prop := e.isCaret = false ∧ e.unknown = false

theorem hides_of_active {exclusions : List Exclusion} (hKnown : ∀ e ∈ exclusions, e.unknown = false) :
    ∀ e ∈ exclusions.filter isActive, e.Hides := by
  intro e he
  obtain ⟨hMem, hActive⟩ := List.mem_filter.1 he
  have hUnknown := hKnown e hMem
  exact ⟨by simpa [isActive, hUnknown] using hActive, hUnknown⟩

/-- What is left of hidden pieces: a gap over all their source material, if they have any. -/
def cover (hidden : List Piece) : List Token :=
  match Span.hullAll? (hidden.filterMap (·.2.span?)) with
  | some anchor => [.gap ⟨anchor, hidden.any (·.2.isMarker)⟩]
  | none => []

/-- Takes pieces from left to right through exclusions that only hide. -/
def conceal (rest : List Piece) : List Exclusion → List Token
  | [] => rest.map (·.2)
  | e :: later =>
    (e.front rest).map (·.2) ++ cover (e.covered rest) ++ conceal (e.behind rest) later

/-- An exclusion that marks nothing needs no anchor, so what replaces hidden pieces depends on these
alone. -/
theorem substitute_of_hides {e : Exclusion} (h : e.Hides) (left hidden right : List Piece) :
    e.substitute left hidden right = .ok (cover hidden) := by
  rw [substitute, h.1, replacement, h.2, cover]
  cases Span.hullAll? (hidden.filterMap (·.2.span?)) <;> rfl

/-- A sweep that only hides comes to an end, and does not look at the pieces it has passed. -/
theorem sweep_eq_conceal {passed rest : List Piece} {exclusions : List Exclusion}
    (h : ∀ e ∈ exclusions, e.Hides) : sweep passed rest exclusions = .ok (conceal rest exclusions) := by
  induction exclusions generalizing passed rest with
  | nil => rfl
  | cons e later ih =>
      simp only [List.mem_cons, forall_eq_or_imp] at h
      rw [sweep_cons, substitute_of_hides h.1, ih h.2]
      rfl

theorem isBefore_of_stop_le {e : Exclusion} (h : e.Hides) {piece : Piece} (hStop : e.stop ≤ piece.1) :
    isBefore e.start (!e.isCaret) piece = false := by
  have hProper := Range.not_isCaret_iff.1 h.1
  unfold isBefore
  split
  · simp only [decide_eq_false_iff_not]
    omega
  · simp only [h.1, Bool.not_false, Bool.true_and, Bool.or_eq_false_iff, decide_eq_false_iff_not,
      beq_eq_false_iff_ne]
    omega

/-- A piece that ends where an exclusion begins stays in front of it, even when it shows nothing. -/
theorem isBefore_of_le {e : Exclusion} (h : e.Hides) {piece : Piece}
    (hStart : piece.1 + piece.2.width ≤ e.start) : isBefore e.start (!e.isCaret) piece = true := by
  unfold isBefore
  split
  · next hVisible =>
      have hPositive := isVisible_iff.1 hVisible
      simp only [decide_eq_true_eq]
      omega
  · simp only [h.1, Bool.not_false, Bool.true_and, Bool.or_eq_true, decide_eq_true_eq, beq_iff_eq]
    omega

/-- Exclusions in front of an offset and behind it may be applied to the pieces there on their own. -/
theorem conceal_append {before after : List Piece} {first second : List Exclusion}
    (hFirst : ∀ e ∈ first, e.Hides ∧ ∀ piece ∈ after, e.stop ≤ piece.1)
    (hSecond : ∀ e ∈ second, e.Hides ∧ ∀ piece ∈ before, piece.1 + piece.2.width ≤ e.start) :
    conceal (before ++ after) (first ++ second) = conceal before first ++ conceal after second := by
  induction first generalizing before with
  | nil =>
      cases second with
      | nil => exact List.map_append
      | cons e later =>
          obtain ⟨hHides, hBefore⟩ := hSecond e List.mem_cons_self
          have hPasses (piece : Piece) (hPiece : piece ∈ before) :
              isBefore e.start (!e.isCaret) piece = true := isBefore_of_le hHides (hBefore piece hPiece)
          have hFront : e.front (before ++ after) = before ++ e.front after :=
            List.takeWhile_append_of_pos hPasses
          have hDrop := @List.dropWhile_append_of_pos _ _ _ after hPasses
          have hCovered : e.covered (before ++ after) = e.covered after := by
            rw [covered, hDrop, covered]
          have hBehind : e.behind (before ++ after) = e.behind after := by
            rw [behind, hDrop, behind]
          simp only [List.nil_append, conceal, hFront, hCovered, hBehind, List.map_append,
            List.append_assoc]
  | cons e first ih =>
      simp only [List.mem_cons, forall_eq_or_imp] at hFirst
      obtain ⟨⟨hHides, hAfter⟩, hFirst⟩ := hFirst
      have hFails (piece : Piece) (hPiece : piece ∈ after) :
          isBefore e.start (!e.isCaret) piece = false := isBefore_of_stop_le hHides (hAfter piece hPiece)
      have hPassed (piece : Piece) (hPiece : piece ∈ after) : decide (piece.1 < e.stop) = false :=
        decide_eq_false (Nat.not_lt.2 (hAfter piece hPiece))
      obtain ⟨hFront, hRest⟩ := @takeWhile_append_of_fails _ _ before _ hFails
      obtain ⟨hTake, hDrop⟩ := @takeWhile_append_of_fails _ _
        (before.dropWhile (isBefore e.start (!e.isCaret))) _ hPassed
      have hFront : e.front (before ++ after) = e.front before := hFront
      have hCovered : e.covered (before ++ after) = e.covered before := by
        rw [covered, hRest, hTake, covered]
      have hBehind : e.behind (before ++ after) = e.behind before ++ after := by
        rw [behind, hRest, hDrop, behind]
      have hLater := @ih (e.behind before) hFirst fun other hOther =>
        ⟨(hSecond other hOther).1, fun piece hPiece => (hSecond other hOther).2 piece
          ((List.dropWhile_sublist _).mem ((List.dropWhile_sublist _).mem hPiece))⟩
      rw [List.cons_append, conceal, conceal, hFront, hCovered, hBehind, hLater, List.append_assoc,
        List.append_assoc, List.append_assoc]

/-- Exclusions that end up to some place in a sequence and others that begin from there on may be
applied to the two parts on their own. -/
theorem conceal_placed_append {offset : Nat} {before after : List Token}
    {first second : List Exclusion}
    (hFirst : ∀ e ∈ first, e.Hides ∧ e.stop ≤ offset + totalWidth before)
    (hSecond : ∀ e ∈ second, e.Hides ∧ offset + totalWidth before ≤ e.start) :
    conceal (placed offset (before ++ after)) (first ++ second) =
      conceal (placed offset before) first ++
        conceal (placed (offset + totalWidth before) after) second := by
  rw [placed_append]
  apply conceal_append
  · intro e he
    refine ⟨(hFirst e he).1, fun piece hPiece => ?_⟩
    exact Nat.le_trans (hFirst e he).2 (start_of_mem_placed hPiece).1
  · intro e he
    refine ⟨(hSecond e he).1, fun piece hPiece => ?_⟩
    exact Nat.le_trans (start_of_mem_placed hPiece).2 (hSecond e he).2

theorem conceal_placed_nil (offset : Nat) (tokens : List Token) :
    conceal (placed offset tokens) [] = tokens := map_snd_placed offset tokens

def moveBy (count : Nat) (e : Exclusion) : Exclusion :=
  { start := e.start + count, stop := e.stop + count, unknown := e.unknown
    ordered := Nat.add_le_add_right e.ordered count }

theorem beq_add_right (a b count : Nat) : (a + count == b + count) = (a == b) := by
  rw [Bool.eq_iff_iff]
  simp

theorem isCaret_moveBy (count : Nat) (e : Exclusion) : (e.moveBy count).isCaret = e.isCaret :=
  beq_add_right e.start e.stop count

theorem isActive_moveBy (count : Nat) (e : Exclusion) : (e.moveBy count).isActive = e.isActive := by
  rw [isActive, isCaret_moveBy, isActive]
  rfl

theorem filter_isActive_moveBy (count : Nat) (exclusions : List Exclusion) :
    (exclusions.map (moveBy count)).filter isActive = (exclusions.filter isActive).map (moveBy count) := by
  rw [List.filter_map]
  congr 2
  funext e
  exact isActive_moveBy count e

/-- Moving exclusions does not make them mark anything. -/
theorem known_append_moveBy {first second : List Exclusion} {count : Nat}
    (hFirst : ∀ e ∈ first, e.unknown = false) (hSecond : ∀ e ∈ second, e.unknown = false) :
    ∀ e ∈ first ++ second.map (moveBy count), e.unknown = false := by
  intro e he
  rcases List.mem_append.1 he with hMem | hMem
  · exact hFirst e hMem
  · obtain ⟨original, hOriginal, rfl⟩ := List.mem_map.1 hMem
    exact hSecond original hOriginal

/-- Valid exclusions for two texts, those for the second one moved behind the first one. -/
theorem validate_append_moveBy {first second : List Exclusion} {width count length : Nat}
    (hFirst : validate first width = .ok ()) (hSecond : validate second length = .ok ())
    (hCount : width ≤ count) :
    validate (first ++ second.map (moveBy count)) (count + length : Nat) = .ok () := by
  obtain ⟨hFirstOrder, hFirstWithin⟩ := validate_eq_ok_iff.1 hFirst
  obtain ⟨hSecondOrder, hSecondWithin⟩ := validate_eq_ok_iff.1 hSecond
  refine validate_eq_ok_iff.2 ⟨List.pairwise_append.2 ⟨hFirstOrder, ?_, ?_⟩, ?_⟩
  · refine List.pairwise_map.2 (hSecondOrder.imp ?_)
    exact fun h => Nat.add_le_add_right h count
  · intro e he other hOther
    obtain ⟨original, -, rfl⟩ := List.mem_map.1 hOther
    have hWithin := hFirstWithin e he
    show e.stop ≤ original.start + count
    omega
  · intro e he
    rcases List.mem_append.1 he with hMem | hMem
    · have hWithin := hFirstWithin e hMem
      omega
    · obtain ⟨original, hOriginal, rfl⟩ := List.mem_map.1 hMem
      have hWithin := hSecondWithin original hOriginal
      show original.stop + count ≤ count + length
      omega

theorem Hides.moveBy {e : Exclusion} (h : e.Hides) (count : Nat) : (e.moveBy count).Hides :=
  ⟨(isCaret_moveBy count e).trans h.1, h.2⟩

/-- Tokens that begin further back are all moved alike. -/
theorem placed_add (offset count : Nat) (tokens : List Token) :
    placed (offset + count) tokens = (placed offset tokens).map fun piece => (piece.1 + count, piece.2) := by
  induction tokens generalizing offset with
  | nil => rfl
  | cons token rest ih =>
      rw [placed, placed, List.map_cons, Nat.add_right_comm, ih]

/-- Moved exclusions do to moved pieces what the exclusions do to the pieces. -/
theorem conceal_moveBy (count : Nat) (rest : List Piece) (exclusions : List Exclusion) :
    conceal (rest.map fun piece => (piece.1 + count, piece.2)) (exclusions.map (moveBy count)) =
      conceal rest exclusions := by
  induction exclusions generalizing rest with
  | nil => simp [conceal]
  | cons e later ih =>
      have hBefore : isBefore (e.moveBy count).start (!(e.moveBy count).isCaret) ∘
          (fun piece : Piece => (piece.1 + count, piece.2)) = isBefore e.start (!e.isCaret) := by
        rw [isCaret_moveBy]
        funext piece
        simp [isBefore, moveBy, beq_add_right]
      have hReached : (fun piece : Piece => decide (piece.1 < (e.moveBy count).stop)) ∘
          (fun piece : Piece => (piece.1 + count, piece.2)) =
            fun piece => decide (piece.1 < e.stop) := by
        funext piece
        simp [moveBy]
      have hFront : (e.moveBy count).front (rest.map fun piece => (piece.1 + count, piece.2)) =
          (e.front rest).map fun piece => (piece.1 + count, piece.2) := by
        rw [front, List.takeWhile_map, hBefore, front]
      have hCovered : (e.moveBy count).covered (rest.map fun piece => (piece.1 + count, piece.2)) =
          (e.covered rest).map fun piece => (piece.1 + count, piece.2) := by
        rw [covered, List.dropWhile_map, hBefore, List.takeWhile_map, hReached, covered]
      have hBehind : (e.moveBy count).behind (rest.map fun piece => (piece.1 + count, piece.2)) =
          (e.behind rest).map fun piece => (piece.1 + count, piece.2) := by
        rw [behind, List.dropWhile_map, hBefore, List.dropWhile_map, hReached, behind]
      have hCover (hidden : List Piece) :
          cover (hidden.map fun piece => (piece.1 + count, piece.2)) = cover hidden := by
        simp [cover, List.filterMap_map, List.any_map, Function.comp_def]
      rw [List.map_cons, conceal, conceal, hFront, hCovered, hBehind, hCover, ih, List.map_map]
      rfl

/-- Exclusions in front of a run of tokens and others behind it leave the run as it is. -/
theorem conceal_around {front middle back : List Token} {first second : List Exclusion}
    (hFirst : ∀ e ∈ first, e.Hides ∧ e.stop ≤ totalWidth front) (hSecond : ∀ e ∈ second, e.Hides) :
    conceal (placed 0 (front ++ (middle ++ back)))
        (first ++ second.map (moveBy (totalWidth front + totalWidth middle))) =
      conceal (placed 0 front) first ++ (middle ++ conceal (placed 0 back) second) := by
  have hMoved : ∀ e ∈ second.map (moveBy (totalWidth front + totalWidth middle)),
      e.Hides ∧ totalWidth front + totalWidth middle ≤ e.start := by
    intro e he
    obtain ⟨other, hOther, rfl⟩ := List.mem_map.1 he
    exact ⟨(hSecond other hOther).moveBy _, Nat.le_add_left _ _⟩
  have hFront := @conceal_placed_append 0 front (middle ++ back) first
    (second.map (moveBy (totalWidth front + totalWidth middle)))
    (fun e he => by rw [Nat.zero_add]; exact hFirst e he)
    (fun e he => ⟨(hMoved e he).1, by have := (hMoved e he).2; omega⟩)
  have hMiddle := @conceal_placed_append (totalWidth front) middle back []
    (second.map (moveBy (totalWidth front + totalWidth middle))) (by simp) hMoved
  have hBack := conceal_moveBy (totalWidth front + totalWidth middle) (placed 0 back) second
  rw [← placed_add, Nat.zero_add] at hBack
  rw [List.nil_append, conceal_placed_nil, hBack] at hMiddle
  rw [hFront, Nat.zero_add, hMiddle]

/-- Source material has an effect when it has an extent or is marked. -/
theorem isMarker_or_proper {token : Token} {span : Span} (hShows : token.isEmptyExcerpt = false)
    (hBusy : token.isIdle = false) (hSpan : token.span? = some span) :
    token.isMarker = true ∨ span.start < span.stop := by
  cases token with
  | separator s => cases hSpan
  | excerpt e =>
      cases hSpan
      have hLength : e.text.length ≠ 0 := by simpa [isEmptyExcerpt] using hShows
      have hStop := e.stop_eq
      exact .inr (by omega)
  | gap g =>
      cases hSpan
      cases hUnknown : g.unknown with
      | true => exact .inl hUnknown
      | false => exact .inr (Range.not_isCaret_iff.1 (by simpa [isIdle, hUnknown] using hBusy))

/-- A gap over source material with an effect has an effect. -/
theorem isIdle_of_hidden {hidden : List Piece} {piece : Piece} {span anchor : Span}
    (hPiece : piece ∈ hidden) (hShows : piece.2.isEmptyExcerpt = false)
    (hBusy : piece.2.isIdle = false) (hSpan : piece.2.span? = some span)
    (hStart : anchor.start ≤ span.start) (hStop : span.stop ≤ anchor.stop) (unknown : Bool) :
    (gap ⟨anchor, unknown || hidden.any (·.2.isMarker)⟩).isIdle = false := by
  rcases isMarker_or_proper hShows hBusy hSpan with hMarker | hLong
  · have hAny : hidden.any (·.2.isMarker) = true := List.any_eq_true.2 ⟨piece, hPiece, hMarker⟩
    simp [isIdle, hAny]
  · have hLonger : anchor.isCaret = false := Range.not_isCaret_iff.2 (by omega)
    simp [isIdle, hLonger]

/-- The gap over hidden pieces ties the sequence to its source if they did. -/
theorem tied_cover {hidden : List Piece} (h : Tied (hidden.map (·.2))) : Tied (cover hidden) := by
  obtain ⟨token, hToken, hShows, hBusy, hSpan⟩ := tied_iff.1 h
  obtain ⟨piece, hPiece, rfl⟩ := List.mem_map.1 hToken
  obtain ⟨span, hSpan⟩ := Option.isSome_iff_exists.1 hSpan
  have hMem : span ∈ hidden.filterMap (·.2.span?) := List.mem_filterMap.2 ⟨piece, hPiece, hSpan⟩
  obtain ⟨anchor, hAnchor, hStart, hStop⟩ := Span.exists_hullAll?_of_mem hMem
  rw [cover, hAnchor]
  have hCovered := isIdle_of_hidden hPiece hShows hBusy hSpan hStart hStop false
  exact tied_iff.2 ⟨_, List.mem_singleton.2 rfl, rfl, by simpa using hCovered, rfl⟩

/-- Hiding never cuts a sequence off from its source. -/
theorem tied_conceal {rest : List Piece} {exclusions : List Exclusion} (h : Tied (rest.map (·.2))) :
    Tied (conceal rest exclusions) := by
  induction exclusions generalizing rest with
  | nil => exact h
  | cons e later ih =>
      rw [← e.front_append_covered_append_behind rest, List.map_append, List.map_append,
        tied_append, tied_append] at h
      rw [conceal, tied_append, tied_append]
      rcases h with (hFront | hCovered) | hBehind
      · exact .inl (.inl hFront)
      · exact .inl (.inr (tied_cover hCovered))
      · exact .inr (ih hBehind)

end Exclusion

namespace View
open Token

/-- Hiding never fails. -/
theorem exists_concealed {view : View} {exclusions : List Exclusion}
    (hValid : Exclusion.validate exclusions view.length = .ok ())
    (hKnown : ∀ e ∈ exclusions, e.unknown = false) :
    ∃ after, view.excludeAll exclusions = .ok after ∧ after.domain = view.domain ∧
      after.source = view.source ∧ (Rooted view.tokens → Rooted after.tokens) ∧
      after.tokens = normalize (Exclusion.conceal (placed 0 (atomize view.tokens))
        (exclusions.filter Exclusion.isActive)) := by
  by_cases hRooted : Rooted view.tokens
  · obtain ⟨swept, after, hSwept, hKept, hAfter, hDomain, hSource, hTokens⟩ :=
      exists_excludeAll hRooted hValid
    rw [Exclusion.sweep_eq_conceal (Exclusion.hides_of_active hKnown)] at hSwept
    cases hSwept
    refine ⟨after, hAfter, hDomain, hSource, fun _ => ?_, hTokens⟩
    rw [hTokens]
    exact hKept.normalize
  · have hUnrooted : ∀ token ∈ view.tokens, token.span? = none := by
      simpa [rooted_iff] using hRooted
    have hInactive : exclusions.filter Exclusion.isActive = [] :=
      Exclusion.filter_isActive_eq_nil hKnown (isCaret_of_unrooted hValid hUnrooted)
    refine ⟨view, excludeAll_of_inactive hValid hInactive, rfl, rfl, id, ?_⟩
    rw [hInactive, Exclusion.conceal_placed_nil, normalize_atomize, normalize_of_canonical view.canonical]

end View
end SourceView
