import SourceView.Proofs.Sweep

/-! What a sweep leaves alone. Pieces in front of all exclusions are passed unchanged, an exclusion
does not look at what stands behind it while there is source material in front of its end, and a
sweep that has any source material at all comes to an end and keeps some. -/
namespace SourceView.Exclusion
open Token

theorem takeWhile_append_of_fails {α : Type} {test : α → Bool} {before after : List α}
    (h : ∀ item ∈ after, test item = false) :
    (before ++ after).takeWhile test = before.takeWhile test ∧
      (before ++ after).dropWhile test = before.dropWhile test ++ after := by
  induction before with
  | nil =>
      cases after with
      | nil => exact ⟨rfl, rfl⟩
      | cons item rest =>
          have hItem := h item (by simp)
          simp [hItem]
  | cons item before ih =>
      cases hTest : test item with
      | true => simpa [hTest] using ih
      | false => simp [hTest]

theorem takeWhile_of_boundary {α : Type} {p : α → Bool} {before after : List α}
    (hBefore : ∀ a ∈ before, p a = true) (hAfter : ∀ a ∈ after.head?, p a = false) :
    (before ++ after).takeWhile p = before ∧ (before ++ after).dropWhile p = after := by
  rw [List.takeWhile_append_of_pos hBefore, List.dropWhile_append_of_pos hBefore]
  cases after with
  | nil => simp
  | cons a rest =>
      have hFails : ¬ p a = true := by simp [hAfter a rfl]
      rw [List.takeWhile_cons_of_neg hFails, List.dropWhile_cons_of_neg hFails]
      exact ⟨List.append_nil before, rfl⟩

/-- What an exclusion takes of pieces, told from where they stand. -/
theorem parts_eq {e : Exclusion} {before hidden after : List Piece}
    (hBefore : ∀ piece ∈ before, isBefore e.start (!e.isCaret) piece = true)
    (hFirst : ∀ piece ∈ (hidden ++ after).head?, isBefore e.start (!e.isCaret) piece = false)
    (hHidden : ∀ piece ∈ hidden, piece.1 < e.stop)
    (hAfter : ∀ piece ∈ after.head?, e.stop ≤ piece.1) :
    e.front (before ++ (hidden ++ after)) = before ∧
      e.covered (before ++ (hidden ++ after)) = hidden ∧
      e.behind (before ++ (hidden ++ after)) = after := by
  obtain ⟨hFront, hRest⟩ := takeWhile_of_boundary hBefore hFirst
  have hReached : ∀ piece ∈ hidden, decide (piece.1 < e.stop) = true := by simpa using hHidden
  have hPassed : ∀ piece ∈ after.head?, decide (piece.1 < e.stop) = false := by simpa using hAfter
  obtain ⟨hCovered, hBehind⟩ := takeWhile_of_boundary hReached hPassed
  exact ⟨hFront, by rw [covered, hRest, hCovered], by rw [behind, hRest, hBehind]⟩

/-- An exclusion looks for its parts only among the pieces that begin in front of its end. -/
theorem parts_append {e : Exclusion} {before after : List Piece}
    (hBefore : ∀ piece ∈ before, piece.1 < e.stop) (hAfter : ∀ piece ∈ after, e.stop ≤ piece.1) :
    e.front (before ++ after) = e.front before ∧ e.covered (before ++ after) = e.covered before ∧
      e.behind (before ++ after) = after ∧ e.front before ++ e.covered before = before := by
  have hOrdered := e.ordered
  have hFails (piece : Piece) (hPiece : piece ∈ after) :
      isBefore e.start (!e.isCaret) piece = false := by
    have hStop := hAfter piece hPiece
    unfold isBefore Range.isCaret
    split
    · simp only [decide_eq_false_iff_not]
      omega
    · simp only [Bool.or_eq_false_iff, decide_eq_false_iff_not, Bool.and_eq_false_iff,
        Bool.not_eq_false', beq_iff_eq, beq_eq_false_iff_ne]
      omega
  have hBehind (piece : Piece) (hPiece : piece ∈ after) : decide (piece.1 < e.stop) = false := by
    have hStop := hAfter piece hPiece
    simp only [decide_eq_false_iff_not]
    omega
  have hReached (piece : Piece)
      (hPiece : piece ∈ before.dropWhile (isBefore e.start (!e.isCaret))) :
      decide (piece.1 < e.stop) = true :=
    decide_eq_true (hBefore piece ((List.dropWhile_sublist _).mem hPiece))
  obtain ⟨hFront, hOther⟩ := @takeWhile_append_of_fails _ _ before _ hFails
  obtain ⟨hCovered, hRest⟩ := @takeWhile_append_of_fails _ _
    (before.dropWhile (isBefore e.start (!e.isCaret))) _ hBehind
  have hWhole := @List.takeWhile_append_of_pos _ (fun piece : Piece => decide (piece.1 < e.stop))
    (before.dropWhile (isBefore e.start (!e.isCaret))) [] hReached
  have hNone := @List.dropWhile_append_of_pos _ (fun piece : Piece => decide (piece.1 < e.stop))
    (before.dropWhile (isBefore e.start (!e.isCaret))) [] hReached
  simp only [List.append_nil, List.takeWhile_nil, List.dropWhile_nil] at hWhole hNone
  refine ⟨hFront, ?_, ?_, ?_⟩
  · rw [covered, hOther, hCovered, covered]
  · rw [behind, hOther, hRest, hNone, List.nil_append]
  · rw [front, covered, hWhole, List.takeWhile_append_dropWhile]

/-- Pieces in front of all exclusions are passed unchanged. -/
theorem sweep_append {passed before after : List Piece} {exclusions : List Exclusion}
    (h : ∀ e ∈ exclusions, ∀ piece ∈ before, piece.1 < e.start) :
    sweep passed (before ++ after) exclusions =
      (sweep (before.reverse ++ passed) after exclusions).map (before.map (·.2) ++ ·) := by
  cases exclusions with
  | nil => simp [sweep, Except.map]
  | cons e later =>
      have hPasses (piece : Piece) (hPiece : piece ∈ before) :
          isBefore e.start (!e.isCaret) piece = true := by
        have hStart := h e (by simp) piece hPiece
        simp [isBefore, hStart]
      have hFront : e.front (before ++ after) = before ++ e.front after :=
        List.takeWhile_append_of_pos hPasses
      have hDrop := @List.dropWhile_append_of_pos _ _ _ after hPasses
      have hCovered : e.covered (before ++ after) = e.covered after := by
        rw [covered, hDrop, covered]
      have hBehind : e.behind (before ++ after) = e.behind after := by
        rw [behind, hDrop, behind]
      rw [sweep_cons, sweep_cons, hFront, hCovered, hBehind]
      simp only [List.reverse_append, List.append_assoc, List.map_append]
      cases e.substitute ((e.front after).reverse ++ (before.reverse ++ passed)) (e.covered after)
          (e.behind after) with
      | error fault => rfl
      | ok gaps =>
          cases sweep ((e.covered after).reverse ++ ((e.front after).reverse ++
              (before.reverse ++ passed))) (e.behind after) later <;> rfl

theorem findSome?_span_eq_none_iff {pieces : List Piece} :
    pieces.findSome? (·.2.span?) = none ↔ ∀ piece ∈ pieces, piece.2.span?.isSome = false := by
  simp [List.findSome?_eq_none_iff]

/-- What stands behind the hidden pieces does not matter when there is source material among them or
in front of them. -/
theorem substitute_congr {e : Exclusion} {left hidden : List Piece} (right other : List Piece)
    (h : ∃ piece ∈ left ++ hidden, piece.2.span?.isSome = true) :
    e.substitute left hidden right = e.substitute left hidden other := by
  have hAnchor : markerAnchor left (hidden ++ right) = markerAnchor left (hidden ++ other) := by
    rw [markerAnchor_eq, markerAnchor_eq]
    cases hLeft : left.findSome? (·.2.span?) with
    | some span => rfl
    | none =>
        rw [List.findSome?_append, List.findSome?_append]
        cases hHidden : hidden.findSome? (·.2.span?) with
        | some span => rfl
        | none =>
            obtain ⟨piece, hPiece, hSpan⟩ := h
            rcases List.mem_append.1 hPiece with hPiece | hPiece
            · simp [findSome?_span_eq_none_iff.1 hLeft piece hPiece] at hSpan
            · simp [findSome?_span_eq_none_iff.1 hHidden piece hPiece] at hSpan
  simp only [substitute, replacement, hAnchor]

/-- A marker finds a place wherever there is source material on either side. -/
theorem exists_markerAnchor {left right : List Piece}
    (h : ∃ piece ∈ left ++ right, piece.2.span?.isSome = true) :
    ∃ anchor, markerAnchor left right = .ok anchor := by
  rw [markerAnchor_eq]
  cases hLeft : left.findSome? (·.2.span?) with
  | some span => exact ⟨span.tail, rfl⟩
  | none =>
      cases hRight : right.findSome? (·.2.span?) with
      | some span => exact ⟨span.head, rfl⟩
      | none =>
          obtain ⟨piece, hPiece, hSpan⟩ := h
          rcases List.mem_append.1 hPiece with hPiece | hPiece
          · simp [findSome?_span_eq_none_iff.1 hLeft piece hPiece] at hSpan
          · simp [findSome?_span_eq_none_iff.1 hRight piece hPiece] at hSpan

/-- Hidden pieces can be replaced wherever there is source material among them or beside them. -/
theorem exists_substitute (e : Exclusion) {left hidden right : List Piece}
    (h : ∃ piece ∈ left ++ (hidden ++ right), piece.2.span?.isSome = true) :
    ∃ gaps, e.substitute left hidden right = .ok gaps := by
  obtain ⟨anchor, hAnchor⟩ := exists_markerAnchor h
  unfold substitute replacement
  rw [hAnchor]
  split
  · exact ⟨_, rfl⟩
  · split
    · exact ⟨_, rfl⟩
    · split
      · exact ⟨_, rfl⟩
      · exact ⟨_, rfl⟩

/-- A sweep over any source material finds a place for every marker. -/
theorem exists_sweep {passed rest : List Piece} {exclusions : List Exclusion}
    (h : ∃ piece ∈ passed ++ rest, piece.2.span?.isSome = true) :
    ∃ tokens, sweep passed rest exclusions = .ok tokens := by
  induction exclusions generalizing passed rest with
  | nil => exact ⟨_, rfl⟩
  | cons e later ih =>
      obtain ⟨piece, hPiece, hSpan⟩ := h
      have hWhole := e.front_append_covered_append_behind rest
      rw [← hWhole] at hPiece
      have hLeft : piece ∈ (e.front rest).reverse ++ passed ++ (e.covered rest ++ e.behind rest) := by
        simpa [or_left_comm] using hPiece
      have hPassed : piece ∈ (e.front rest ++ e.covered rest).reverse ++ passed ++ e.behind rest := by
        simpa [or_left_comm, or_assoc] using hPiece
      obtain ⟨gaps, hGaps⟩ := e.exists_substitute ⟨piece, hLeft, hSpan⟩
      obtain ⟨after, hAfter⟩ := ih ⟨piece, hPassed, hSpan⟩
      rw [sweep_cons, hGaps]
      simp only [bind, Except.bind, hAfter]
      exact ⟨_, rfl⟩

end SourceView.Exclusion
