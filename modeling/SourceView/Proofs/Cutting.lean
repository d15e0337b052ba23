import Mathlib.Data.List.Forall2
import SourceView.Proofs.Checks
import SourceView.Proofs.Rendering
import SourceView.Proofs.Split

/-! What cutting leaves as it was, and what it achieves. The pieces of an excerpt make it up again, all
other tokens are kept, every piece is recorded where it begins among the pieces, and no cut is left
inside of one. The cuts of an excerpt can be found by a search, and none of the slices that are then
taken is refused. -/
namespace SourceView

namespace Search

variable {entries : List Nat}

/-- What stands at the lower bound and behind it is what is not less than the bound. -/
theorem drop_lowerBound (hSorted : entries.Pairwise (· ≤ ·)) (bound : Nat) :
    entries.drop (lowerBound entries.toArray bound) = entries.filter (bound ≤ ·) := by
  obtain ⟨before, after, rfl, hBefore, hAfter⟩ := exists_parts_of_sorted hSorted bound
  have hNone : before.filter (bound ≤ ·) = [] := by
    simpa [List.filter_eq_nil_iff] using hBefore
  have hAll : after.filter (bound ≤ ·) = after := by
    simpa [List.filter_eq_self] using hAfter
  rw [lowerBound_append hSorted hBefore hAfter, List.drop_left, List.filter_append, hNone, hAll,
    List.nil_append]

theorem takeWhile_eq_filter (hSorted : entries.Pairwise (· ≤ ·)) (bound : Nat) :
    entries.takeWhile (· < bound) = entries.filter (· < bound) := by
  obtain ⟨before, after, rfl, hBefore, hAfter⟩ := exists_parts_of_sorted hSorted bound
  have hAll : ∀ x ∈ before, decide (x < bound) = true := by simpa using hBefore
  have hNone : ∀ x ∈ after, ¬ decide (x < bound) = true := by simpa using hAfter
  have hFirst : ∀ x ∈ after.head?, decide (x < bound) = false := fun x hx => by
    simpa using hNone x (List.mem_of_head? hx)
  rw [(Exclusion.takeWhile_of_boundary hAll hFirst).1, List.filter_append, List.filter_eq_self.2 hAll,
    List.filter_eq_nil_iff.2 hNone, List.append_nil]

end Search

namespace Excerpt

/-- The offsets that lie strictly inside an excerpt that begins at `start`. A search finds the first
one behind the start, and from there on they are read up to the end of the excerpt. -/
def innerCuts (start : Nat) (e : Excerpt) (offsets : List Nat) : List Nat :=
  (offsets.drop (Search.lowerBound offsets.toArray (start + 1))).takeWhile (· < start + e.text.length)

/-- The pieces of an excerpt that begins at `start`, sliced off at one offset after the other. The
first `done` characters have been sliced off already. -/
def sliceAt (start done : Nat) (e : Excerpt) : List Nat → Except Fault (List Piece)
  | [] => do
    let last ← e.dropChecked done
    return [(start + done, .excerpt last)]
  | offset :: offsets => do
    let front ← e.slice done (offset - start : Nat)
    let pieces ← sliceAt start (offset - start) e offsets
    return (start + done, .excerpt front) :: pieces

/-- An excerpt and others that make it up, from left to right. Each of them ends in the source where
the next one begins, and their texts are put one behind the other. -/
inductive MadeOf : Excerpt → List Excerpt → Prop
  | whole (e : Excerpt) : MadeOf e [e]
  | append {a b : Excerpt} {parts : List Excerpt} (h : a.span.Adjacent b.span)
      (rest : MadeOf b parts) : MadeOf (a.append b h) (a :: parts)

variable {start : Nat} {e : Excerpt} {offsets : List Nat}

/-- The search finds just the offsets that lie strictly inside the excerpt. -/
theorem innerCuts_eq (hSorted : offsets.Pairwise (· < ·)) (start : Nat) (e : Excerpt) :
    e.innerCuts start offsets =
      offsets.filter fun offset => start < offset ∧ offset < start + e.text.length := by
  have hWeak : offsets.Pairwise (· ≤ ·) := hSorted.imp Nat.le_of_lt
  rw [innerCuts, Search.drop_lowerBound hWeak, Search.takeWhile_eq_filter (hWeak.filter _),
    List.filter_filter]
  refine List.filter_congr fun offset _ => ?_
  rw [Bool.eq_iff_iff]
  simp only [Bool.and_eq_true, decide_eq_true_eq]
  omega

/-- In ascending order the offsets that are left behind a cut are those behind it. -/
theorem sliceAt_filter (hSorted : offsets.Pairwise (· < ·)) (start done : Nat) (e : Excerpt) :
    e.sliceAt start done (offsets.filter fun offset =>
        start + done < offset ∧ offset < start + e.text.length) =
      e.cutChecked start done offsets := by
  induction offsets generalizing done with
  | nil => rfl
  | cons offset offsets ih =>
      obtain ⟨hFirst, hRest⟩ := List.pairwise_cons.1 hSorted
      rw [cutChecked]
      by_cases hInside : start + done < offset ∧ offset < start + e.text.length
      · -- The bounds differ only in front of `offset`, and what is left stands behind it.
        have hLater : (offsets.filter fun later =>
            start + done < later ∧ later < start + e.text.length) =
            offsets.filter fun later =>
              start + (offset - start) < later ∧ later < start + e.text.length := by
          refine List.filter_congr fun later hLater => ?_
          have hBehind := hFirst later hLater
          have hLeft : start + done < later := by omega
          have hRight : start + (offset - start) < later := by omega
          simp only [hLeft, hRight]
        rw [List.filter_cons_of_pos (by simpa using hInside), if_pos hInside, sliceAt, hLater,
          ih hRest]
      · rw [List.filter_cons_of_neg (by simpa using hInside), if_neg hInside, ih hRest]

/-- Slicing at the offsets that are found gives the pieces of the excerpt, and no slice is refused. -/
theorem sliceAt_innerCuts (hSorted : offsets.Pairwise (· < ·)) (start : Nat) (e : Excerpt) :
    e.sliceAt start 0 (e.innerCuts start offsets) = .ok (e.cut start offsets) := by
  have hCut := cutChecked_eq start e (Nat.zero_le _) offsets
  rw [drop_zero, Nat.add_zero] at hCut
  rw [innerCuts_eq hSorted, ← hCut, ← sliceAt_filter hSorted]
  rfl

/-- There is no place for a cut in an excerpt without characters. -/
theorem cut_of_text_eq_nil (h : e.text = []) (start : Nat) (offsets : List Nat) :
    e.cut start offsets = [(start, .excerpt e)] := by
  induction offsets with
  | nil => rfl
  | cons offset offsets ih =>
      have hOutside : ¬ (start < offset ∧ offset < start + e.text.length) := by
        rw [h, List.length_nil]
        omega
      rw [cut, if_neg hOutside, ih]

/-- The pieces of an excerpt are slices that make it up. -/
theorem exists_parts_of_cut (start : Nat) (e : Excerpt) (offsets : List Nat) :
    ∃ parts, (e.cut start offsets).map (·.2) = parts.map .excerpt ∧ e.MadeOf parts ∧
      ∀ part ∈ parts, ∃ i j : Nat, e.slice i j = .ok part := by
  -- Of what is left behind a cut every part is a part of the whole, so this form carries the induction.
  suffices h : ∃ parts, (e.cut start offsets).map (·.2) = parts.map .excerpt ∧ e.MadeOf parts ∧
      ∀ part ∈ parts, ∃ i n, i + n ≤ e.text.length ∧ part = (e.drop i).take n by
    obtain ⟨parts, hPieces, hWhole, hParts⟩ := h
    refine ⟨parts, hPieces, hWhole, fun part hPart => ?_⟩
    obtain ⟨i, n, hInside, rfl⟩ := hParts part hPart
    refine ⟨i, i + n, ?_⟩
    rw [slice_eq_ok e (Nat.le_add_right i n) hInside, Nat.add_sub_cancel_left]
  induction offsets generalizing start e with
  | nil =>
      refine ⟨[e], rfl, .whole e, fun part hPart => ⟨0, e.text.length, by omega, ?_⟩⟩
      rw [List.mem_singleton.1 hPart, drop_zero, take_of_length_le (Nat.le_refl _)]
  | cons offset offsets ih =>
      rw [cut]
      split
      · next hInside =>
          obtain ⟨parts, hPieces, hWhole, hParts⟩ := ih offset (e.drop (offset - start))
          have hLength : (e.drop (offset - start)).text.length = e.text.length - (offset - start) :=
            List.length_drop
          refine ⟨e.take (offset - start) :: parts, ?_, ?_, ?_⟩
          · rw [List.map_cons, hPieces, List.map_cons]
          · have hAppend := MadeOf.append (e.take_adjacent_drop (offset - start)) hWhole
            rwa [take_append_drop] at hAppend
          · intro part hPart
            rcases List.mem_cons.1 hPart with rfl | hPart
            · exact ⟨0, offset - start, by omega, by rw [drop_zero]⟩
            · obtain ⟨i, n, hBound, rfl⟩ := hParts part hPart
              exact ⟨offset - start + i, n, by omega, by rw [drop_drop]⟩
      · exact ih start e

/-- Each piece is recorded where it begins among the pieces, and together they are as wide as the
excerpt. -/
theorem cut_eq_placed (start : Nat) (e : Excerpt) (offsets : List Nat) :
    e.cut start offsets = Token.placed start ((e.cut start offsets).map (·.2)) ∧
      Token.totalWidth ((e.cut start offsets).map (·.2)) = e.text.length := by
  induction offsets generalizing start e with
  | nil => exact ⟨rfl, rfl⟩
  | cons offset offsets ih =>
      rw [cut]
      split
      · next hInside =>
          obtain ⟨hPlaced, hWidth⟩ := ih offset (e.drop (offset - start))
          have hTake : (Token.excerpt (e.take (offset - start))).width = offset - start := by
            rw [Token.width_excerpt]
            simp only [take, List.length_take]
            omega
          have hDrop : (e.drop (offset - start)).text.length = e.text.length - (offset - start) :=
            List.length_drop
          have hOffset : start + (offset - start) = offset := by omega
          rw [List.map_cons, Token.placed, Token.totalWidth, hTake, hOffset, ← hPlaced, hWidth, hDrop]
          exact ⟨rfl, by omega⟩
      · exact ih start e

end Excerpt

namespace Token

/-- The pieces of a token that begins at `start`. Only excerpts are cut. -/
def pieces (offsets : List Nat) (start : Nat) : Token → List Piece
  | excerpt e => e.cut start offsets
  | token => [(start, token)]

/-- The pieces of a token sequence. The cuts of each excerpt are found by a search, and every piece is
taken by a slice that may be refused. -/
def splitSearched (offsets : List Nat) (tokens : List Token) : Except Fault (List Piece) := do
  let groups ← (placed 0 tokens).mapM fun (start, token) =>
    match token with
    | excerpt e => e.sliceAt start 0 (e.innerCuts start offsets)
    | other => .ok [(start, other)]
  return groups.flatten

/-- A token and what it is divided into. An excerpt is divided into slices that make it up, each of
them with characters if it has any itself, and every other token is kept. -/
inductive Divided : Token → List Token → Prop
  | excerpt {e : Excerpt} {parts : List Excerpt} (hWhole : e.MadeOf parts)
      (hSlices : ∀ part ∈ parts, ∃ i j : Nat, e.slice i j = .ok part)
      (hShown : e.text ≠ [] → ∀ part ∈ parts, part.text ≠ []) :
      Divided (excerpt e) (parts.map excerpt)
  | gap (g : Gap) : Divided (gap g) [gap g]
  | separator (s : Separator) : Divided (separator s) [separator s]

def isExcerpt : Token → Bool
  | excerpt _ => true
  | _ => false

variable {offsets : List Nat}

theorem split_eq_flatMap_pieces (offsets : List Nat) (tokens : List Token) :
    split offsets tokens = (placed 0 tokens).flatMap fun piece => pieces offsets piece.1 piece.2 := by
  rw [split_eq_flatMap]
  refine congrArg (List.flatMap · _) (funext fun piece => ?_)
  obtain ⟨start, token⟩ := piece
  cases token <;> rfl

/-- No slice is refused, and the search changes nothing about the pieces. -/
theorem splitSearched_eq (hSorted : offsets.Pairwise (· < ·)) (tokens : List Token) :
    splitSearched offsets tokens = .ok (split offsets tokens) := by
  have hEach : (fun piece : Piece => match piece with
      | (start, token) =>
        match token with
        | excerpt e => e.sliceAt start 0 (e.innerCuts start offsets)
        | other => Except.ok [(start, other)]) =
      fun piece => (pure (pieces offsets piece.1 piece.2) : Except Fault (List Piece)) := by
    funext (start, token)
    cases token with
    | excerpt e => exact Excerpt.sliceAt_innerCuts hSorted start e
    | gap g => rfl
    | separator s => rfl
  rw [splitSearched, hEach, List.mapM_pure, split_eq_flatMap_pieces, List.flatMap_def]
  rfl

theorem divided_pieces (offsets : List Nat) (start : Nat) (token : Token) :
    Divided token ((pieces offsets start token).map (·.2)) := by
  cases token with
  | gap g => exact .gap g
  | separator s => exact .separator s
  | excerpt e =>
      obtain ⟨parts, hPieces, hWhole, hSlices⟩ := e.exists_parts_of_cut start offsets
      rw [pieces, hPieces]
      refine .excerpt hWhole hSlices fun hText part hPart hNil => ?_
      have hMem : excerpt part ∈ (e.cut start offsets).map (·.2) :=
        hPieces ▸ List.mem_map_of_mem hPart
      obtain ⟨piece, hPiece, hToken⟩ := List.mem_map.1 hMem
      have hShows := (mem_cut hText hPiece).1
      simp [hToken, isEmptyExcerpt, hNil] at hShows

theorem pieces_eq_placed (offsets : List Nat) (start : Nat) (token : Token) :
    pieces offsets start token = placed start ((pieces offsets start token).map (·.2)) ∧
      totalWidth ((pieces offsets start token).map (·.2)) = token.width := by
  cases token with
  | excerpt e => exact e.cut_eq_placed start offsets
  | gap g => exact ⟨rfl, rfl⟩
  | separator s => exact ⟨rfl, rfl⟩

/-- None of the offsets lies strictly inside a piece. -/
theorem uncut_of_mem_pieces (hSorted : offsets.Pairwise (· < ·)) {start : Nat} {token : Token}
    {piece : Piece} (hPiece : piece ∈ pieces offsets start token) {offset : Nat}
    (hOffset : offset ∈ offsets) : Uncut offset piece := by
  have hNarrow (h : piece = (start, token)) (hWidth : token.width ≤ 1) : Uncut offset piece := by
    subst h
    simp only [Uncut]
    omega
  cases token with
  | gap g => exact hNarrow (List.mem_singleton.1 hPiece) (by rw [width_gap]; omega)
  | separator s =>
      exact hNarrow (List.mem_singleton.1 hPiece) (by rw [width_separator]; split <;> omega)
  | excerpt e =>
      by_cases hText : e.text = []
      · rw [pieces, Excerpt.cut_of_text_eq_nil hText] at hPiece
        exact hNarrow (List.mem_singleton.1 hPiece) (by rw [width_excerpt, hText]; decide)
      · exact uncut_of_mem_cut hText hSorted hPiece hOffset

/-- The groups of pieces belong to the tokens one by one. -/
theorem forall₂_divided (offsets : List Nat) (offset : Nat) (tokens : List Token) :
    List.Forall₂ Divided tokens
      ((placed offset tokens).map fun piece => (pieces offsets piece.1 piece.2).map (·.2)) := by
  induction tokens generalizing offset with
  | nil => exact .nil
  | cons token rest ih => exact .cons (divided_pieces offsets offset token) (ih _)

/-- Each piece begins behind what the pieces in front of it show. -/
theorem flatMap_pieces_eq_placed (offsets : List Nat) (offset : Nat) (tokens : List Token) :
    ((placed offset tokens).flatMap fun piece => pieces offsets piece.1 piece.2) =
      placed offset (((placed offset tokens).flatMap fun piece =>
        pieces offsets piece.1 piece.2).map (·.2)) := by
  induction tokens generalizing offset with
  | nil => rfl
  | cons token rest ih =>
      obtain ⟨hFirst, hWidth⟩ := pieces_eq_placed offsets offset token
      rw [placed, List.flatMap_cons, List.map_append, placed_append, ← hFirst, hWidth, ← ih]

theorem Divided.filter_eq {token : Token} {parts : List Token} (h : Divided token parts) :
    parts.filter (!·.isExcerpt) = [token].filter (!·.isExcerpt) := by
  cases h with
  | gap g => rfl
  | separator s => rfl
  | excerpt hWhole hSlices hShown => simp [isExcerpt]

/-- Only excerpts are divided, so all other tokens are left in their order. -/
theorem filter_flatten_of_divided {tokens : List Token} {groups : List (List Token)}
    (h : List.Forall₂ Divided tokens groups) :
    groups.flatten.filter (!·.isExcerpt) = tokens.filter (!·.isExcerpt) := by
  induction h with
  | nil => rfl
  | cons hFirst hRest ih =>
      rw [List.flatten_cons, List.filter_append, hFirst.filter_eq, ih, ← List.filter_append,
        List.singleton_append]

/-- Cutting at ascending offsets records every piece where it begins among the pieces, keeps all
tokens but excerpts in their order, divides each excerpt into slices that make it up, with characters
in each of them if it has any, and leaves no offset strictly inside a piece. None of the slices that
are taken on the way is refused. -/
theorem split_lossless (hSorted : offsets.Pairwise (· < ·)) (tokens : List Token) :
    (split offsets tokens).map (·.1) = starts ((split offsets tokens).map (·.2)) ∧
      ((split offsets tokens).map (·.2)).filter (!·.isExcerpt) = tokens.filter (!·.isExcerpt) ∧
      (∃ groups, List.Forall₂ Divided tokens groups ∧
        (split offsets tokens).map (·.2) = groups.flatten) ∧
      (∀ piece ∈ split offsets tokens, ∀ offset ∈ offsets,
        ¬ (piece.1 < offset ∧ offset < piece.1 + piece.2.width)) ∧
      splitSearched offsets tokens = .ok (split offsets tokens) := by
  have hPlaced := flatMap_pieces_eq_placed offsets 0 tokens
  have hDivided := forall₂_divided offsets 0 tokens
  rw [← split_eq_flatMap_pieces] at hPlaced
  have hGroups : (split offsets tokens).map (·.2) =
      ((placed 0 tokens).map fun piece => (pieces offsets piece.1 piece.2).map (·.2)).flatten := by
    rw [split_eq_flatMap_pieces, List.map_flatMap, List.flatMap_def]
  refine ⟨congrArg (List.map (·.1)) hPlaced, ?_, ⟨_, hDivided, hGroups⟩, ?_,
    splitSearched_eq hSorted tokens⟩
  · rw [hGroups, filter_flatten_of_divided hDivided]
  · intro piece hPiece offset hOffset
    rw [split_eq_flatMap_pieces] at hPiece
    obtain ⟨whole, -, hPiece⟩ := List.mem_flatMap.1 hPiece
    rcases uncut_of_mem_pieces hSorted hPiece hOffset with hFront | hBehind
    · omega
    · omega

/-- One of the cuts is at the border between two excerpts, where a gap stands. -/
theorem split_lossless_of_border :
    [1, 2, 3].Pairwise (· < ·) ∧
      splitSearched [1, 2, 3]
        [excerpt ⟨⟨⟨0, 2, by decide⟩, "doc"⟩, ['a', 'b'], rfl⟩,
          gap ⟨⟨⟨2, 6, by decide⟩, "doc"⟩, true⟩,
          excerpt ⟨⟨⟨6, 8, by decide⟩, "doc"⟩, ['c', 'd'], rfl⟩] =
        .ok [(0, excerpt ⟨⟨⟨0, 1, by decide⟩, "doc"⟩, ['a'], rfl⟩),
          (1, excerpt ⟨⟨⟨1, 2, by decide⟩, "doc"⟩, ['b'], rfl⟩),
          (2, gap ⟨⟨⟨2, 6, by decide⟩, "doc"⟩, true⟩),
          (2, excerpt ⟨⟨⟨6, 7, by decide⟩, "doc"⟩, ['c'], rfl⟩),
          (3, excerpt ⟨⟨⟨7, 8, by decide⟩, "doc"⟩, ['d'], rfl⟩)] := by
  have hSorted : [1, 2, 3].Pairwise (· < ·) := by decide
  exact ⟨hSorted, (split_lossless hSorted _).2.2.2.2⟩

end Token
end SourceView
