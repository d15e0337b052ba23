import SourceView.Proofs.Atoms

/-! Cutting excerpts at the ends of exclusions. The cut pieces have the same atoms as the tokens they
come from, at the same offsets, and no piece reaches across an offset that was cut at. -/
namespace SourceView

theorem pairwise_insertNew {item : Nat} {items : List Nat} (h : items.Pairwise (· < ·)) :
    (insertNew (· < ·) item items).Pairwise (· < ·) := by
  induction items with
  | nil => simp [insertNew]
  | cons other rest ih =>
      obtain ⟨hOther, hRest⟩ := List.pairwise_cons.1 h
      unfold insertNew
      split
      · exact h
      · next hNe =>
          split
          · next hLt =>
              have hLt : item < other := by simpa using hLt
              refine List.pairwise_cons.2 ⟨fun x hx => ?_, h⟩
              rcases List.mem_cons.1 hx with rfl | hx
              · exact hLt
              · exact Nat.lt_trans hLt (hOther x hx)
          · next hGe =>
              have hGe : ¬ item < other := by simpa using hGe
              refine List.pairwise_cons.2 ⟨fun x hx => ?_, ih hRest⟩
              rcases mem_insertNew.1 hx with rfl | hx
              · omega
              · exact hOther x hx

theorem pairwise_sortNew (items : List Nat) : (sortNew (· < ·) items).Pairwise (· < ·) := by
  induction items with
  | nil => exact .nil
  | cons item rest ih => exact pairwise_insertNew ih

namespace Token

def atomizePieces (pieces : List Piece) : List Piece :=
  pieces.flatMap fun piece => placed piece.1 piece.2.atoms

theorem atomizePieces_cons (piece : Piece) (rest : List Piece) :
    atomizePieces (piece :: rest) = placed piece.1 piece.2.atoms ++ atomizePieces rest := rfl

theorem atomizePieces_append (before after : List Piece) :
    atomizePieces (before ++ after) = atomizePieces before ++ atomizePieces after :=
  List.flatMap_append ..

theorem map_snd_atomizePieces (pieces : List Piece) :
    (atomizePieces pieces).map (·.2) = atomize (pieces.map (·.2)) := by
  induction pieces with
  | nil => rfl
  | cons piece rest ih =>
      rw [atomizePieces_cons, List.map_append, map_snd_placed, ih, List.map_cons, atomize_cons]

/-- The atoms of placed tokens stand where they are placed themselves. -/
theorem atomizePieces_placed (offset : Nat) (tokens : List Token) :
    atomizePieces (placed offset tokens) = placed offset (atomize tokens) := by
  induction tokens generalizing offset with
  | nil => rfl
  | cons token rest ih =>
      rw [placed, atomizePieces_cons, ih, atomize_cons, placed_append, totalWidth_atoms]

/-- Cutting an excerpt leaves its atoms where they are. -/
theorem atomizePieces_cut (start : Nat) (e : Excerpt) (offsets : List Nat) :
    atomizePieces (e.cut start offsets) = placed start (atoms (excerpt e)) := by
  induction offsets generalizing start e with
  | nil => simp [Excerpt.cut, atomizePieces]
  | cons offset rest ih =>
      unfold Excerpt.cut
      split
      · next h =>
          have hWidth : (excerpt (e.take (offset - start))).width = offset - start := by
            rw [width_excerpt]
            simp only [Excerpt.take, List.length_take]
            omega
          have hOffset : start + (offset - start) = offset := by omega
          rw [atomizePieces_cons, ih, ← atoms_take_append_atoms_drop e (offset - start), placed_append,
            totalWidth_atoms, hWidth, hOffset]
      · exact ih start e

theorem split_eq_flatMap (offsets : List Nat) (tokens : List Token) :
    split offsets tokens = (placed 0 tokens).flatMap fun piece =>
      match piece.2 with
      | excerpt e => e.cut piece.1 offsets
      | other => [(piece.1, other)] := rfl

/-- Cutting changes neither the atoms nor where they begin. -/
theorem atomizePieces_split (offsets : List Nat) (tokens : List Token) :
    atomizePieces (split offsets tokens) = placed 0 (atomize tokens) := by
  rw [← atomizePieces_placed, split_eq_flatMap]
  unfold atomizePieces
  rw [List.flatMap_assoc]
  congr 1
  funext piece
  obtain ⟨start, token⟩ := piece
  cases token with
  | gap g => simp [atoms]
  | separator s => simp [atoms]
  | excerpt e => exact atomizePieces_cut start e offsets

def Uncut (offset : Nat) (piece : Piece) : Prop :=
  offset ≤ piece.1 ∨ piece.1 + piece.2.width ≤ offset

/-- The pieces of an excerpt with characters are excerpts with characters, and lie where it does. -/
theorem mem_cut {start : Nat} {e : Excerpt} {offsets : List Nat} {piece : Piece}
    (hText : e.text ≠ []) (h : piece ∈ e.cut start offsets) :
    piece.2.isEmptyExcerpt = false ∧ start ≤ piece.1 ∧
      piece.1 + piece.2.width ≤ start + e.text.length := by
  induction offsets generalizing start e with
  | nil =>
      obtain rfl := List.mem_singleton.1 h
      simp [isEmptyExcerpt, hText, width_excerpt]
  | cons offset rest ih =>
      unfold Excerpt.cut at h
      split at h
      · next hInside =>
          have hTake : (e.take (offset - start)).text.length = offset - start := by
            simp only [Excerpt.take, List.length_take]
            omega
          have hDrop : (e.drop (offset - start)).text.length = start + e.text.length - offset := by
            simp only [Excerpt.drop, List.length_drop]
            omega
          rcases List.mem_cons.1 h with rfl | h
          · have hNe : (e.take (offset - start)).text ≠ [] := fun hNil => by
              rw [hNil, List.length_nil] at hTake
              omega
            refine ⟨by simpa [isEmptyExcerpt] using hNe, Nat.le_refl _, ?_⟩
            rw [width_excerpt, hTake]
            omega
          · have hNe : (e.drop (offset - start)).text ≠ [] := fun hNil => by
              rw [hNil, List.length_nil] at hDrop
              omega
            obtain ⟨hShows, hStart, hStop⟩ := ih hNe h
            rw [hDrop] at hStop
            exact ⟨hShows, by omega, by omega⟩
      · exact ih hText h

/-- No piece of an excerpt reaches across an offset that it was cut at. -/
theorem uncut_of_mem_cut {start offset : Nat} {e : Excerpt} {offsets : List Nat} {piece : Piece}
    (hText : e.text ≠ []) (hSorted : offsets.Pairwise (· < ·)) (h : piece ∈ e.cut start offsets)
    (hOffset : offset ∈ offsets) : Uncut offset piece := by
  induction offsets generalizing start e with
  | nil => simp at hOffset
  | cons first rest ih =>
      obtain ⟨hFirst, hRest⟩ := List.pairwise_cons.1 hSorted
      unfold Excerpt.cut at h
      split at h
      · next hInside =>
          have hTake : (e.take (first - start)).text.length = first - start := by
            simp only [Excerpt.take, List.length_take]
            omega
          have hDrop : (e.drop (first - start)).text ≠ [] := fun hNil => by
            have := congrArg List.length hNil
            simp only [Excerpt.drop, List.length_drop, List.length_nil] at this
            omega
          have hLe : first ≤ offset := by
            rcases List.mem_cons.1 hOffset with rfl | hOffset
            · exact Nat.le_refl _
            · exact Nat.le_of_lt (hFirst offset hOffset)
          rcases List.mem_cons.1 h with rfl | h
          · right
            rw [width_excerpt, hTake]
            show start + (first - start) ≤ offset
            omega
          · rcases List.mem_cons.1 hOffset with rfl | hOffset
            · exact .inl (mem_cut hDrop h).2.1
            · exact ih hDrop hRest h hOffset
      · next hOutside =>
          rcases List.mem_cons.1 hOffset with rfl | hOffset
          · obtain ⟨-, hStart, hStop⟩ := mem_cut hText h
            unfold Uncut
            omega
          · exact ih hText hRest h hOffset

/-- Pieces of tokens with characters have characters, and no offset that was cut at lies strictly
inside one. -/
theorem mem_split {offsets : List Nat} {tokens : List Token} {piece : Piece}
    (hShows : ∀ token ∈ tokens, token.isEmptyExcerpt = false)
    (hSorted : offsets.Pairwise (· < ·)) (h : piece ∈ split offsets tokens) :
    piece.2.isEmptyExcerpt = false ∧ ∀ offset ∈ offsets, Uncut offset piece := by
  rw [split_eq_flatMap] at h
  obtain ⟨⟨start, token⟩, hToken, hPiece⟩ := List.mem_flatMap.1 h
  obtain ⟨before, after, rfl, rfl⟩ := mem_placed_iff.1 hToken
  have hToken := hShows token (by simp)
  cases token with
  | excerpt e =>
      have hText : e.text ≠ [] := by simpa [isEmptyExcerpt] using hToken
      exact ⟨(mem_cut hText hPiece).1, fun offset hOffset =>
        uncut_of_mem_cut hText hSorted hPiece hOffset⟩
  | gap g =>
      obtain rfl := List.mem_singleton.1 hPiece
      refine ⟨rfl, fun offset _ => ?_⟩
      simp only [Uncut, width_gap]
      omega
  | separator s =>
      obtain rfl := List.mem_singleton.1 hPiece
      refine ⟨rfl, fun offset _ => ?_⟩
      simp only [Uncut, width_separator]
      split <;> omega

end Token
end SourceView
