import SourceView.Token

/-! Where tokens stand in the shown text: each begins behind what the tokens in front of it show. -/
namespace SourceView.Token

/-- A token is placed behind as many characters as the tokens in front of it show. -/
theorem mem_placed_iff {offset start : Nat} {token : Token} {tokens : List Token} :
    (start, token) ∈ placed offset tokens ↔ ∃ before after,
      tokens = before ++ token :: after ∧ start = offset + totalWidth before := by
  induction tokens generalizing offset with
  | nil => simp [placed]
  | cons first rest ih =>
      rw [placed, List.mem_cons, ih]
      constructor
      · rintro (hFirst | ⟨before, after, rfl, rfl⟩)
        · obtain ⟨rfl, rfl⟩ := Prod.mk.inj hFirst
          exact ⟨[], rest, rfl, rfl⟩
        · exact ⟨first :: before, after, rfl, by simp [totalWidth, Nat.add_assoc]⟩
      · rintro ⟨before, after, hEq, rfl⟩
        cases before with
        | nil =>
            obtain ⟨rfl, rfl⟩ := List.cons.inj hEq
            exact .inl rfl
        | cons other before =>
            obtain ⟨rfl, hRest⟩ := List.cons.inj hEq
            exact .inr ⟨before, after, hRest, by simp [totalWidth, Nat.add_assoc]⟩

theorem totalWidth_append (before after : List Token) :
    totalWidth (before ++ after) = totalWidth before + totalWidth after := by
  induction before with
  | nil => simp [totalWidth]
  | cons token rest ih => simp [totalWidth, ih, Nat.add_assoc]

theorem width_excerpt (e : Excerpt) : (excerpt e).width = e.text.length := rfl

theorem width_gap (g : Gap) : (gap g).width = 0 := rfl

theorem width_separator (s : Separator) : (separator s).width = if s.active then 1 else 0 := by
  show (if s.active then [s.char] else []).length = _
  split <;> rfl

theorem isVisible_iff {token : Token} : token.isVisible = true ↔ 0 < token.width := by
  simp [isVisible, width, List.length_pos_iff]

theorem start_of_mem_placed {offset : Nat} {piece : Nat × Token} {tokens : List Token}
    (h : piece ∈ placed offset tokens) :
    offset ≤ piece.1 ∧ piece.1 + piece.2.width ≤ offset + totalWidth tokens := by
  obtain ⟨start, token⟩ := piece
  obtain ⟨before, after, rfl, rfl⟩ := mem_placed_iff.1 h
  simp only [totalWidth_append, totalWidth]
  omega

theorem mem_of_mem_placed {offset : Nat} {piece : Nat × Token} {tokens : List Token}
    (h : piece ∈ placed offset tokens) : piece.2 ∈ tokens := by
  rw [← map_snd_placed offset tokens]
  exact List.mem_map_of_mem h

/-- Each token begins behind all that the tokens in front of it show. -/
theorem pairwise_placed (offset : Nat) (tokens : List Token) :
    (placed offset tokens).Pairwise fun a b => a.1 + a.2.width ≤ b.1 := by
  induction tokens generalizing offset with
  | nil => exact .nil
  | cons token rest ih =>
      exact List.pairwise_cons.2 ⟨fun piece hPiece => (start_of_mem_placed hPiece).1, ih _⟩

/-- An offset within a sequence is either strictly inside an excerpt or parts the sequence, behind
something shown and in front of all that takes no room there. -/
theorem exists_boundary {offset target : Nat} {tokens : List Token} (hStart : offset ≤ target)
    (hStop : target ≤ offset + totalWidth tokens) :
    (∃ left e right i, tokens = left ++ excerpt e :: right ∧ 0 < i ∧ i < e.text.length ∧
      target = offset + totalWidth left + i) ∨
    ∃ left right, tokens = left ++ right ∧ offset + totalWidth left = target ∧
      ∀ piece ∈ placed offset left, piece.1 < target := by
  induction tokens generalizing offset with
  | nil => exact .inr ⟨[], [], rfl, Nat.le_antisymm hStart hStop, by simp [placed]⟩
  | cons token rest ih =>
      rw [totalWidth] at hStop
      rcases Nat.eq_or_lt_of_le hStart with rfl | hBefore
      · exact .inr ⟨[], token :: rest, rfl, rfl, by simp [placed]⟩
      · rcases Nat.lt_or_ge target (offset + token.width) with hInside | hBehind
        · left
          cases token with
          | gap g =>
              rw [width_gap] at hInside
              omega
          | separator s =>
              rw [width_separator] at hInside
              split at hInside <;> omega
          | excerpt e =>
              rw [width_excerpt] at hInside
              refine ⟨[], e, rest, target - offset, rfl, by omega, by omega, ?_⟩
              simp only [totalWidth]
              omega
        · rcases @ih (offset + token.width) hBehind (by omega) with
            ⟨left, e, right, i, rfl, hPositive, hLength, hTarget⟩ | ⟨left, right, rfl, hTarget, hLeft⟩
          · refine .inl ⟨token :: left, e, right, i, rfl, hPositive, hLength, ?_⟩
            simp only [totalWidth]
            omega
          · refine .inr ⟨token :: left, right, rfl, ?_, ?_⟩
            · simp only [totalWidth]
              omega
            · simp only [placed, List.mem_cons, forall_eq_or_imp]
              exact ⟨hBefore, hLeft⟩

/-- Tokens of at most one character can be parted at every offset of the text. -/
theorem exists_append_of_narrow {offset target : Nat} {tokens : List Token}
    (hNarrow : ∀ token ∈ tokens, token.width ≤ 1) (hStart : offset ≤ target)
    (hStop : target ≤ offset + totalWidth tokens) :
    ∃ before after, tokens = before ++ after ∧ offset + totalWidth before = target ∧
      ∀ piece ∈ placed offset before, piece.1 < target := by
  rcases exists_boundary hStart hStop with ⟨left, e, right, i, rfl, hPositive, hLength, -⟩ | hParts
  · have hWidth := hNarrow (excerpt e) (by simp)
    rw [width_excerpt] at hWidth
    omega
  · exact hParts

/-- Every offset in front of the end of a sequence is that of a character of an excerpt or that of a
separator. -/
theorem exists_shown_at {offset : Nat} {tokens : List Token} (hOffset : offset < totalWidth tokens) :
    (∃ left e right i, tokens = left ++ excerpt e :: right ∧ i < e.text.length ∧
      offset = totalWidth left + i) ∨
    ∃ left s right, tokens = left ++ separator s :: right ∧ s.active = true ∧
      offset = totalWidth left := by
  induction tokens generalizing offset with
  | nil => exact absurd hOffset (Nat.not_lt_zero _)
  | cons token rest ih =>
      rw [totalWidth] at hOffset
      rcases Nat.lt_or_ge offset token.width with hHere | hLater
      · cases token with
        | gap g => exact absurd hHere (Nat.not_lt_zero _)
        | excerpt e => exact .inl ⟨[], e, rest, offset, rfl, hHere, (Nat.zero_add _).symm⟩
        | separator s =>
            rw [width_separator] at hHere
            cases hActive : s.active with
            | false => simp [hActive] at hHere
            | true =>
                rw [hActive, if_pos rfl, Nat.lt_one_iff] at hHere
                exact .inr ⟨[], s, rest, rfl, hActive, hHere⟩
      · rcases @ih (offset - token.width) (by omega) with
          ⟨left, e, right, i, rfl, hi, hEq⟩ | ⟨left, s, right, rfl, hActive, hEq⟩
        · refine .inl ⟨token :: left, e, right, i, rfl, hi, ?_⟩
          simp only [totalWidth]
          omega
        · refine .inr ⟨token :: left, s, right, rfl, hActive, ?_⟩
          simp only [totalWidth]
          omega

theorem totalWidth_eq_zero_iff {tokens : List Token} :
    totalWidth tokens = 0 ↔ ∀ token ∈ tokens, token.isVisible = false := by
  induction tokens with
  | nil => simp [totalWidth]
  | cons token rest ih =>
      have hWidth : token.width = 0 ↔ token.isVisible = false := by
        rw [Bool.eq_false_iff, Ne, isVisible_iff, Nat.pos_iff_ne_zero, Decidable.not_not]
      rw [totalWidth, Nat.add_eq_zero_iff, ih, hWidth]
      simp

/-- The tokens without width in front of the first one that is shown. -/
theorem exists_leading_blanks (tokens : List Token) :
    ∃ blanks shown, tokens = blanks ++ shown ∧ (∀ token ∈ blanks, token.isVisible = false) ∧
      ∀ token, shown.head? = some token → token.isVisible = true := by
  refine ⟨tokens.takeWhile (fun token => !token.isVisible),
    tokens.dropWhile (fun token => !token.isVisible), List.takeWhile_append_dropWhile.symm, ?_, ?_⟩
  · intro token hToken
    simpa using List.all_eq_true.1 List.all_takeWhile token hToken
  · intro token hFirst
    have := List.head?_dropWhile_not (fun token : Token => !token.isVisible) tokens
    rw [hFirst] at this
    simpa using this

end SourceView.Token
