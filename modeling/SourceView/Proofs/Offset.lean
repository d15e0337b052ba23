import SourceView.Proofs.Passing
import SourceView.View.Offset

/-! Where the translation of offsets looks. Every offset of the shown text is inside an excerpt or at
a boundary, and the binary search finds which of the two it is. -/
namespace SourceView

namespace Search

/-- The search finds where entries below a bound are followed by the others. -/
theorem lowerBound_append {before after : List Nat} {bound : Nat}
    (hSorted : (before ++ after).Pairwise (· ≤ ·)) (hBefore : ∀ x ∈ before, x < bound)
    (hAfter : ∀ x ∈ after, bound ≤ x) :
    lowerBound (before ++ after).toArray bound = before.length := by
  obtain ⟨hSize, hTest⟩ := @lowerBound_spec (before ++ after).toArray bound
    fun i j hi hj hij => by
      rcases Nat.eq_or_lt_of_le hij with rfl | hij
      · exact Nat.le_refl _
      · exact List.pairwise_iff_getElem.1 hSorted i j hi hj hij
  simp only [List.size_toArray, List.length_append, List.getElem_toArray] at hSize hTest
  rcases Nat.lt_trichotomy (lowerBound (before ++ after).toArray bound) before.length with
    hLt | hEq | hGt
  · have hBound : lowerBound (before ++ after).toArray bound < (before ++ after).length := by
      rw [List.length_append]
      omega
    have hSmall : (before ++ after)[lowerBound (before ++ after).toArray bound] < bound := by
      rw [List.getElem_append_left hLt]
      exact hBefore _ (List.getElem_mem hLt)
    exact absurd ((hTest _ (by omega)).1 hSmall) (Nat.lt_irrefl _)
  · exact hEq
  · have hLength : before.length < before.length + after.length := by omega
    have hSmall := (hTest before.length hLength).2 hGt
    rw [List.getElem_append_right (Nat.le_refl _)] at hSmall
    exact absurd hSmall (Nat.not_lt.2 (hAfter _ (List.getElem_mem _)))

end Search

namespace View
open Token

/-- The search finds the tokens that begin in front of an offset. -/
theorem lowerBound_starts {left right : List Token} {offset : Nat}
    (hLeft : ∀ piece ∈ placed 0 left, piece.1 < offset) (hWidth : offset ≤ totalWidth left) :
    Search.lowerBound (starts (left ++ right)).toArray offset = left.length := by
  have hParts : starts (left ++ right) =
      (placed 0 left).map (·.1) ++ (placed (totalWidth left) right).map (·.1) := by
    rw [starts, placed_append, List.map_append, Nat.zero_add]
  have hLength : ((placed 0 left).map (·.1)).length = left.length := by
    rw [List.length_map, ← List.length_map (·.2), map_snd_placed]
  rw [← hLength, hParts]
  refine Search.lowerBound_append ?_ ?_ ?_
  · rw [← hParts]
    refine List.pairwise_map.2 ((pairwise_placed 0 (left ++ right)).imp ?_)
    exact fun h => Nat.le_trans (Nat.le_add_right _ _) h
  · intro start hStart
    obtain ⟨piece, hPiece, rfl⟩ := List.mem_map.1 hStart
    exact hLeft piece hPiece
  · intro start hStart
    obtain ⟨piece, hPiece, rfl⟩ := List.mem_map.1 hStart
    exact Nat.le_trans hWidth (start_of_mem_placed hPiece).1

/-- The binary search comes out behind the last token that begins in front of the offset. -/
theorem sourceOffset_eq {view : View} {left right : List Token} {offset : Nat} (side : Side)
    (hTokens : view.tokens = left ++ right) (hLeft : ∀ piece ∈ placed 0 left, piece.1 < offset)
    (hWidth : offset ≤ totalWidth left) :
    view.sourceOffset offset side =
      match (do insideExcerpt? offset (← (starts view.tokens)[left.length - 1]?) (← left.getLast?) :
        Option Nat) with
      | some found => .ok found
      | none => boundaryOffset left right side := by
  have hLength : offset ≤ view.length := by
    show offset ≤ (shownText view.tokens).length
    rw [length_shownText, hTokens, totalWidth_append]
    omega
  have hCheck : checkOffset offset view.length = .ok (offset : Int) :=
    checkOffset_eq_ok_iff.2 ⟨by omega, by omega, rfl⟩
  have hIndex : Search.lowerBound (starts view.tokens).toArray offset = left.length := by
    rw [hTokens]
    exact lowerBound_starts hLeft hWidth
  have hTake : view.tokens.take left.length = left := by simp [hTokens]
  have hDrop : view.tokens.drop left.length = right := by simp [hTokens]
  unfold sourceOffset
  rw [hCheck]
  simp only [bind, Except.bind, Int.toNat_natCast, hIndex, hTake, hDrop, List.getElem?_toArray]
  rfl

theorem getElem?_starts {before after : List Token} (token : Token) :
    (starts (before ++ token :: after))[before.length]? = some (totalWidth before) := by
  have hLength : (placed 0 before).length = before.length := by
    rw [← List.length_map (·.2), map_snd_placed]
  rw [starts, placed_append, List.map_append, ← hLength, ← List.length_map (·.1),
    List.getElem?_append_right (Nat.le_refl _), Nat.sub_self]
  simp [placed]

/-- Inside an excerpt characters of the view are characters of the source. -/
theorem sourceOffset_inside {view : View} {left right : List Token} {e : Excerpt} {i : Nat}
    (side : Side) (hTokens : view.tokens = left ++ .excerpt e :: right) (hPositive : 0 < i)
    (hLength : i < e.text.length) :
    view.sourceOffset (totalWidth left + i : Nat) side = .ok (e.span.start + i) := by
  have hLeft : ∀ piece ∈ placed 0 (left ++ [.excerpt e]), piece.1 < totalWidth left + i := by
    intro piece hPiece
    rw [placed_append, List.mem_append] at hPiece
    rcases hPiece with hPiece | hPiece
    · have hWithin := start_of_mem_placed hPiece
      omega
    · obtain rfl := List.mem_singleton.1 hPiece
      show 0 + totalWidth left < totalWidth left + i
      omega
  have hWidth : totalWidth left + i ≤ totalWidth (left ++ [.excerpt e]) := by
    rw [totalWidth_append]
    simp only [totalWidth, width_excerpt]
    omega
  have hParts : view.tokens = (left ++ [.excerpt e]) ++ right := by simp [hTokens]
  have hStart : (starts view.tokens)[(left ++ [Token.excerpt e]).length - 1]? =
      some (totalWidth left) := by
    rw [hTokens, List.length_append, List.length_singleton, Nat.add_sub_cancel]
    exact getElem?_starts _
  have hInside : totalWidth left + i < totalWidth left + e.text.length := by omega
  rw [sourceOffset_eq side hParts hLeft hWidth, hStart, List.getLast?_concat]
  simp [insideExcerpt?, hInside]

/-- At a boundary the tokens on either side decide. -/
theorem sourceOffset_boundary {view : View} {left right : List Token} {offset : Nat} (side : Side)
    (hTokens : view.tokens = left ++ right) (hWidth : totalWidth left = offset)
    (hLeft : ∀ piece ∈ placed 0 left, piece.1 < offset) :
    view.sourceOffset offset side = boundaryOffset left right side := by
  rw [sourceOffset_eq side hTokens hLeft (Nat.le_of_eq hWidth.symm)]
  rcases List.eq_nil_or_concat left with rfl | ⟨before, token, rfl⟩
  · cases (starts view.tokens)[([] : List Token).length - 1]? <;> rfl
  · rw [List.concat_eq_append] at hTokens hWidth ⊢
    have hStart : (starts view.tokens)[(before ++ [token]).length - 1]? =
        some (totalWidth before) := by
      rw [hTokens, List.length_append, List.length_singleton, Nat.add_sub_cancel, List.append_assoc]
      exact getElem?_starts _
    rw [totalWidth_append] at hWidth
    simp only [totalWidth] at hWidth
    rw [hStart, List.getLast?_concat]
    cases token with
    | gap g => rfl
    | separator s => rfl
    | excerpt e =>
        rw [width_excerpt] at hWidth
        have hOutside : ¬ offset < totalWidth before + e.text.length := by omega
        simp [insideExcerpt?, hOutside]

/-- How an offset between two tokens parts a view: `left` ends with something shown, the tokens of
`hidden` take no room, and `right` begins with something shown. -/
structure Boundary (view : View) (offset : Nat) (left hidden right : List Token) : Prop where
  tokens_eq : view.tokens = left ++ (hidden ++ right)
  width_eq : totalWidth left = offset
  passed : ∀ piece ∈ placed 0 left, piece.1 < offset
  shut : ∀ token, left.getLast? = some token → token.isVisible = true
  invisible : ∀ token ∈ hidden, token.isVisible = false
  visible : ∀ token, right.head? = some token → token.isVisible = true

/-- The last of the tokens that begin in front of an offset reaches up to it, so it shows something. -/
theorem isVisible_of_getLast? {left : List Token} {offset : Nat} (hWidth : totalWidth left = offset)
    (hPassed : ∀ piece ∈ placed 0 left, piece.1 < offset) (token : Token)
    (hLast : left.getLast? = some token) : token.isVisible = true := by
  obtain ⟨front, rfl⟩ := List.getLast?_eq_some_iff.1 hLast
  have hPiece := hPassed (0 + totalWidth front, token) (mem_placed_iff.2 ⟨front, [], rfl, rfl⟩)
  rw [totalWidth_append] at hWidth
  simp only [totalWidth] at hWidth
  apply isVisible_iff.2
  omega

/-- Where a view is parted behind all that begins in front of an offset, there is a boundary. -/
theorem exists_boundary_of_append {view : View} {left right : List Token} {offset : Nat}
    (hTokens : view.tokens = left ++ right) (hWidth : totalWidth left = offset)
    (hPassed : ∀ piece ∈ placed 0 left, piece.1 < offset) :
    ∃ hidden shown, right = hidden ++ shown ∧ Boundary view offset left hidden shown := by
  obtain ⟨hidden, shown, rfl, hInvisible, hVisible⟩ := exists_leading_blanks right
  exact ⟨hidden, shown, rfl, hTokens, hWidth, hPassed, isVisible_of_getLast? hWidth hPassed,
    hInvisible, hVisible⟩

/-- Every offset is strictly inside an excerpt or at a boundary. -/
theorem exists_inside_or_boundary {view : View} {offset : Nat} (hOffset : offset ≤ view.length) :
    (∃ left e right i, view.tokens = left ++ .excerpt e :: right ∧ 0 < i ∧ i < e.text.length ∧
      offset = totalWidth left + i) ∨
    ∃ left hidden right, Boundary view offset left hidden right := by
  rw [show view.length = totalWidth view.tokens from length_shownText _] at hOffset
  rcases exists_boundary (Nat.zero_le offset) (by rwa [Nat.zero_add]) with
    ⟨left, e, right, i, hTokens, hPositive, hLength, hInside⟩ | ⟨left, rest, hTokens, hEnd, hLeft⟩
  · exact .inl ⟨left, e, right, i, hTokens, hPositive, hLength, by rwa [Nat.zero_add] at hInside⟩
  · rw [Nat.zero_add] at hEnd
    obtain ⟨hidden, right, rfl, hParts⟩ := exists_boundary_of_append hTokens hEnd hLeft
    exact .inr ⟨left, hidden, right, hParts⟩

/-- In front of something shown there is a boundary. -/
theorem exists_boundary_front {view : View} {left right : List Token} {token : Token}
    (hTokens : view.tokens = left ++ token :: right) (hVisible : token.isVisible = true) :
    ∃ shown hidden, left = shown ++ hidden ∧
      Boundary view (totalWidth left) shown hidden (token :: right) := by
  rcases @exists_boundary 0 (totalWidth left) left (Nat.zero_le _) (by omega) with
    ⟨front, e, rest, i, hLeft, hPositive, hLength, hInside⟩ | ⟨shown, hidden, hLeft, hEnd, hPassed⟩
  · rw [hLeft, totalWidth_append] at hInside
    simp only [totalWidth, width_excerpt] at hInside
    omega
  · rw [Nat.zero_add] at hEnd
    have hNone : totalWidth hidden = 0 := by
      rw [hLeft, totalWidth_append] at hEnd
      omega
    have hWhole : view.tokens = shown ++ (hidden ++ token :: right) := by
      rw [hTokens, hLeft, List.append_assoc]
    refine ⟨shown, hidden, hLeft, hWhole, hEnd, hPassed, isVisible_of_getLast? hEnd hPassed,
      totalWidth_eq_zero_iff.1 hNone, ?_⟩
    rintro first ⟨⟩
    exact hVisible

/-- Behind something shown there is a boundary. -/
theorem exists_boundary_back {view : View} {left right : List Token} {token : Token}
    (hTokens : view.tokens = left ++ token :: right) (hVisible : token.isVisible = true) :
    ∃ hidden shown, right = hidden ++ shown ∧
      Boundary view (totalWidth left + token.width) (left ++ [token]) hidden shown := by
  have hWhole : view.tokens = (left ++ [token]) ++ right := by simp [hTokens]
  refine exists_boundary_of_append hWhole (by simp [totalWidth_append, totalWidth]) ?_
  intro piece hPiece
  have hPositive := isVisible_iff.1 hVisible
  rw [placed_append, List.mem_append] at hPiece
  rcases hPiece with hPiece | hPiece
  · have hWithin := start_of_mem_placed hPiece
    omega
  · obtain rfl := List.mem_singleton.1 hPiece
    show 0 + totalWidth left < totalWidth left + token.width
    omega

/-- What shows nothing and is from the source is a gap. -/
theorem spans_of_invisible {tokens : List Token}
    (h : ∀ token ∈ tokens, token.isVisible = false ∧ token.isEmptyExcerpt = false) :
    spans tokens = (tokens.filterMap gap?).map (·.anchor) := by
  induction tokens with
  | nil => rfl
  | cons token rest ih =>
      simp only [List.mem_cons, forall_eq_or_imp] at h
      have hRest := ih h.2
      cases token with
      | gap g => exact congrArg (g.anchor :: ·) hRest
      | separator s => exact hRest
      | excerpt e => simp_all [isVisible, Token.shown, isEmptyExcerpt]

namespace Boundary
variable {view : View} {offset : Nat} {left hidden right : List Token}

/-- At a boundary the tokens that touch it decide, and the nearest source material when none does. -/
theorem sourceOffset_eq (h : Boundary view offset left hidden right) :
    view.sourceOffset offset .before =
        ((offsetBefore? left.getLast? (hidden.filterMap gap?)).or
          (offsetBehind? right.head? (hidden.filterMap gap?))).elim
            (nearestSourceOffset (left ++ hidden) right) .ok ∧
      view.sourceOffset offset .behind =
        ((offsetBehind? right.head? (hidden.filterMap gap?)).or
          (offsetBefore? left.getLast? (hidden.filterMap gap?))).elim
            (nearestSourceOffset (left ++ hidden) right) .ok := by
  have hPass : ∀ token ∈ hidden, (!token.isVisible) = true := by simpa using h.invisible
  have hFail : ∀ token ∈ right.head?, (!token.isVisible) = false := by simpa using h.visible
  obtain ⟨hTake, hDrop⟩ := Exclusion.takeWhile_of_boundary hPass hFail
  rw [sourceOffset_boundary .before h.tokens_eq h.width_eq h.passed,
    sourceOffset_boundary .behind h.tokens_eq h.width_eq h.passed]
  simp only [boundaryOffset, hTake, hDrop]
  constructor
  · cases (offsetBefore? left.getLast? (hidden.filterMap gap?)).or
      (offsetBehind? right.head? (hidden.filterMap gap?)) <;> rfl
  · cases (offsetBehind? right.head? (hidden.filterMap gap?)).or
      (offsetBefore? left.getLast? (hidden.filterMap gap?)) <;> rfl

/-- Source material at a boundary is in gaps. -/
theorem spans_hidden (h : Boundary view offset left hidden right) :
    spans hidden = (hidden.filterMap gap?).map (·.anchor) := by
  apply spans_of_invisible
  intro token hToken
  exact ⟨h.invisible token hToken, view.canonical.shows token (by simp [h.tokens_eq, hToken])⟩

/-- Where no excerpt follows a boundary, the offset behind it is the end of the last span there. -/
theorem offsetBehind?_eq (h : Boundary view offset left hidden right)
    (hRight : ∀ e rest, right ≠ .excerpt e :: rest) :
    offsetBehind? right.head? (hidden.filterMap gap?) = (spans hidden).getLast?.map (·.stop) := by
  rw [h.spans_hidden, List.getLast?_map, Option.map_map]
  cases right with
  | nil => rfl
  | cons token rest =>
      cases token with
      | excerpt e => exact absurd rfl (hRight e rest)
      | gap g => rfl
      | separator s => rfl

/-- Where no excerpt leads to a boundary, the offset in front of it is the start of the first span
there. -/
theorem offsetBefore?_eq (h : Boundary view offset left hidden right)
    (hLeft : ∀ front e, left ≠ front ++ [.excerpt e]) :
    offsetBefore? left.getLast? (hidden.filterMap gap?) = (spans hidden).head?.map (·.start) := by
  rw [h.spans_hidden, List.head?_map, Option.map_map]
  cases hLast : left.getLast? with
  | none => rfl
  | some token =>
      obtain ⟨front, rfl⟩ := List.getLast?_eq_some_iff.1 hLast
      cases token with
      | excerpt e => exact absurd rfl (hLeft front e)
      | gap g => rfl
      | separator s => rfl

/-- The nearest source offset is the end of the last span on the left, or else the start of the
first one on the right. -/
theorem nearestSourceOffset_eq (left right : List Token) :
    nearestSourceOffset left right =
      (((spans left).getLast?.map (·.stop)).or ((spans right).head?.map (·.start))).elim
        (.error .noSourcePosition) .ok := by
  rw [nearestSourceOffset, spans, spans, List.getLast?_filterMap, List.head?_filterMap]
  cases left.reverse.findSome? span? with
  | some span => rfl
  | none => cases right.findSome? span? <;> rfl

/-- The source offset behind a boundary: where the excerpt there begins, or else where the last
source material up to there ends, or else where the first one from there on begins. -/
theorem exists_behind (h : Boundary view offset left hidden right) (hSpans : spans view.tokens ≠ []) :
    ∃ position, view.sourceOffset offset .behind = .ok position ∧
      ((∃ e rest, right = .excerpt e :: rest ∧ position = e.span.start) ∨
        (∃ span, (spans (left ++ hidden)).getLast? = some span ∧ position = span.stop) ∨
        spans (left ++ hidden) = [] ∧
          ∃ span, (spans right).head? = some span ∧ position = span.start) := by
  have hParts : spans (left ++ hidden) = spans left ++ spans hidden := List.filterMap_append ..
  rw [h.sourceOffset_eq.2]
  by_cases hRight : ∃ e rest, right = .excerpt e :: rest
  · obtain ⟨e, rest, rfl⟩ := hRight
    exact ⟨e.span.start, rfl, .inl ⟨e, rest, rfl, rfl⟩⟩
  · rw [h.offsetBehind?_eq fun e rest hEq => hRight ⟨e, rest, hEq⟩]
    cases hHidden : (spans hidden).getLast? with
    | some span =>
        refine ⟨span.stop, rfl, .inr (.inl ⟨span, ?_, rfl⟩)⟩
        rw [hParts, List.getLast?_append, hHidden, Option.some_or]
    | none =>
        rw [List.getLast?_eq_none_iff] at hHidden
        rw [hHidden, List.append_nil] at hParts
        by_cases hLeft : ∃ front e, left = front ++ [.excerpt e]
        · obtain ⟨front, e, rfl⟩ := hLeft
          refine ⟨e.span.stop, ?_, .inr (.inl ⟨e.span, ?_, rfl⟩)⟩
          · simp [offsetBefore?]
          · rw [hParts, spans, List.filterMap_append]
            simp [span?]
        · rw [h.offsetBefore?_eq fun front e hEq => hLeft ⟨front, e, hEq⟩, hHidden,
            nearestSourceOffset_eq, hParts]
          cases hLast : (spans left).getLast? with
          | some span => exact ⟨span.stop, rfl, .inr (.inl ⟨span, rfl, rfl⟩)⟩
          | none =>
              rw [List.getLast?_eq_none_iff] at hLast
              cases hFirst : (spans right).head? with
              | some span => exact ⟨span.start, rfl, .inr (.inr ⟨hLast, span, rfl, rfl⟩)⟩
              | none =>
                  rw [List.head?_eq_none_iff] at hFirst
                  refine absurd ?_ hSpans
                  rw [h.tokens_eq, ← List.append_assoc, spans, List.filterMap_append]
                  exact List.append_eq_nil_iff.2 ⟨hParts.trans hLast, hFirst⟩

/-- The source offset in front of a boundary: where the excerpt there ends, or else where the first
hidden source material begins; where nothing is hidden the two source offsets are the same. -/
theorem exists_before (h : Boundary view offset left hidden right) (hSpans : spans view.tokens ≠ []) :
    ∃ position, view.sourceOffset offset .before = .ok position ∧
      ((∃ front e, left = front ++ [.excerpt e] ∧ position = e.span.stop) ∨
        (∃ span, (spans hidden).head? = some span ∧ position = span.start) ∨
        spans hidden = [] ∧ view.sourceOffset offset .behind = .ok position) := by
  obtain ⟨position, hBehind, -⟩ := h.exists_behind hSpans
  by_cases hLeft : ∃ front e, left = front ++ [.excerpt e]
  · obtain ⟨front, e, rfl⟩ := hLeft
    refine ⟨e.span.stop, ?_, .inl ⟨front, e, rfl, rfl⟩⟩
    rw [h.sourceOffset_eq.1]
    simp [offsetBefore?]
  · have hBefore := h.offsetBefore?_eq fun front e hEq => hLeft ⟨front, e, hEq⟩
    cases hHidden : (spans hidden).head? with
    | some span =>
        refine ⟨span.start, ?_, .inr (.inl ⟨span, rfl, rfl⟩)⟩
        rw [h.sourceOffset_eq.1, hBefore, hHidden]
        rfl
    | none =>
        refine ⟨position, ?_, .inr (.inr ⟨List.head?_eq_none_iff.1 hHidden, hBehind⟩)⟩
        rw [← hBehind, h.sourceOffset_eq.1, h.sourceOffset_eq.2, hBefore, hHidden]
        cases offsetBehind? right.head? (hidden.filterMap gap?) <;> rfl

end Boundary

/-- Every source offset of a view lies in or at an end of some of its source material. -/
theorem exists_sourceOffset {view : View} {offset : Nat} (hSpans : spans view.tokens ≠ [])
    (hOffset : offset ≤ view.length) (side : Side) :
    ∃ position, view.sourceOffset offset side = .ok position ∧
      ∃ span ∈ spans view.tokens, span.start ≤ position ∧ position ≤ span.stop := by
  rcases exists_inside_or_boundary hOffset with
    ⟨left, e, right, i, hTokens, hPositive, hLength, rfl⟩ | ⟨left, hidden, right, hParts⟩
  · have hStop := e.stop_eq
    have hMem : Token.excerpt e ∈ view.tokens := by simp [hTokens]
    exact ⟨_, sourceOffset_inside side hTokens hPositive hLength, e.span,
      List.mem_filterMap.2 ⟨_, hMem, rfl⟩, by omega, by omega⟩
  · have hWhole : spans view.tokens = spans left ++ (spans hidden ++ spans right) := by
      rw [hParts.tokens_eq, spans, List.filterMap_append, List.filterMap_append]
      rfl
    obtain ⟨behind, hBehind, hFrom⟩ := hParts.exists_behind hSpans
    have hWithin : ∃ span ∈ spans view.tokens, span.start ≤ behind ∧ behind ≤ span.stop := by
      rcases hFrom with ⟨e, rest, rfl, rfl⟩ | ⟨span, hLast, rfl⟩ | ⟨-, span, hFirst, rfl⟩
      · have hMem : Token.excerpt e ∈ view.tokens := by simp [hParts.tokens_eq]
        exact ⟨e.span, List.mem_filterMap.2 ⟨_, hMem, rfl⟩, Nat.le_refl _, e.span.ordered⟩
      · have hMem := List.mem_of_getLast? hLast
        rw [spans, List.filterMap_append] at hMem
        refine ⟨span, ?_, span.ordered, Nat.le_refl _⟩
        rw [hWhole, ← List.append_assoc]
        exact List.mem_append_left _ hMem
      · have hMem := List.mem_of_head? hFirst
        exact ⟨span, by simp [hWhole, hMem], Nat.le_refl _, span.ordered⟩
    cases side with
    | behind => exact ⟨behind, hBehind, hWithin⟩
    | before =>
        obtain ⟨before, hBefore, hFrom⟩ := hParts.exists_before hSpans
        refine ⟨before, hBefore, ?_⟩
        rcases hFrom with ⟨front, e, rfl, rfl⟩ | ⟨span, hFirst, rfl⟩ | ⟨-, hSame⟩
        · have hMem : Token.excerpt e ∈ view.tokens := by simp [hParts.tokens_eq]
          exact ⟨e.span, List.mem_filterMap.2 ⟨_, hMem, rfl⟩, e.span.ordered, Nat.le_refl _⟩
        · have hMem := List.mem_of_head? hFirst
          exact ⟨span, by simp [hWhole, hMem], Nat.le_refl _, span.ordered⟩
        · obtain rfl : behind = before := Except.ok.inj (hBehind.symm.trans hSame)
          exact hWithin

/-- Whether the character at an offset of the view is the one at an offset of the source. -/
def ShowsAt (view : View) (offset position : Nat) : Prop :=
  ∃ left e right i, view.tokens = left ++ .excerpt e :: right ∧ i < e.text.length ∧
    offset = totalWidth left + i ∧ position = e.span.start + i

/-- A shown character stands behind the hidden material in front of it. -/
theorem ShowsAt.sourceOffset_behind {view : View} {offset position : Nat}
    (h : ShowsAt view offset position) : view.sourceOffset offset .behind = .ok position := by
  obtain ⟨left, e, right, i, hTokens, hi, rfl, rfl⟩ := h
  rcases Nat.eq_zero_or_pos i with rfl | hPositive
  · obtain ⟨shown, hidden, -, hParts⟩ := exists_boundary_front hTokens (isVisible_iff.2 hi)
    exact hParts.sourceOffset_eq.2
  · exact sourceOffset_inside .behind hTokens hPositive hi

/-- A boundary behind a shown character stands in front of the hidden material there. -/
theorem ShowsAt.sourceOffset_before {view : View} {offset position : Nat}
    (h : ShowsAt view offset position) :
    view.sourceOffset (offset + 1 : Nat) .before = .ok (position + 1) := by
  obtain ⟨left, e, right, i, hTokens, hi, rfl, rfl⟩ := h
  rcases Nat.lt_or_ge (i + 1) e.text.length with hInside | hEnd
  · exact sourceOffset_inside .before hTokens (Nat.zero_lt_succ i) hInside
  · have hVisible : (Token.excerpt e).isVisible = true :=
      isVisible_iff.2 (Nat.lt_of_le_of_lt (Nat.zero_le i) hi)
    obtain ⟨hidden, shown, -, hParts⟩ := exists_boundary_back hTokens hVisible
    have hWidth : totalWidth left + (Token.excerpt e).width = totalWidth left + i + 1 := by
      rw [width_excerpt]
      omega
    have hStop := e.stop_eq
    rw [← hWidth, hParts.sourceOffset_eq.1, List.getLast?_concat]
    exact congrArg Except.ok (by omega)

/-- At every offset in front of the end of a view it shows a character of the source or an active
separator. -/
theorem exists_showsAt_or_separator {view : View} {offset : Nat} (hOffset : offset < view.length) :
    (∃ position, ShowsAt view offset position) ∨
      ∃ left s right, view.tokens = left ++ .separator s :: right ∧ s.active = true ∧
        offset = totalWidth left := by
  rw [show view.length = totalWidth view.tokens from length_shownText _] at hOffset
  rcases exists_shown_at hOffset with ⟨left, e, right, i, hTokens, hi, hEq⟩ | hSeparator
  · exact .inl ⟨e.span.start + i, left, e, right, i, hTokens, hi, hEq, rfl⟩
  · exact .inr hSeparator

theorem checkedRange_of_le {view : View} {wanted : Loose} {range : Range}
    (hWanted : wanted.toRange = .ok range) (hStop : range.stop ≤ view.length) :
    view.checkedRange wanted = .ok range := by
  have hCheck : checkOffset range.stop view.length "range end" = .ok (range.stop : Int) :=
    checkOffset_eq_ok_iff.2 ⟨by omega, by omega, rfl⟩
  simp [checkedRange, hWanted, hCheck, bind, Except.bind, pure, Except.pure]

theorem checkedRange_of_lt {view : View} {wanted : Loose} {range : Range}
    (hWanted : wanted.toRange = .ok range) (hStop : view.length < range.stop) :
    view.checkedRange wanted = .error (.offsetOutside "range end" range.stop view.length) := by
  have hCheck : checkOffset range.stop view.length "range end" =
      .error (.offsetOutside "range end" range.stop view.length) := if_pos (.inr (by omega))
  simp [checkedRange, hWanted, hCheck, bind, Except.bind]

end View
end SourceView
