import SourceView.Proofs.Offset
import SourceView.Proofs.Outcome

/-! The translation of offsets without a search. Which tokens meet at an offset of the shown text can be
told by looking at all of them, and the source offset that the binary search leads to is the one that
these tokens give. -/
namespace SourceView

namespace Token

/-- Two tokens of a sequence that share an offset of the shown text are the same one. -/
theorem eq_of_overlap {offset : Nat} {tokens : List Token} {a b : Nat × Token}
    (ha : a ∈ placed offset tokens) (hb : b ∈ placed offset tokens) (hFirst : a.1 < b.1 + b.2.width)
    (hSecond : b.1 < a.1 + a.2.width) : a = b := by
  obtain ⟨front, back, hPlaced⟩ := List.append_of_mem ha
  have hOrder := pairwise_placed offset tokens
  rw [hPlaced] at hOrder hb
  obtain ⟨-, hBack, hFront⟩ := List.pairwise_append.1 hOrder
  rcases List.mem_append.1 hb with hb | hb
  · have hBefore := hFront b hb a List.mem_cons_self
    omega
  · rcases List.mem_cons.1 hb with rfl | hb
    · rfl
    · have hBehind := (List.pairwise_cons.1 hBack).1 b hb
      omega

end Token

namespace View
open Token

def strictlyInside? (offset : Nat) (piece : Nat × Token) : Option Nat :=
  match piece.2 with
  | .excerpt e =>
    if piece.1 < offset ∧ offset < piece.1 + e.text.length then
      some (e.span.start + (offset - piece.1))
    else none
  | _ => none

def endingAt? (view : View) (offset : Nat) : Option Token :=
  ((placed 0 view.tokens).find? fun piece =>
    piece.2.isVisible && piece.1 + piece.2.width == offset).map (·.2)

def beginningAt? (view : View) (offset : Nat) : Option Token :=
  ((placed 0 view.tokens).find? fun piece => piece.2.isVisible && piece.1 == offset).map (·.2)

def gapsAt (view : View) (offset : Nat) : List Gap :=
  (((placed 0 view.tokens).filter (·.1 == offset)).map (·.2)).filterMap gap?

def tokensBefore (view : View) (offset : Nat) : List Token :=
  ((placed 0 view.tokens).filter (·.1 < offset)).map (·.2)

def tokensFrom (view : View) (offset : Nat) : List Token :=
  ((placed 0 view.tokens).filter (offset ≤ ·.1)).map (·.2)

/-- The source offset on the left of a boundary: the end of the excerpt there, or else the start of
the first gap. -/
def leftOffset? (view : View) (offset : Nat) : Option Nat :=
  match view.endingAt? offset with
  | some (.excerpt e) => some e.span.stop
  | _ => (view.gapsAt offset).head?.map (·.anchor.start)

/-- The source offset on the right of a boundary: the start of the excerpt there, or else the end of
the last gap. -/
def rightOffset? (view : View) (offset : Nat) : Option Nat :=
  match view.beginningAt? offset with
  | some (.excerpt e) => some e.span.start
  | _ => (view.gapsAt offset).getLast?.map (·.anchor.stop)

/-- The end of the nearest source material in front of an offset, or else the start of the nearest
behind it. -/
def nearestOffset? (view : View) (offset : Nat) : Option Nat :=
  ((spans (view.tokensBefore offset)).getLast?.map (·.stop)).or
    ((spans (view.tokensFrom offset)).head?.map (·.start))

/-- The source offset of a shown offset as the tokens there give it. Strictly inside an excerpt it is
counted from where the excerpt begins. At a boundary it is the one on the side that is asked for, or
else that on the other side, or else the nearest. -/
def scannedOffset? (view : View) (offset : Nat) (side : Side) : Option Nat :=
  let touching? :=
    match side with
    | .before => (view.leftOffset? offset).or (view.rightOffset? offset)
    | .behind => (view.rightOffset? offset).or (view.leftOffset? offset)
  ((placed 0 view.tokens).findSome? (strictlyInside? offset)).or
    (touching?.or (view.nearestOffset? offset))

variable {view : View} {offset : Nat}

/-- Where no two tokens pass a test, the search finds the one that does. -/
theorem find?_placed_eq_some_iff {tokens : List Token} {test : Nat × Token → Bool} {token : Token}
    (hUnique : ∀ a ∈ placed 0 tokens, ∀ b ∈ placed 0 tokens, test a = true → test b = true → a = b) :
    ((placed 0 tokens).find? test).map (·.2) = some token ↔
      ∃ start, (start, token) ∈ placed 0 tokens ∧ test (start, token) = true := by
  rw [Option.map_eq_some_iff]
  constructor
  · rintro ⟨⟨start, token⟩, hFound, rfl⟩
    exact ⟨start, List.mem_of_find?_eq_some hFound, List.find?_some hFound⟩
  · rintro ⟨start, hPlaced, hTest⟩
    cases hFound : (placed 0 tokens).find? test with
    | none => exact absurd hTest (List.find?_eq_none.1 hFound _ hPlaced)
    | some other =>
        have hSame := hUnique other (List.mem_of_find?_eq_some hFound) _ hPlaced
          (List.find?_some hFound) hTest
        exact ⟨other, rfl, by rw [hSame]⟩

/-- At most one shown token ends at an offset. -/
theorem endingAt?_eq_some_iff {token : Token} :
    view.endingAt? offset = some token ↔ token.isVisible = true ∧
      ∃ start, (start, token) ∈ placed 0 view.tokens ∧ start + token.width = offset := by
  rw [endingAt?, find?_placed_eq_some_iff]
  · simp only [Bool.and_eq_true, beq_iff_eq, and_left_comm, exists_and_left]
  · intro a ha b hb hFirst hSecond
    simp only [Bool.and_eq_true, isVisible_iff, beq_iff_eq] at hFirst hSecond
    exact eq_of_overlap ha hb (by omega) (by omega)

/-- At most one shown token begins at an offset. -/
theorem beginningAt?_eq_some_iff {token : Token} :
    view.beginningAt? offset = some token ↔ token.isVisible = true ∧
      (offset, token) ∈ placed 0 view.tokens := by
  rw [beginningAt?, find?_placed_eq_some_iff]
  · simp [and_left_comm]
  · intro a ha b hb hFirst hSecond
    simp only [Bool.and_eq_true, isVisible_iff, beq_iff_eq] at hFirst hSecond
    exact eq_of_overlap ha hb (by omega) (by omega)

/-- The excerpt that an offset is strictly inside of is found. -/
theorem findSome?_strictlyInside {left right : List Token} {e : Excerpt} {i : Nat}
    (hTokens : view.tokens = left ++ .excerpt e :: right) (hPositive : 0 < i)
    (hLength : i < e.text.length) :
    (placed 0 view.tokens).findSome? (strictlyInside? (totalWidth left + i)) =
      some (e.span.start + i) := by
  have hPlaced : (totalWidth left, Token.excerpt e) ∈ placed 0 view.tokens :=
    mem_placed_iff.2 ⟨left, right, hTokens, (Nat.zero_add _).symm⟩
  have hHere : strictlyInside? (totalWidth left + i) (totalWidth left, .excerpt e) =
      some (e.span.start + i) := by
    simp [strictlyInside?, hPositive, hLength]
  cases hFound : (placed 0 view.tokens).findSome? (strictlyInside? (totalWidth left + i)) with
  | none =>
      rw [List.findSome?_eq_none_iff.1 hFound _ hPlaced] at hHere
      cases hHere
  | some position =>
      obtain ⟨⟨start, token⟩, hOther, hInside⟩ := List.exists_of_findSome?_eq_some hFound
      rw [← hInside, ← hHere]
      cases token with
      | gap g => cases hInside
      | separator s => cases hInside
      | excerpt u =>
          simp only [strictlyInside?, Option.ite_none_right_eq_some] at hInside
          obtain ⟨⟨hStart, hStop⟩, -⟩ := hInside
          rw [eq_of_overlap hOther hPlaced (by dsimp only [width_excerpt]; omega)
            (by dsimp only [width_excerpt]; omega)]

namespace Boundary
variable {left hidden right : List Token}

theorem placed_eq (h : Boundary view offset left hidden right) :
    placed 0 view.tokens = placed 0 left ++ (placed offset hidden ++ placed offset right) := by
  rw [h.tokens_eq, placed_append, placed_append, Nat.zero_add, h.width_eq,
    totalWidth_eq_zero_iff.2 h.invisible, Nat.add_zero]

/-- No excerpt reaches across a boundary. -/
theorem findSome?_strictlyInside (h : Boundary view offset left hidden right) :
    (placed 0 view.tokens).findSome? (strictlyInside? offset) = none := by
  apply List.findSome?_eq_none_iff.2
  rintro ⟨start, token⟩ hPlaced
  cases token with
  | gap g => rfl
  | separator s => rfl
  | excerpt e =>
      have hOutside : ¬ (start < offset ∧ offset < start + e.text.length) := by
        have hWidth := h.width_eq
        rw [h.placed_eq, List.mem_append, List.mem_append] at hPlaced
        rcases hPlaced with hLeft | hHidden | hRight
        · have hWithin := (start_of_mem_placed hLeft).2
          rw [width_excerpt] at hWithin
          omega
        · have hBehind := (start_of_mem_placed hHidden).1
          omega
        · have hBehind := (start_of_mem_placed hRight).1
          omega
      simp [strictlyInside?, hOutside]

/-- The shown token that ends at a boundary is the last one on its left. -/
theorem endingAt?_eq (h : Boundary view offset left hidden right) :
    view.endingAt? offset = left.getLast? := by
  have hWidth := h.width_eq
  cases hLast : left.getLast? with
  | none =>
      rw [List.getLast?_eq_none_iff.1 hLast] at hWidth
      apply Option.eq_none_iff_forall_ne_some.2
      intro token hFound
      obtain ⟨hVisible, start, -, hEnd⟩ := endingAt?_eq_some_iff.1 hFound
      rw [isVisible_iff] at hVisible
      rw [totalWidth] at hWidth
      omega
  | some token =>
      have hVisible := h.shut token hLast
      obtain ⟨front, rfl⟩ := List.getLast?_eq_some_iff.1 hLast
      rw [totalWidth_append] at hWidth
      refine endingAt?_eq_some_iff.2 ⟨hVisible, totalWidth front, ?_, hWidth⟩
      exact mem_placed_iff.2 ⟨front, hidden ++ right, by simp [h.tokens_eq], (Nat.zero_add _).symm⟩

theorem beginningAt?_eq (h : Boundary view offset left hidden right) :
    view.beginningAt? offset = right.head? := by
  cases right with
  | nil =>
      apply Option.eq_none_iff_forall_ne_some.2
      intro token hFound
      obtain ⟨hVisible, hPlaced⟩ := beginningAt?_eq_some_iff.1 hFound
      have hWithin := (start_of_mem_placed hPlaced).2
      rw [h.tokens_eq, List.append_nil, totalWidth_append, h.width_eq,
        totalWidth_eq_zero_iff.2 h.invisible] at hWithin
      rw [isVisible_iff] at hVisible
      dsimp only at hWithin
      omega
  | cons token rest =>
      refine beginningAt?_eq_some_iff.2 ⟨h.visible token rfl, ?_⟩
      rw [h.placed_eq, placed]
      simp

theorem start_hidden (h : Boundary view offset left hidden right) {piece : Nat × Token}
    (hPiece : piece ∈ placed offset hidden) : piece.1 = offset := by
  have hWithin := start_of_mem_placed hPiece
  rw [totalWidth_eq_zero_iff.2 h.invisible] at hWithin
  omega

/-- The tokens that begin in front of a boundary are those on its left. -/
theorem tokensBefore_eq (h : Boundary view offset left hidden right) :
    view.tokensBefore offset = left := by
  have hLeft : (placed 0 left).filter (fun piece => decide (piece.1 < offset)) = placed 0 left :=
    List.filter_eq_self.2 fun piece hPiece => by simpa using h.passed piece hPiece
  have hRest (tokens : List Token) :
      (placed offset tokens).filter (fun piece => decide (piece.1 < offset)) = [] :=
    List.filter_eq_nil_iff.2 fun piece hPiece => by simpa using (start_of_mem_placed hPiece).1
  rw [tokensBefore, h.placed_eq, List.filter_append, List.filter_append, hLeft, hRest, hRest,
    List.append_nil, List.append_nil, map_snd_placed]

theorem tokensFrom_eq (h : Boundary view offset left hidden right) :
    view.tokensFrom offset = hidden ++ right := by
  have hLeft : (placed 0 left).filter (fun piece => decide (offset ≤ piece.1)) = [] :=
    List.filter_eq_nil_iff.2 fun piece hPiece => by simpa using h.passed piece hPiece
  have hRest (tokens : List Token) :
      (placed offset tokens).filter (fun piece => decide (offset ≤ piece.1)) = placed offset tokens :=
    List.filter_eq_self.2 fun piece hPiece => by simpa using (start_of_mem_placed hPiece).1
  rw [tokensFrom, h.placed_eq, List.filter_append, List.filter_append, hLeft, hRest, hRest,
    List.nil_append, List.map_append, map_snd_placed, map_snd_placed]

/-- The gaps at the offset of a boundary are those among its tokens without room. -/
theorem gapsAt_eq (h : Boundary view offset left hidden right) :
    view.gapsAt offset = hidden.filterMap gap? := by
  have hLeft : (placed 0 left).filter (fun piece => piece.1 == offset) = [] :=
    List.filter_eq_nil_iff.2 fun piece hPiece => by
      have hPassed := h.passed piece hPiece
      simp only [beq_iff_eq]
      omega
  have hHidden : (placed offset hidden).filter (fun piece => piece.1 == offset) =
      placed offset hidden :=
    List.filter_eq_self.2 fun piece hPiece => by simpa using h.start_hidden hPiece
  have hRight : (((placed offset right).filter fun piece => piece.1 == offset).map (·.2)).filterMap
      gap? = [] := by
    cases right with
    | nil => rfl
    | cons token rest =>
        have hVisible := h.visible token rfl
        have hRest : (placed (offset + token.width) rest).filter (fun piece => piece.1 == offset) =
            [] :=
          List.filter_eq_nil_iff.2 fun piece hPiece => by
            have hBehind := (start_of_mem_placed hPiece).1
            rw [isVisible_iff] at hVisible
            simp only [beq_iff_eq]
            omega
        rw [placed, List.filter_cons_of_pos (by simp), hRest]
        cases token with
        | gap g => cases hVisible
        | separator s => rfl
        | excerpt e => rfl
  rw [gapsAt, h.placed_eq, List.filter_append, List.filter_append, hLeft, hHidden, List.nil_append,
    List.map_append, map_snd_placed, List.filterMap_append, hRight, List.append_nil]

/-- The scan gives the same offset on the left of a boundary as the tokens that the search stops at. -/
theorem leftOffset?_eq (h : Boundary view offset left hidden right) :
    view.leftOffset? offset = offsetBefore? left.getLast? (hidden.filterMap gap?) := by
  rw [leftOffset?, h.endingAt?_eq, h.gapsAt_eq]
  rfl

theorem rightOffset?_eq (h : Boundary view offset left hidden right) :
    view.rightOffset? offset = offsetBehind? right.head? (hidden.filterMap gap?) := by
  rw [rightOffset?, h.beginningAt?_eq, h.gapsAt_eq]
  rfl

/-- Where no source material touches a boundary none is hidden there, so that the nearest one is
searched for on either side of it. -/
theorem nearestOffset?_eq (h : Boundary view offset left hidden right)
    (hMissing : view.leftOffset? offset = none) :
    nearestSourceOffset (left ++ hidden) right =
      (view.nearestOffset? offset).elim (.error .noSourcePosition) .ok := by
  have hGaps : hidden.filterMap gap? = [] := by
    rw [h.leftOffset?_eq] at hMissing
    unfold offsetBefore? at hMissing
    split at hMissing
    · cases hMissing
    · exact List.head?_eq_none_iff.1 (Option.map_eq_none_iff.1 hMissing)
  have hHidden : hidden.filterMap span? = [] := by
    rw [← spans, h.spans_hidden, hGaps]
    rfl
  rw [nearestSourceOffset_eq, nearestOffset?, h.tokensBefore_eq, h.tokensFrom_eq]
  simp only [spans, List.filterMap_append, hHidden, List.append_nil, List.nil_append]

/-- At a boundary the tokens that the search leads to are those that a look at all of them gives. -/
theorem sourceOffset_eq_scannedOffset? (h : Boundary view offset left hidden right) (side : Side) :
    view.sourceOffset offset side =
      (view.scannedOffset? offset side).elim (.error .noSourcePosition) .ok := by
  obtain ⟨hBefore, hBehind⟩ := h.sourceOffset_eq
  rw [← h.leftOffset?_eq, ← h.rightOffset?_eq] at hBefore hBehind
  unfold scannedOffset?
  rw [h.findSome?_strictlyInside, Option.none_or]
  cases hLeft : view.leftOffset? offset with
  | some position =>
      cases side with
      | before => simp [hBefore, hLeft]
      | behind => cases hRight : view.rightOffset? offset <;> simp [hBehind, hLeft, hRight]
  | none =>
      have hNearest := h.nearestOffset?_eq hLeft
      cases hRight : view.rightOffset? offset <;> cases side <;>
        simp [hBefore, hBehind, hLeft, hRight, hNearest]

end Boundary

/-- Within the text the search comes to what a look at all tokens gives. -/
theorem sourceOffset_eq_scannedOffset? (hOffset : offset ≤ view.length) (side : Side) :
    view.sourceOffset offset side =
      (view.scannedOffset? offset side).elim (.error .noSourcePosition) .ok := by
  rcases exists_inside_or_boundary hOffset with
    ⟨left, e, right, i, hTokens, hPositive, hLength, rfl⟩ | ⟨left, hidden, right, hParts⟩
  · unfold scannedOffset?
    rw [sourceOffset_inside side hTokens hPositive hLength,
      findSome?_strictlyInside hTokens hPositive hLength, Option.some_or, Option.elim_some]
  · exact hParts.sourceOffset_eq_scannedOffset? side

/-- A view without source material has no source offsets to give. -/
theorem sourceOffset_of_unrooted (hTokens : ∀ token ∈ view.tokens, token.span? = none)
    (hOffset : offset ≤ view.length) (side : Side) :
    view.sourceOffset offset side = .error .noSourcePosition := by
  have hExcerpt (e : Excerpt) (hMem : Token.excerpt e ∈ view.tokens) : False := by
    have hNone := hTokens _ hMem
    cases hNone
  rcases exists_inside_or_boundary hOffset with
    ⟨left, e, right, i, hAt, -, -, -⟩ | ⟨left, hidden, right, hParts⟩
  · exact (hExcerpt e (by simp [hAt])).elim
  · have hSpans : spans (left ++ (hidden ++ right)) = [] := by
      rw [← hParts.tokens_eq]
      exact List.filterMap_eq_nil_iff.2 hTokens
    simp only [spans, List.filterMap_append, List.append_eq_nil_iff] at hSpans
    obtain ⟨hLeft, hHidden, hRight⟩ := hSpans
    have hBefore : offsetBefore? left.getLast? (hidden.filterMap gap?) = none := by
      rw [hParts.offsetBefore?_eq fun front e hLast => hExcerpt e (by simp [hParts.tokens_eq, hLast]),
        spans, hHidden]
      rfl
    have hBehind : offsetBehind? right.head? (hidden.filterMap gap?) = none := by
      rw [hParts.offsetBehind?_eq fun e rest hFirst => hExcerpt e (by simp [hParts.tokens_eq, hFirst]),
        spans, hHidden]
      rfl
    have hNearest : nearestSourceOffset (left ++ hidden) right = .error .noSourcePosition := by
      rw [Boundary.nearestSourceOffset_eq]
      simp only [spans, List.filterMap_append, hLeft, hHidden, hRight]
      rfl
    obtain ⟨hEqBefore, hEqBehind⟩ := hParts.sourceOffset_eq
    cases side with
    | before => rw [hEqBefore, hBefore, hBehind, Option.none_or, Option.elim_none, hNearest]
    | behind => rw [hEqBehind, hBefore, hBehind, Option.none_or, Option.elim_none, hNearest]

/-- An offset that is not within the text is refused. Any other one translates to the source offset
that the tokens around it give, unless no token of the view has source material. -/
theorem sourceOffset_scanned (view : View) (offset : Int) (side : Side) :
    ((offset < 0 ∨ view.length < offset) ↔
      ∃ fault, view.sourceOffset offset side = .error fault ∧ fault.misuse? = some .outOfRange) ∧
    ∀ shown : Nat, offset = shown → shown ≤ view.length →
      ((∃ token ∈ view.tokens, token.span?.isSome = true) →
        ∃ position, view.scannedOffset? shown side = some position ∧
          view.sourceOffset offset side = .ok position) ∧
      ((∀ token ∈ view.tokens, token.span? = none) →
        view.sourceOffset offset side = .error .noSourcePosition) := by
  have hWithin : ∀ shown : Nat, offset = shown → shown ≤ view.length →
      ((∃ token ∈ view.tokens, token.span?.isSome = true) →
        ∃ position, view.scannedOffset? shown side = some position ∧
          view.sourceOffset offset side = .ok position) ∧
      ((∀ token ∈ view.tokens, token.span? = none) →
        view.sourceOffset offset side = .error .noSourcePosition) := by
    rintro shown rfl hShown
    refine ⟨fun hRooted => ?_, fun hTokens => sourceOffset_of_unrooted hTokens hShown side⟩
    have hSpans := spans_ne_nil_of_rooted (rooted_iff.2 hRooted)
    obtain ⟨position, hFound, -⟩ := exists_sourceOffset hSpans hShown side
    have hScanned := sourceOffset_eq_scannedOffset? hShown side
    rw [hFound] at hScanned
    cases hPosition : view.scannedOffset? shown side with
    | none =>
        rw [hPosition] at hScanned
        cases hScanned
    | some other =>
        rw [hPosition] at hScanned
        exact ⟨other, rfl, hFound.trans hScanned⟩
  refine ⟨⟨fun hOutside => ?_, ?_⟩, hWithin⟩
  · refine ⟨.offsetOutside "offset" offset view.length, ?_, rfl⟩
    rw [sourceOffset, checkOffset, if_pos hOutside]
    rfl
  · rintro ⟨fault, hFault, hMisuse⟩
    apply Decidable.byContradiction
    intro hInside
    obtain ⟨shown, rfl⟩ : ∃ shown : Nat, offset = shown := ⟨offset.toNat, by omega⟩
    obtain ⟨hFound, hMissing⟩ := hWithin shown rfl (by omega)
    by_cases hRooted : ∃ token ∈ view.tokens, token.span?.isSome = true
    · obtain ⟨position, -, hOk⟩ := hFound hRooted
      rw [hOk] at hFault
      cases hFault
    · rw [hMissing (by simpa using hRooted)] at hFault
      cases hFault
      cases hMisuse

/-- Behind a separator nothing is from the source on the left, and the excerpt on the right counts. -/
theorem sourceOffset_scanned_joined :
    ∃ part view, View.ofSource ⟨"doc", ['a', 'b']⟩ .plainText = .ok part ∧
      View.joinWithBlank [part, part] = .ok (some view) ∧ 3 ≤ view.length ∧
      view.scannedOffset? 3 .before = some 0 ∧ view.sourceOffset 3 .before = .ok 0 := by
  have hParts : ∃ part view, View.ofSource ⟨"doc", ['a', 'b']⟩ .plainText = .ok part ∧
      View.joinWithBlank [part, part] = .ok (some view) ∧ 3 ≤ view.length ∧
      view.scannedOffset? 3 .before = some 0 ∧ ∃ token ∈ view.tokens, token.span?.isSome = true :=
    ⟨_, _, rfl, rfl, by decide, rfl, _, List.mem_cons_self, rfl⟩
  obtain ⟨part, view, hPart, hView, hLength, hScanned, hRooted⟩ := hParts
  obtain ⟨position, hPosition, hFound⟩ :=
    ((sourceOffset_scanned view 3 .before).2 3 rfl hLength).1 hRooted
  obtain rfl := Option.some.inj (hScanned.symm.trans hPosition)
  exact ⟨part, view, hPart, hView, hLength, hScanned, hFound⟩

/-- An empty excerpt names a source but is dropped, and then no offset of the source is left. -/
theorem no_position_without_source :
    ∃ view, View.ofTokens .plainText [.excerpt ⟨⟨⟨0, 0, by decide⟩, "doc"⟩, [], rfl⟩] = .ok view ∧
      0 ≤ view.length ∧ view.sourceOffset 0 = .error .noSourcePosition :=
  ⟨_, rfl, Nat.zero_le _, rfl⟩

end View
end SourceView
