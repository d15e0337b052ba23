import SourceView.Proofs.Split

/-! Sweeping through atoms. A sweep through the pieces that were cut for it comes to the same as one
through atoms, where nothing has to be cut at all. The laws of the sweep are therefore laws about
atoms: what it leaves alone, what it replaces, and when it finds no place for a marker. -/
namespace SourceView

namespace Span

theorem hullAll?_append (before after : List Span) :
    hullAll? (before ++ after) = (hullAll? before).merge hull (hullAll? after) := by
  cases before with
  | nil =>
      show hullAll? after = Option.merge hull none (hullAll? after)
      cases hullAll? after <;> rfl
  | cons first rest =>
      cases after with
      | nil => simp [hullAll?]
      | cons second after =>
          have hFold : ∀ (a b : Span) (spans : List Span),
              spans.foldl hull (a.hull b) = a.hull (spans.foldl hull b) := by
            intro a b spans
            induction spans generalizing b with
            | nil => rfl
            | cons c spans ih => rw [List.foldl_cons, hull_assoc, ih, List.foldl_cons]
          simp [hullAll?, List.foldl_append, hFold]

theorem take_hull_drop (span : Span) (n : Nat) : (span.take n).hull (span.drop n) = span := by
  obtain ⟨⟨start, stop, hOrdered⟩, source⟩ := span
  simp only [take, drop, hull, mk.injEq, Range.mk.injEq, and_true]
  omega

end Span

namespace Token

/-- The atoms of a token cover its span. -/
theorem hullAll?_atoms {token : Token} (h : token.isEmptyExcerpt = false) :
    Span.hullAll? (token.atoms.filterMap span?) = token.span? := by
  cases token with
  | gap g => rfl
  | separator s => rfl
  | excerpt e =>
      have hText : e.text ≠ [] := by simpa [isEmptyExcerpt] using h
      induction hLength : e.text.length generalizing e with
      | zero => exact absurd (List.length_eq_zero_iff.1 hLength) hText
      | succ n ih =>
          have hDrop : (e.drop 1).text.length = n := by simp [Excerpt.drop, hLength]
          rw [atoms_of_text_ne_nil hText]
          by_cases hRest : (e.drop 1).text = []
          · rw [hRest, List.length_nil] at hDrop
            rw [atoms_of_text_nil hRest, Excerpt.take_of_length_le (by omega)]
            rfl
          · have hTail := ih (e.drop 1) (by simpa [isEmptyExcerpt] using hRest) hRest hDrop
            rw [← List.singleton_append, List.filterMap_append, Span.hullAll?_append, hTail]
            exact congrArg some (e.span.take_hull_drop 1)

/-- The first source offset of a token is that of its first atom. -/
theorem findSome?_head_atoms {token : Token} (h : token.isEmptyExcerpt = false) :
    (token.atoms.findSome? span?).map Span.head = token.span?.map Span.head := by
  cases token with
  | gap g => rfl
  | separator s => rfl
  | excerpt e =>
      have hText : e.text ≠ [] := by simpa [isEmptyExcerpt] using h
      rw [atoms_of_text_ne_nil hText]
      rfl

/-- The last source offset of a token is that of its last atom. -/
theorem findSome?_tail_atoms {token : Token} (h : token.isEmptyExcerpt = false) :
    (token.atoms.reverse.findSome? span?).map Span.tail = token.span?.map Span.tail := by
  cases token with
  | gap g => rfl
  | separator s => rfl
  | excerpt e =>
      have hText : e.text ≠ [] := by simpa [isEmptyExcerpt] using h
      induction hLength : e.text.length generalizing e with
      | zero => exact absurd (List.length_eq_zero_iff.1 hLength) hText
      | succ n ih =>
          have hDrop : (e.drop 1).text.length = n := by simp [Excerpt.drop, hLength]
          rw [atoms_of_text_ne_nil hText, List.reverse_cons, List.findSome?_append]
          by_cases hRest : (e.drop 1).text = []
          · rw [hRest, List.length_nil] at hDrop
            rw [atoms_of_text_nil hRest, Excerpt.take_of_length_le (by omega)]
            rfl
          · have hTail := ih (e.drop 1) (by simpa [isEmptyExcerpt] using hRest) hRest hDrop
            cases hFound : (atoms (excerpt (e.drop 1))).reverse.findSome? span? with
            | none =>
                rw [hFound] at hTail
                cases hTail
            | some span =>
                rw [hFound] at hTail
                exact hTail

theorem findSome?_span_map (pieces : List Piece) :
    pieces.findSome? (·.2.span?) = (pieces.map (·.2)).findSome? span? := by
  rw [List.findSome?_map]
  rfl

/-- Whether no piece is an excerpt without characters. -/
def Filled (pieces : List Piece) : Prop := ∀ piece ∈ pieces, piece.2.isEmptyExcerpt = false

theorem Filled.cons_iff {piece : Piece} {rest : List Piece} :
    Filled (piece :: rest) ↔ piece.2.isEmptyExcerpt = false ∧ Filled rest := by
  simp [Filled]

theorem Filled.append_iff {before after : List Piece} :
    Filled (before ++ after) ↔ Filled before ∧ Filled after := by
  simp only [Filled, List.mem_append, or_imp, forall_and]

theorem Filled.takeWhile {pieces : List Piece} (h : Filled pieces) (test : Piece → Bool) :
    Filled (pieces.takeWhile test) := fun piece hPiece => h piece ((List.takeWhile_sublist _).mem hPiece)

theorem Filled.dropWhile {pieces : List Piece} (h : Filled pieces) (test : Piece → Bool) :
    Filled (pieces.dropWhile test) := fun piece hPiece => h piece ((List.dropWhile_sublist _).mem hPiece)

/-- Pieces cover the same source material as their atoms. -/
theorem hullAll?_atomizePieces {pieces : List Piece} (h : Filled pieces) :
    Span.hullAll? ((atomizePieces pieces).filterMap (·.2.span?)) =
      Span.hullAll? (pieces.filterMap (·.2.span?)) := by
  induction pieces with
  | nil => rfl
  | cons piece rest ih =>
      obtain ⟨hPiece, hRest⟩ := Filled.cons_iff.1 h
      have hAtoms : (placed piece.1 piece.2.atoms).filterMap (·.2.span?) =
          piece.2.atoms.filterMap span? := by
        rw [← map_snd_placed piece.1 piece.2.atoms, List.filterMap_map, map_snd_placed]
        rfl
      have hCons : (piece :: rest).filterMap (·.2.span?) =
          piece.2.span?.toList ++ rest.filterMap (·.2.span?) := by
        cases hSpan : piece.2.span? <;> simp [hSpan]
      have hSingle : Span.hullAll? piece.2.span?.toList = piece.2.span? := by
        cases piece.2.span? <;> rfl
      rw [atomizePieces_cons, List.filterMap_append, Span.hullAll?_append, hAtoms,
        hullAll?_atoms hPiece, ih hRest, hCons, Span.hullAll?_append, hSingle]

/-- The nearest source offset to the right of a place is the same among pieces and among atoms. -/
theorem findSome?_head_atomizePieces {pieces : List Piece} (h : Filled pieces) :
    ((atomizePieces pieces).findSome? (·.2.span?)).map Span.head =
      (pieces.findSome? (·.2.span?)).map Span.head := by
  induction pieces with
  | nil => rfl
  | cons piece rest ih =>
      obtain ⟨hPiece, hRest⟩ := Filled.cons_iff.1 h
      have hFirst := findSome?_head_atoms hPiece
      rw [atomizePieces_cons, List.findSome?_append, findSome?_span_map (placed _ _), map_snd_placed,
        Option.map_or, hFirst, ih hRest, List.findSome?_cons]
      cases piece.2.span? <;> rfl

/-- The nearest source offset to the left of a place is the same among pieces and among atoms. -/
theorem findSome?_tail_atomizePieces {pieces : List Piece} (h : Filled pieces) :
    ((atomizePieces pieces).reverse.findSome? (·.2.span?)).map Span.tail =
      (pieces.reverse.findSome? (·.2.span?)).map Span.tail := by
  induction pieces with
  | nil => rfl
  | cons piece rest ih =>
      obtain ⟨hPiece, hRest⟩ := Filled.cons_iff.1 h
      have hLast := findSome?_tail_atoms hPiece
      rw [atomizePieces_cons, List.reverse_append, List.findSome?_append,
        findSome?_span_map (placed _ _).reverse, List.map_reverse, map_snd_placed, Option.map_or,
        hLast, ih hRest, List.reverse_cons, List.findSome?_append, Option.map_or]
      cases h : piece.2.span? <;> simp [h]

/-- When a test decides for every item about all that the item is made of, the items that pass in
front are made of what passes in front. -/
theorem takeWhile_flatMap_of_decided {α β : Type} {f : α → List β} {p : β → Bool} {q : α → Bool}
    {items : List α} (hAll : ∀ x ∈ items, q x = true → ∀ y ∈ f x, p y = true)
    (hFirst : ∀ x ∈ items, q x = false → ∃ y ys, f x = y :: ys ∧ p y = false) :
    (items.flatMap f).takeWhile p = (items.takeWhile q).flatMap f ∧
      (items.flatMap f).dropWhile p = (items.dropWhile q).flatMap f := by
  induction items with
  | nil => exact ⟨rfl, rfl⟩
  | cons x rest ih =>
      simp only [List.mem_cons, forall_eq_or_imp] at hAll hFirst
      obtain ⟨hTake, hDrop⟩ := ih hAll.2 hFirst.2
      rw [List.flatMap_cons]
      cases hq : q x with
      | true =>
          have hFront := hAll.1 hq
          rw [List.takeWhile_append_of_pos hFront, List.dropWhile_append_of_pos hFront, hTake, hDrop]
          simp [hq]
      | false =>
          obtain ⟨y, ys, hf, hy⟩ := hFirst.1 hq
          simp [hf, hy, hq]

/-- A test that excerpts pass by where they begin takes the atoms of the pieces that it takes, as
long as no piece reaches across the offset. -/
theorem while_atomizePieces {test : Piece → Bool} {offset : Nat} {pieces : List Piece}
    (hTest : ∀ start u, u.text ≠ [] → test (start, excerpt u) = decide (start < offset))
    (hFilled : Filled pieces) (hUncut : ∀ piece ∈ pieces, Uncut offset piece) :
    (atomizePieces pieces).takeWhile test = atomizePieces (pieces.takeWhile test) ∧
      (atomizePieces pieces).dropWhile test = atomizePieces (pieces.dropWhile test) := by
  refine takeWhile_flatMap_of_decided ?_ ?_
  · rintro ⟨start, token⟩ hMem hPass ⟨at', atom⟩ hAtom
    cases token with
    | gap g => simp_all [atoms, placed]
    | separator s => simp_all [atoms, placed]
    | excerpt e =>
        have hText : e.text ≠ [] := by simpa [isEmptyExcerpt] using hFilled _ hMem
        rw [hTest start e hText] at hPass
        have hBefore : start < offset := by simpa using hPass
        have hWithin := start_of_mem_placed hAtom
        obtain ⟨u, rfl, hLength⟩ := mem_atoms_excerpt (mem_of_mem_placed hAtom)
        rw [hTest at' u (fun hNil => by simp [hNil] at hLength)]
        have hUncut := hUncut _ hMem
        simp only [Uncut, width_excerpt, totalWidth_atoms, hLength] at hUncut hWithin
        simp only [decide_eq_true_eq]
        omega
  · rintro ⟨start, token⟩ hMem hFail
    cases token with
    | gap g => exact ⟨_, [], rfl, hFail⟩
    | separator s => exact ⟨_, [], rfl, hFail⟩
    | excerpt e =>
        have hText : e.text ≠ [] := by simpa [isEmptyExcerpt] using hFilled _ hMem
        refine ⟨(start, excerpt (e.take 1)), _, by rw [atoms_of_text_ne_nil hText]; rfl, ?_⟩
        have hFirst : (e.take 1).text ≠ [] := by simp [Excerpt.take, hText]
        rw [hTest start _ hFirst, ← hTest start e hText]
        exact hFail

end Token

namespace Exclusion
open Token

/-- A marker stands where the last span on its left ends, or else where the first on its right
begins. -/
theorem markerAnchor_eq (left right : List Piece) :
    markerAnchor left right =
      match ((left.findSome? (·.2.span?)).map Span.tail).or
        ((right.findSome? (·.2.span?)).map Span.head) with
      | some span => .ok span
      | none => .error .noAnchor := by
  unfold markerAnchor
  cases left.findSome? (·.2.span?) with
  | some span => rfl
  | none => cases right.findSome? (·.2.span?) <;> rfl

/-- A marker finds the same place among pieces and among atoms. -/
theorem markerAnchor_atomizePieces {left right : List Piece} (hLeft : Filled left)
    (hRight : Filled right) :
    markerAnchor (atomizePieces left).reverse (atomizePieces right) =
      markerAnchor left.reverse right := by
  rw [markerAnchor_eq, markerAnchor_eq, findSome?_tail_atomizePieces hLeft,
    findSome?_head_atomizePieces hRight]

theorem any_isMarker_atomizePieces (pieces : List Piece) :
    (atomizePieces pieces).any (·.2.isMarker) = pieces.any (·.2.isMarker) := by
  have hAny : ∀ pieces : List Piece,
      pieces.any (·.2.isMarker) = (pieces.map (·.2)).any isMarker := by
    intro pieces
    rw [List.any_map]
    rfl
  rw [hAny, hAny, map_snd_atomizePieces]
  induction pieces.map (·.2) with
  | nil => rfl
  | cons token rest ih =>
      rw [atomize_cons, List.any_append, ih, List.any_cons]
      congr 1
      cases token with
      | gap g => simp [atoms]
      | separator s => simp [atoms]
      | excerpt e =>
          apply List.any_eq_false.2
          intro token hToken
          obtain ⟨u, rfl, -⟩ := mem_atoms_excerpt hToken
          simp [isMarker]

/-- Hidden pieces are replaced by the same tokens as their atoms. -/
theorem replacement_atomizePieces (unknown : Bool) {left removed right : List Piece}
    (hLeft : Filled left) (hRemoved : Filled removed) (hRight : Filled right) :
    replacement unknown (atomizePieces left).reverse (atomizePieces removed) (atomizePieces right) =
      replacement unknown left.reverse removed right := by
  unfold replacement
  rw [hullAll?_atomizePieces hRemoved, any_isMarker_atomizePieces, ← atomizePieces_append,
    markerAnchor_atomizePieces hLeft (Filled.append_iff.2 ⟨hRemoved, hRight⟩)]

def front (e : Exclusion) (rest : List Piece) : List Piece :=
  rest.takeWhile (isBefore e.start (!e.isCaret))

def covered (e : Exclusion) (rest : List Piece) : List Piece :=
  (rest.dropWhile (isBefore e.start (!e.isCaret))).takeWhile (·.1 < e.stop)

def behind (e : Exclusion) (rest : List Piece) : List Piece :=
  (rest.dropWhile (isBefore e.start (!e.isCaret))).dropWhile (·.1 < e.stop)

def substitute (e : Exclusion) (left hidden right : List Piece) : Except Fault (List Token) :=
  if e.isCaret then do return [.gap ⟨← markerAnchor left (hidden ++ right), true⟩]
  else replacement e.unknown left hidden right

/-- An exclusion divides the pieces into three runs. -/
theorem front_append_covered_append_behind (e : Exclusion) (rest : List Piece) :
    e.front rest ++ e.covered rest ++ e.behind rest = rest := by
  rw [List.append_assoc, front, covered, behind, List.takeWhile_append_dropWhile,
    List.takeWhile_append_dropWhile]

theorem isBefore_false (offset : Nat) :
    isBefore offset false = fun piece => decide (piece.1 < offset) := by
  funext piece
  simp [isBefore]

theorem takeWhile_dropWhile_self {α : Type} (test : α → Bool) (items : List α) :
    (items.dropWhile test).takeWhile test = [] := by
  induction items with
  | nil => rfl
  | cons item rest ih =>
      rw [List.dropWhile_cons]
      split
      · exact ih
      · next h => simp [h]

theorem covered_of_isCaret {e : Exclusion} (h : e.isCaret = true) (rest : List Piece) :
    e.covered rest = [] := by
  have hEnds : e.start = e.stop := Nat.le_antisymm e.ordered (Range.isCaret_iff.1 h)
  rw [covered, h, Bool.not_true, isBefore_false, hEnds]
  exact takeWhile_dropWhile_self _ _

theorem behind_of_isCaret {e : Exclusion} (h : e.isCaret = true) (rest : List Piece) :
    e.behind rest = rest.dropWhile (isBefore e.start (!e.isCaret)) := by
  have hWhole : e.covered rest ++ e.behind rest = _ := List.takeWhile_append_dropWhile
  rwa [covered_of_isCaret h, List.nil_append] at hWhole

/-- A sweep takes one exclusion after the other, whether it hides anything or only marks. -/
theorem sweep_cons (passed rest : List Piece) (e : Exclusion) (later : List Exclusion) :
    sweep passed rest (e :: later) = (do
      let gap ← e.substitute ((e.front rest).reverse ++ passed) (e.covered rest) (e.behind rest)
      let after ← sweep ((e.front rest ++ e.covered rest).reverse ++ passed) (e.behind rest) later
      return (e.front rest).map (·.2) ++ gap ++ after) := by
  rw [sweep]
  cases h : e.isCaret with
  | true =>
      simp only [if_true, substitute, h, covered_of_isCaret h, behind_of_isCaret h,
        List.append_nil, List.nil_append, front]
      cases markerAnchor ((rest.takeWhile (isBefore e.start (!true))).reverse ++ passed)
          (rest.dropWhile (isBefore e.start (!true))) with
      | error fault => rfl
      | ok anchor =>
          simp only [List.append_assoc]
          rfl
  | false =>
      simp only [Bool.false_eq_true, if_false, substitute, h, front, covered, behind,
        List.reverse_append, List.append_assoc]

/-- A sweep passes what is in front of the first exclusion, replaces what that hides, and goes on
behind it. -/
theorem sweep_cons_eq_ok_iff {passed rest : List Piece} {e : Exclusion} {later : List Exclusion}
    {swept : List Token} :
    sweep passed rest (e :: later) = .ok swept ↔ ∃ gaps after,
      e.substitute ((e.front rest).reverse ++ passed) (e.covered rest) (e.behind rest) = .ok gaps ∧
      sweep ((e.front rest ++ e.covered rest).reverse ++ passed) (e.behind rest) later = .ok after ∧
      swept = (e.front rest).map (·.2) ++ gaps ++ after := by
  rw [sweep_cons]
  constructor
  · intro h
    obtain ⟨gaps, hGaps, h⟩ := bind_eq_ok_iff.1 h
    obtain ⟨after, hAfter, h⟩ := bind_eq_ok_iff.1 h
    cases h
    exact ⟨gaps, after, hGaps, hAfter, rfl⟩
  · rintro ⟨gaps, after, hGaps, hAfter, rfl⟩
    rw [hGaps, hAfter]
    rfl

/-- An excerpt with characters stays in front of an exclusion when it begins there. -/
theorem isBefore_excerpt (offset : Nat) (keepHidden : Bool) (start : Nat) (u : Excerpt)
    (h : u.text ≠ []) : isBefore offset keepHidden (start, .excerpt u) = decide (start < offset) := by
  have hVisible : (Token.excerpt u).isVisible = true := by simpa [isVisible, shown] using h
  simp [isBefore, hVisible]

/-- An exclusion parts the atoms as it parts the pieces, if it divides none of them. -/
theorem parts_atomizePieces {e : Exclusion} {rest : List Piece} (hRest : Filled rest)
    (hUncut : ∀ piece ∈ rest, Uncut e.start piece ∧ Uncut e.stop piece) :
    e.front (atomizePieces rest) = atomizePieces (e.front rest) ∧
      e.covered (atomizePieces rest) = atomizePieces (e.covered rest) ∧
      e.behind (atomizePieces rest) = atomizePieces (e.behind rest) := by
  obtain ⟨hFront, hOther⟩ := while_atomizePieces (isBefore_excerpt e.start (!e.isCaret)) hRest
    fun piece hPiece => (hUncut piece hPiece).1
  have hStop : ∀ piece ∈ rest.dropWhile (isBefore e.start (!e.isCaret)), Uncut e.stop piece :=
    fun piece hPiece => (hUncut piece ((List.dropWhile_sublist _).mem hPiece)).2
  obtain ⟨hCovered, hBehind⟩ := @while_atomizePieces (fun piece => decide (piece.1 < e.stop)) e.stop _
    (fun _ _ _ => rfl) (hRest.dropWhile (isBefore e.start (!e.isCaret))) hStop
  refine ⟨hFront, ?_, ?_⟩
  · rw [covered, hOther, hCovered, covered]
  · rw [behind, hOther, hBehind, behind]

theorem filled_parts {rest : List Piece} (h : Filled rest) (e : Exclusion) :
    Filled (e.front rest) ∧ Filled (e.covered rest) ∧ Filled (e.behind rest) :=
  ⟨h.takeWhile _, (h.dropWhile _).takeWhile _, (h.dropWhile _).dropWhile _⟩

/-- What stands in place of hidden pieces stands in place of their atoms. -/
theorem substitute_atomizePieces (e : Exclusion) {left hidden right : List Piece}
    (hLeft : Filled left) (hHidden : Filled hidden) (hRight : Filled right) :
    e.substitute (atomizePieces left).reverse (atomizePieces hidden) (atomizePieces right) =
      e.substitute left.reverse hidden right := by
  unfold substitute
  rw [← atomizePieces_append, markerAnchor_atomizePieces hLeft (Filled.append_iff.2 ⟨hHidden, hRight⟩),
    replacement_atomizePieces e.unknown hLeft hHidden hRight]

/-- A substitute is a marker between the pieces, or a gap over all that is hidden, or nothing where
only separators are hidden. -/
theorem substitute_cases {e : Exclusion} {left hidden right : List Piece} {gaps : List Token}
    (h : e.substitute left hidden right = .ok gaps) :
    (∃ anchor, markerAnchor left (hidden ++ right) = .ok anchor ∧ gaps = [.gap ⟨anchor, true⟩] ∧
      (e.isCaret = true ∨
        e.unknown = true ∧ Span.hullAll? (hidden.filterMap (·.2.span?)) = none)) ∨
    (e.isCaret = false ∧ ∃ anchor, Span.hullAll? (hidden.filterMap (·.2.span?)) = some anchor ∧
      gaps = [.gap ⟨anchor, e.unknown || hidden.any (·.2.isMarker)⟩]) ∨
    (e.isCaret = false ∧ e.unknown = false ∧
      Span.hullAll? (hidden.filterMap (·.2.span?)) = none ∧ gaps = []) := by
  unfold substitute replacement at h
  cases hCaret : e.isCaret with
  | true =>
      rw [hCaret] at h
      obtain ⟨anchor, hAnchor, h⟩ := bind_eq_ok_iff.1 h
      cases h
      exact .inl ⟨anchor, hAnchor, rfl, .inl rfl⟩
  | false =>
      cases hHull : Span.hullAll? (hidden.filterMap (·.2.span?)) with
      | some anchor =>
          rw [hCaret, hHull] at h
          cases h
          exact .inr (.inl ⟨rfl, anchor, rfl, rfl⟩)
      | none =>
          cases hUnknown : e.unknown with
          | false =>
              rw [hCaret, hHull, hUnknown] at h
              cases h
              exact .inr (.inr ⟨rfl, rfl, rfl, rfl⟩)
          | true =>
              rw [hCaret, hHull, hUnknown] at h
              obtain ⟨anchor, hAnchor, h⟩ := bind_eq_ok_iff.1 h
              cases h
              exact .inl ⟨anchor, hAnchor, rfl, .inr ⟨rfl, rfl⟩⟩

theorem atomize_substitute {e : Exclusion} {left hidden right : List Piece} {gaps : List Token}
    (h : e.substitute left hidden right = .ok gaps) : atomize gaps = gaps := by
  rcases substitute_cases h with ⟨_, _, rfl, _⟩ | ⟨_, _, _, rfl⟩ | ⟨_, _, _, rfl⟩ <;> rfl

/-- Pieces that no exclusion divides are swept as their atoms are. -/
theorem sweep_atomizePieces {left rest : List Piece} {exclusions : List Exclusion}
    (hLeft : Filled left) (hRest : Filled rest)
    (hUncut : ∀ e ∈ exclusions, ∀ piece ∈ rest, Uncut e.start piece ∧ Uncut e.stop piece) :
    sweep (atomizePieces left).reverse (atomizePieces rest) exclusions =
      (sweep left.reverse rest exclusions).map atomize := by
  induction exclusions generalizing left rest with
  | nil => simp [sweep, map_snd_atomizePieces, Except.map]
  | cons e later ih =>
      simp only [List.mem_cons, forall_eq_or_imp] at hUncut
      obtain ⟨hFirst, hLater⟩ := hUncut
      obtain ⟨hFront, hCovered, hBehind⟩ := parts_atomizePieces hRest hFirst
      obtain ⟨hFrontFilled, hCoveredFilled, hBehindFilled⟩ := filled_parts hRest e
      have hFrontLeft : Filled (left ++ e.front rest) := Filled.append_iff.2 ⟨hLeft, hFrontFilled⟩
      have hSub : ∀ piece ∈ e.behind rest, piece ∈ rest := fun piece hPiece =>
        ((List.dropWhile_sublist _).trans (List.dropWhile_sublist _)).mem hPiece
      have hSwept := @ih (left ++ (e.front rest ++ e.covered rest)) (e.behind rest)
        (Filled.append_iff.2 ⟨hLeft, Filled.append_iff.2 ⟨hFrontFilled, hCoveredFilled⟩⟩)
        hBehindFilled fun e he piece hPiece => hLater e he piece (hSub piece hPiece)
      rw [sweep_cons, sweep_cons, hFront, hCovered, hBehind, ← List.reverse_append,
        ← List.reverse_append, ← List.reverse_append, ← List.reverse_append, ← atomizePieces_append,
        ← atomizePieces_append, ← atomizePieces_append, hSwept,
        substitute_atomizePieces e hFrontLeft hCoveredFilled hBehindFilled, map_snd_atomizePieces]
      cases hGaps : e.substitute (left ++ e.front rest).reverse (e.covered rest) (e.behind rest) with
      | error fault => rfl
      | ok gaps =>
          cases sweep (left ++ (e.front rest ++ e.covered rest)).reverse (e.behind rest) later with
          | error fault => rfl
          | ok after =>
              show Except.ok _ = Except.ok _
              rw [atomize_append, atomize_append, atomize_substitute hGaps]

/-- Exclusions are applied to the atoms of a sequence, and the result is brought into canonical
form. -/
theorem applyAll_eq {tokens : List Token}
    (hShows : ∀ token ∈ tokens, token.isEmptyExcerpt = false) (exclusions : List Exclusion) :
    applyAll tokens exclusions =
      if (exclusions.filter isActive).isEmpty then .ok tokens
      else (sweep [] (placed 0 (atomize tokens)) (exclusions.filter isActive)).map Token.normalize := by
  unfold applyAll
  generalize hActive : exclusions.filter isActive = active
  dsimp only
  split
  · rfl
  · have hPieces (piece : Piece) (h : piece ∈ split (cuts active) tokens) :
        piece.2.isEmptyExcerpt = false ∧ ∀ offset ∈ cuts active, Uncut offset piece :=
      mem_split hShows (pairwise_sortNew _) h
    have hCuts (e : Exclusion) (he : e ∈ active) : e.start ∈ cuts active ∧ e.stop ∈ cuts active := by
      constructor <;> refine mem_sortNew.2 (List.mem_flatMap.2 ⟨e, he, ?_⟩) <;> simp [Range.endpoints]
    have hSwept := @sweep_atomizePieces [] (split (cuts active) tokens) active (by simp [Filled])
      (fun piece h => (hPieces piece h).1) fun e he piece h =>
        ⟨(hPieces piece h).2 _ (hCuts e he).1, (hPieces piece h).2 _ (hCuts e he).2⟩
    have hNil : (atomizePieces []).reverse = [] := rfl
    rw [hNil, atomizePieces_split] at hSwept
    rw [hSwept, List.reverse_nil]
    cases sweep [] (split (cuts active) tokens) active with
    | error fault => rfl
    | ok swept => exact congrArg Except.ok (normalize_atomize swept).symm

end Exclusion
end SourceView
