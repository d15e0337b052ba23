import SourceView.Proofs.Derivation
import SourceView.Proofs.Offset
import SourceView.Proofs.Tiling

/-! Views over an unbroken stretch of a source. Between any two shown characters the two source
offsets of a boundary enclose just what is hidden there, so the shown characters and the hidden
stretches make up the whole extent. -/
namespace SourceView

namespace View
open Token

/-- A view over the stretch of a source from one offset to another: all of it, or what exclusions
leave of it, or several views over stretches that follow each other. -/
inductive Contiguous (source : String) : Nat → Nat → View → Prop
  | ofSpan {α : Type} [Provider α] (provider : α) (span : Span) (domain : Domain) {view : View}
      (hSource : span.source = source) (h : View.ofSpan provider span domain = .ok view) :
      Contiguous source span.start span.stop view
  | hide {start stop : Nat} {before view : View} (wanted : Loose)
      (hBefore : Contiguous source start stop before) (h : before.hide wanted = .ok view) :
      Contiguous source start stop view
  | mark {start stop : Nat} {before view : View} (wanted : Loose)
      (hBefore : Contiguous source start stop before) (h : before.mark wanted = .ok view) :
      Contiguous source start stop view
  | excludeAll {start stop : Nat} {before view : View} (exclusions : List Exclusion)
      (hBefore : Contiguous source start stop before)
      (h : before.excludeAll exclusions = .ok view) : Contiguous source start stop view
  | trim {start stop : Nat} {before view : View} (hBefore : Contiguous source start stop before)
      (h : before.trim = .ok view) : Contiguous source start stop view
  | join {views : List View} {view : View} (bounds : Nat → Nat)
      (hViews : ∀ i, (hi : i < views.length) → Contiguous source (bounds i) (bounds (i + 1)) views[i])
      (h : View.join views = .ok view) :
      Contiguous source (bounds 0) (bounds views.length) view

/-- The view of a span covers the span. -/
theorem tiles_ofSpan {α : Type} [Provider α] {provider : α} {span : Span} {domain : Domain}
    {view : View} (h : View.ofSpan provider span domain = .ok view) :
    Tiles span.start view.tokens span.stop := by
  obtain ⟨token, hSpan, -, -, hTokens⟩ := exists_token_of_ofSpan h
  rw [hTokens]
  exact Tiles.normalize ⟨span, hSpan, rfl, rfl⟩

/-- Stretches that follow each other make up one stretch when their views are joined. -/
theorem tiles_join {views : List View} {view : View} {bounds : Nat → Nat}
    (hViews : ∀ i, (hi : i < views.length) → Tiles (bounds i) views[i].tokens (bounds (i + 1)))
    (h : View.join views = .ok view) : Tiles (bounds 0) view.tokens (bounds views.length) := by
  rcases join_cases h with rfl | hTokens
  · exact hViews 0 Nat.zero_lt_one
  · rw [hTokens]
    exact (tiles_flatMap hViews).normalize

/-- Exclusions hide parts of a stretch but take nothing out of it. -/
theorem preserved_tiles (start stop : Nat) :
    Preserved fun view => Grounded view.tokens ∧ Tiles start view.tokens stop :=
  fun _ _ _ h hBefore =>
    ⟨grounded_excludeAll hBefore.1 h, tiles_excludeAll hBefore.1.rooted hBefore.2 h⟩

/-- A view over a stretch of a source covers it without a break. -/
theorem Contiguous.grounded_and_tiles {source : String} {start stop : Nat} {view : View}
    (h : Contiguous source start stop view) :
    Grounded view.tokens ∧ Tiles start view.tokens stop := by
  induction h with
  | ofSpan provider span domain hSource h => exact ⟨grounded_ofSpan h, tiles_ofSpan h⟩
  | hide wanted hBefore h ih => exact (preserved_tiles _ _).hide h ih
  | mark wanted hBefore h ih => exact (preserved_tiles _ _).mark h ih
  | excludeAll exclusions hBefore h ih => exact preserved_tiles _ _ _ _ exclusions h ih
  | trim hBefore h ih => exact (preserved_tiles _ _).trim h ih
  | join bounds hViews h ih =>
      refine ⟨grounded_join (fun part hPart => ?_) h, tiles_join (fun i hi => (ih i hi).2) h⟩
      obtain ⟨i, hi, rfl⟩ := List.getElem_of_mem hPart
      exact (ih i hi).1

/-- Hidden tokens of an unbroken canonical sequence are gaps. -/
theorem gap_of_hidden {token : Token} (hHidden : token.isVisible = false)
    (hShows : token.isEmptyExcerpt = false) (hSpan : token.span?.isSome = true) :
    ∃ g, token = .gap g := by
  cases token with
  | gap g => exact ⟨g, rfl⟩
  | separator s => cases hSpan
  | excerpt e => simp_all [isVisible, shown, isEmptyExcerpt]

theorem excerpt_of_visible {token : Token} (hVisible : token.isVisible = true)
    (hSpan : token.span?.isSome = true) : ∃ e, token = .excerpt e := by
  cases token with
  | excerpt e => exact ⟨e, rfl⟩
  | gap g => cases hVisible
  | separator s => cases hSpan

/-- In front of hidden material an unbroken view stands at the source offset where it is hidden
from. -/
theorem offsetBefore?_of_tiles {left hidden : List Token} {start middle stop : Nat}
    (hLeft : Tiles start left middle) (hHidden : Tiles middle hidden stop)
    (hShut : ∀ token, left.getLast? = some token → token.isVisible = true)
    (hGaps : ∀ token ∈ hidden, ∃ g, token = .gap g) :
    offsetBefore? left.getLast? (hidden.filterMap gap?) =
      if left = [] ∧ hidden = [] then none else some middle := by
  rcases List.eq_nil_or_concat left with rfl | ⟨before, token, rfl⟩
  · cases hidden with
    | nil => rfl
    | cons token rest =>
        obtain ⟨g, rfl⟩ := hGaps token List.mem_cons_self
        obtain ⟨_, ⟨⟩, hFirst, -⟩ := hHidden
        simp [offsetBefore?, gap?, hFirst]
  · rw [List.concat_eq_append] at hLeft hShut ⊢
    obtain ⟨last, -, span, hSpan, hStart, hStop⟩ := tiles_append.1 hLeft
    obtain ⟨e, rfl⟩ := excerpt_of_visible (hShut token List.getLast?_concat) (by rw [hSpan]; rfl)
    cases hSpan
    have hEnd : e.span.stop = middle := hStop
    simp [offsetBefore?, hEnd]

/-- Behind hidden material an unbroken view stands at the source offset up to which it is hidden. -/
theorem offsetBehind?_of_tiles {hidden shown : List Token} {start middle stop : Nat}
    (hHidden : Tiles start hidden middle) (hShown : Tiles middle shown stop)
    (hVisible : ∀ token, shown.head? = some token → token.isVisible = true)
    (hGaps : ∀ token ∈ hidden, ∃ g, token = .gap g) :
    offsetBehind? shown.head? (hidden.filterMap gap?) =
      if shown = [] ∧ hidden = [] then none else some middle := by
  cases shown with
  | cons token rest =>
      obtain ⟨span, hSpan, hStart, -⟩ := hShown
      obtain ⟨e, rfl⟩ := excerpt_of_visible (hVisible token rfl) (by rw [hSpan]; rfl)
      cases hSpan
      simp [offsetBehind?, hStart]
  | nil =>
      rcases List.eq_nil_or_concat hidden with rfl | ⟨before, token, rfl⟩
      · rfl
      · rw [List.concat_eq_append] at hHidden hGaps ⊢
        obtain ⟨g, rfl⟩ := hGaps token (by simp)
        obtain ⟨last, -, _, ⟨⟩, -, hStop⟩ := tiles_append.1 hHidden
        have hEnd : g.anchor.stop = middle := hStop
        simp [offsetBehind?, gap?, hEnd]

/-- The two source offsets of a boundary enclose exactly what is hidden there. -/
theorem boundaryOffset_of_tiles {left hidden shown : List Token} {start first last stop : Nat}
    (hLeft : Tiles start left first) (hHidden : Tiles first hidden last)
    (hShown : Tiles last shown stop) (hNe : left ++ (hidden ++ shown) ≠ [])
    (hShut : ∀ token, left.getLast? = some token → token.isVisible = true)
    (hInvisible : ∀ token ∈ hidden, token.isVisible = false)
    (hVisible : ∀ token, shown.head? = some token → token.isVisible = true)
    (hShows : ∀ token ∈ hidden, token.isEmptyExcerpt = false) :
    boundaryOffset left (hidden ++ shown) .before = .ok first ∧
      boundaryOffset left (hidden ++ shown) .behind = .ok last := by
  have hGaps (token : Token) (hToken : token ∈ hidden) : ∃ g, token = .gap g :=
    gap_of_hidden (hInvisible token hToken) (hShows token hToken) (hHidden.span?_isSome token hToken)
  have hPass : ∀ token ∈ hidden, (!token.isVisible) = true := by simpa using hInvisible
  have hFail : ∀ token ∈ shown.head?, (!token.isVisible) = false := by simpa using hVisible
  obtain ⟨hTake, hDrop⟩ := Exclusion.takeWhile_of_boundary hPass hFail
  have hBefore := offsetBefore?_of_tiles hLeft hHidden hShut hGaps
  have hBehind := offsetBehind?_of_tiles hHidden hShown hVisible hGaps
  unfold boundaryOffset
  simp only [hTake, hDrop, hBefore, hBehind]
  by_cases hNil : hidden = []
  · subst hNil
    obtain rfl : first = last := hHidden
    by_cases hLeftNil : left = []
    · by_cases hShownNil : shown = []
      · exact absurd (by rw [hLeftNil, hShownNil]; rfl) hNe
      · simp [hLeftNil, hShownNil]
    · by_cases hShownNil : shown = [] <;> simp [hLeftNil, hShownNil]
  · simp [hNil]

/-- Where a boundary parts an unbroken view, its two source offsets enclose what is hidden there. -/
theorem Boundary.exists_offsets {view : View} {left hidden shown : List Token}
    {start stop offset : Nat} (hParts : Boundary view offset left hidden shown)
    (hTiles : Tiles start view.tokens stop) (hRooted : Rooted view.tokens) :
    ∃ before behind, view.sourceOffset offset .before = .ok before ∧
      view.sourceOffset offset .behind = .ok behind ∧ before ≤ behind ∧
      (offset = 0 → before = start) ∧ (offset = view.length → behind = stop) := by
  rw [hParts.tokens_eq] at hTiles
  obtain ⟨first, hLeftTiles, hRight⟩ := tiles_append.1 hTiles
  obtain ⟨last, hHidden, hShown⟩ := tiles_append.1 hRight
  have hShows (token : Token) (hToken : token ∈ hidden) : token.isEmptyExcerpt = false := by
    apply view.canonical.shows
    simp [hParts.tokens_eq, hToken]
  have hNe : left ++ (hidden ++ shown) ≠ [] := by
    obtain ⟨token, hToken, -⟩ := hRooted
    rw [hParts.tokens_eq] at hToken
    exact List.ne_nil_of_mem hToken
  obtain ⟨hBefore, hBehind⟩ := boundaryOffset_of_tiles hLeftTiles hHidden hShown hNe hParts.shut
    hParts.invisible hParts.visible hShows
  refine ⟨first, last, ?_, ?_, hHidden.le, ?_, ?_⟩
  · rw [sourceOffset_boundary .before hParts.tokens_eq hParts.width_eq hParts.passed, hBefore]
  · rw [sourceOffset_boundary .behind hParts.tokens_eq hParts.width_eq hParts.passed, hBehind]
  · rintro rfl
    cases left with
    | nil => exact Eq.symm hLeftTiles
    | cons token rest => exact absurd (hParts.passed _ List.mem_cons_self) (Nat.not_lt_zero _)
  · intro hLength
    have hEnd := hParts.width_eq
    rw [show view.length = totalWidth view.tokens from length_shownText _, hParts.tokens_eq,
      totalWidth_append, totalWidth_append] at hLength
    cases shown with
    | nil => exact hShown
    | cons token rest =>
        have hWide := isVisible_iff.1 (hParts.visible token rfl)
        simp only [totalWidth] at hLength
        omega

/-- At every offset of an unbroken view the two source offsets enclose hidden material that follows
what is shown in front of the offset. -/
theorem exists_offsets {view : View} {start stop offset : Nat} (hTiles : Tiles start view.tokens stop)
    (hRooted : Rooted view.tokens) (hOffset : offset ≤ view.length) :
    ∃ before behind, view.sourceOffset offset .before = .ok before ∧
      view.sourceOffset offset .behind = .ok behind ∧ before ≤ behind ∧
      (offset = 0 → before = start) ∧ (offset = view.length → behind = stop) := by
  rcases exists_inside_or_boundary hOffset with
    ⟨left, e, right, i, hTokens, hPositive, hLength, hInside⟩ | ⟨left, hidden, right, hParts⟩
  · have hWidth : view.length = totalWidth view.tokens := length_shownText _
    refine ⟨e.span.start + i, e.span.start + i, ?_, ?_, Nat.le_refl _, ?_, ?_⟩
    · rw [hInside]
      exact sourceOffset_inside .before hTokens hPositive hLength
    · rw [hInside]
      exact sourceOffset_inside .behind hTokens hPositive hLength
    · omega
    · rw [hTokens, totalWidth_append] at hWidth
      simp only [totalWidth, width_excerpt] at hWidth
      omega
  · exact hParts.exists_offsets hTiles hRooted

/-- Each shown character is one character of the source. -/
theorem sourceOffset_succ {view : View} {start stop offset : Nat}
    (hTiles : Tiles start view.tokens stop) (hOffset : offset < view.length) :
    ∃ position, view.sourceOffset offset .behind = .ok position ∧
      view.sourceOffset (offset + 1 : Nat) .before = .ok (position + 1) := by
  rcases exists_showsAt_or_separator hOffset with ⟨position, hShown⟩ | ⟨left, s, right, hTokens, -⟩
  · exact ⟨position, hShown.sourceOffset_behind, hShown.sourceOffset_before⟩
  · exact absurd (hTiles.isSeparator (.separator s) (by simp [hTokens])) (by simp [isSeparator])

def interval (start stop : Nat) : List Nat := List.range' start (stop - start)

theorem interval_append {start middle stop : Nat} (hFirst : start ≤ middle) (hSecond : middle ≤ stop) :
    interval start middle ++ interval middle stop = interval start stop := by
  have hMiddle : start + (middle - start) = middle := by omega
  have hWhole : middle - start + (stop - middle) = stop - start := by omega
  have hJoined := @List.range'_append_1 start (middle - start) (stop - middle)
  rwa [hMiddle, hWhole] at hJoined

/-- Intervals that are one character apart, with these characters between them, make up one
interval. -/
theorem flatMap_interval {before behind : Nat → Nat} {length : Nat}
    (hOrder : ∀ offset ≤ length, before offset ≤ behind offset)
    (hNext : ∀ offset < length, before (offset + 1) = behind offset + 1) :
    (List.range length).flatMap (fun offset =>
        interval (before offset) (behind offset) ++ [behind offset]) ++
      interval (before length) (behind length) = interval (before 0) (behind length) ∧
      before 0 ≤ before length := by
  induction length with
  | zero => simp
  | succ length ih =>
      obtain ⟨hTiled, hLe⟩ := ih (fun offset h => hOrder offset (by omega))
        (fun offset h => hNext offset (by omega))
      have hFirst := hOrder length (by omega)
      have hLast := hOrder (length + 1) (Nat.le_refl _)
      have hStep := hNext length (Nat.lt_succ_self _)
      have hSingle : [behind length] = interval (behind length) (before (length + 1)) := by
        rw [interval, hStep, Nat.add_sub_cancel_left]
        rfl
      refine ⟨?_, by omega⟩
      rw [List.range_succ, List.flatMap_append, List.flatMap_singleton, ← List.append_assoc, hTiled,
        hSingle, interval_append (by omega) (by omega), interval_append (by omega) (by omega)]

/-- Both source offsets of every shown offset, as they make up a stretch of the source: in front of
each shown character and at the end stands what is hidden from `before` to `behind`, and the
character itself is the one at `behind`. -/
structure OffsetsTile (view : View) (start stop : Nat) (before behind : Nat → Nat) : Prop where
  before_eq : ∀ offset ≤ view.length, view.sourceOffset offset .before = .ok (before offset)
  behind_eq : ∀ offset ≤ view.length, view.sourceOffset offset .behind = .ok (behind offset)
  first : before 0 = start
  last : behind view.length = stop
  ordered : ∀ offset ≤ view.length, before offset ≤ behind offset
  next : ∀ offset < view.length, before (offset + 1) = behind offset + 1
  covers : (List.range view.length).flatMap (fun offset =>
      interval (before offset) (behind offset) ++ [behind offset]) ++
    interval (before view.length) (behind view.length) = interval start stop

/-- In a view over an unbroken stretch of a source, the shown characters and the hidden stretches
between them make up the whole stretch: nothing of it is lost and nothing occurs twice. -/
theorem offsets_tile {source : String} {start stop : Nat} {view : View}
    (hView : Contiguous source start stop view) :
    ∃ before behind, OffsetsTile view start stop before behind := by
  obtain ⟨hGrounded, hTiles⟩ := hView.grounded_and_tiles
  let before (offset : Nat) : Nat := (view.sourceOffset offset .before).toOption.getD 0
  let behind (offset : Nat) : Nat := (view.sourceOffset offset .behind).toOption.getD 0
  have hOffsets (offset : Nat) (hOffset : offset ≤ view.length) :
      view.sourceOffset offset .before = .ok (before offset) ∧
        view.sourceOffset offset .behind = .ok (behind offset) ∧ before offset ≤ behind offset ∧
        (offset = 0 → before offset = start) ∧ (offset = view.length → behind offset = stop) := by
    obtain ⟨first, last, hBefore, hBehind, hEnds⟩ := exists_offsets hTiles hGrounded.rooted hOffset
    have hFirst : before offset = first := by simp only [before, hBefore]; rfl
    have hLast : behind offset = last := by simp only [behind, hBehind]; rfl
    rw [hFirst, hLast]
    exact ⟨hBefore, hBehind, hEnds⟩
  have hOrder (offset : Nat) (hOffset : offset ≤ view.length) : before offset ≤ behind offset :=
    (hOffsets offset hOffset).2.2.1
  have hNext (offset : Nat) (hOffset : offset < view.length) :
      before (offset + 1) = behind offset + 1 := by
    obtain ⟨position, hBehind, hBefore⟩ := sourceOffset_succ hTiles hOffset
    have hHere := (hOffsets offset (Nat.le_of_lt hOffset)).2.1
    have hThere := (hOffsets (offset + 1) hOffset).1
    rw [Except.ok.inj (hThere.symm.trans hBefore), Except.ok.inj (hHere.symm.trans hBehind)]
  have hStart : before 0 = start := (hOffsets 0 (Nat.zero_le _)).2.2.2.1 rfl
  have hStop : behind view.length = stop := (hOffsets view.length (Nat.le_refl _)).2.2.2.2 rfl
  refine ⟨before, behind, fun offset h => (hOffsets offset h).1, fun offset h => (hOffsets offset h).2.1,
    hStart, hStop, hOrder, hNext, ?_⟩
  rw [(flatMap_interval hOrder hNext).1, hStart, hStop]

/-- Two halves of a text joined, a character of the first one hidden. -/
theorem offsets_tile_joined :
    ∃ first second hidden view,
      View.ofSpan (⟨"doc", ['a', 'b', 'c']⟩ : Source) ⟨⟨0, 2, by decide⟩, "doc"⟩ = .ok first ∧
      View.ofSpan (⟨"doc", ['a', 'b', 'c']⟩ : Source) ⟨⟨2, 3, by decide⟩, "doc"⟩ = .ok second ∧
      first.hide (.range ⟨0, 1, by decide⟩) = .ok hidden ∧ View.join [hidden, second] = .ok view ∧
      ∃ before behind, OffsetsTile view 0 3 before behind := by
  have hParts : ∃ first second hidden view,
      View.ofSpan (⟨"doc", ['a', 'b', 'c']⟩ : Source) ⟨⟨0, 2, by decide⟩, "doc"⟩ = .ok first ∧
      View.ofSpan (⟨"doc", ['a', 'b', 'c']⟩ : Source) ⟨⟨2, 3, by decide⟩, "doc"⟩ = .ok second ∧
      first.hide (.range ⟨0, 1, by decide⟩) = .ok hidden ∧ View.join [hidden, second] = .ok view :=
    ⟨_, _, _, _, rfl, rfl, rfl, rfl⟩
  obtain ⟨first, second, hidden, view, hFirst, hSecond, hHidden, hView⟩ := hParts
  refine ⟨first, second, hidden, view, hFirst, hSecond, hHidden, hView, ?_⟩
  have hBounds : Contiguous "doc" 0 3 view := by
    refine Contiguous.join (fun i => match i with | 0 => 0 | 1 => 2 | _ => 3) ?_ hView
    intro i hi
    match i with
    | 0 => exact .hide _ (.ofSpan _ _ _ rfl hFirst) hHidden
    | 1 => exact .ofSpan _ _ _ rfl hSecond
  exact offsets_tile hBounds

end View
end SourceView
