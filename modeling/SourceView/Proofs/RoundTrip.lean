import SourceView.Proofs.RangeTranslation

/-! From the view to the source and back. Where no character of the source is shown twice, the shown
offset of a character's source offset is its own, unless an excerpt that ends right in front of the
character in the source stands in front of it in the view, with something shown between the two. From
the source to the view and back the way is always the same, whatever is shown twice or out of order. -/
namespace SourceView.View
open Token

/-- Whether no character of the source is shown twice. -/
def ShownOnce (view : View) : Prop := view.shownRanges.Pairwise fun a b => a.meets b = false

variable {view : View}

/-- Excerpts that show the same character of the source are one. -/
theorem ShownOnce.eq_of_shared (h : ShownOnce view) {start other position : Nat} {e u : Excerpt}
    (he : (start, Token.excerpt e) ∈ placed 0 view.tokens)
    (hu : (other, Token.excerpt u) ∈ placed 0 view.tokens)
    (hPosition : e.span.start ≤ position ∧ position < e.span.stop)
    (hOther : u.span.start ≤ position ∧ position < u.span.stop) : start = other ∧ e = u := by
  have hApart : (placed 0 view.tokens).Pairwise fun a b => ∀ first, excerptRange? a.2 = some first →
      ∀ second, excerptRange? b.2 = some second → first.meets second = false := by
    unfold ShownOnce shownRanges at h
    rw [← map_snd_placed 0 view.tokens, List.filterMap_map] at h
    exact List.pairwise_filterMap.1 h
  have hMeets : e.span.meets u.span.toRange = true := Range.meets_iff.2 ⟨position, by omega⟩
  have hMeetsBack : u.span.meets e.span.toRange = true := Range.meets_iff.2 ⟨position, by omega⟩
  obtain ⟨front, back, hPlaced⟩ := List.append_of_mem he
  rw [hPlaced] at hApart hu
  obtain ⟨-, hBehind, hAcross⟩ := List.pairwise_append.1 hApart
  rcases List.mem_append.1 hu with hFront | hHere
  · have hClear := hAcross _ hFront _ List.mem_cons_self _ rfl _ rfl
    rw [hMeetsBack] at hClear
    cases hClear
  · rcases List.mem_cons.1 hHere with hSame | hBack
    · obtain ⟨rfl, hToken⟩ := Prod.mk.inj hSame
      exact ⟨rfl, (Token.excerpt.inj hToken).symm⟩
    · have hClear := (List.pairwise_cons.1 hBehind).1 _ hBack _ rfl _ rfl
      rw [hMeets] at hClear
      cases hClear

/-- The shown offset of a source offset is that of the first excerpt, in the order of the view, that
has the source offset within or at its end. -/
theorem exists_first_touching {target start : Nat} {e : Excerpt}
    (he : (start, Token.excerpt e) ∈ placed 0 view.tokens) (hStart : e.span.start ≤ target)
    (hStop : target ≤ e.span.stop) :
    ∃ first u, (first, Token.excerpt u) ∈ placed 0 view.tokens ∧ u.span.start ≤ target ∧
      target ≤ u.span.stop ∧ view.shownOffset? target = some (first + (target - u.span.start)) ∧
      ∀ other v, (other, Token.excerpt v) ∈ placed 0 view.tokens → v.span.start ≤ target →
        target ≤ v.span.stop → (other = first ∧ v = u) ∨ first + u.text.length ≤ other := by
  have hTouched (other : Nat) (v : Excerpt) (hOther : v.span.start ≤ target)
      (hEnd : target ≤ v.span.stop) :
      touching? target (other, .excerpt v) = some (other + (target - v.span.start)) :=
    touching?_eq_some_iff.2 ⟨v, rfl, hOther, hEnd, rfl⟩
  cases hFound : view.shownOffset? target with
  | none =>
      have hMissed := List.findSome?_eq_none_iff.1 hFound _ he
      rw [hTouched start e hStart hStop] at hMissed
      cases hMissed
  | some shown =>
      obtain ⟨front, ⟨first, token⟩, back, hPlaced, hFirst, hMissed⟩ :=
        List.findSome?_eq_some_iff.1 hFound
      obtain ⟨u, rfl, hBegins, hEnds, rfl⟩ := touching?_eq_some_iff.1 hFirst
      have hOrder := pairwise_placed 0 view.tokens
      rw [hPlaced] at hOrder
      refine ⟨first, u, by simp [hPlaced], hBegins, hEnds, rfl, fun other v hv hOther hEnd => ?_⟩
      rw [hPlaced] at hv
      rcases List.mem_append.1 hv with hFront | hHere
      · have hNone := hMissed _ hFront
        rw [hTouched other v hOther hEnd] at hNone
        cases hNone
      · rcases List.mem_cons.1 hHere with hSame | hBack
        · obtain ⟨rfl, hToken⟩ := Prod.mk.inj hSame
          exact .inl ⟨rfl, Token.excerpt.inj hToken⟩
        · exact .inr ((List.pairwise_cons.1 (List.pairwise_append.1 hOrder).2.1).1 _ hBack)

theorem text_length_pos {start : Nat} {e : Excerpt}
    (he : (start, Token.excerpt e) ∈ placed 0 view.tokens) : 0 < e.text.length := by
  have hShows := view.canonical.shows _ (mem_of_mem_placed he)
  exact List.length_pos_iff.2 (by simpa [isEmptyExcerpt] using hShows)

/-- Where the character in front of another one in the source is not shown, the excerpt that shows
the other one is found. -/
theorem ShownOnce.shownOffset?_eq (h : ShownOnce view) {offset position : Nat}
    (hShown : ShowsAt view offset position)
    (hNone : ∀ earlier before, ShowsAt view earlier before → before + 1 ≠ position) :
    view.shownOffset? position = some offset := by
  obtain ⟨start, e, i, he, hi, rfl, rfl⟩ := showsAt_iff.1 hShown
  have hStop := e.stop_eq
  obtain ⟨first, u, hu, hBegins, hEnds, hFound, -⟩ :=
    exists_first_touching he (Nat.le_add_right _ i) (by omega)
  have hLength := text_length_pos hu
  have hEnd := u.stop_eq
  rcases Nat.lt_or_eq_of_le hEnds with hInside | hAtEnd
  · obtain ⟨rfl, rfl⟩ := h.eq_of_shared he hu ⟨Nat.le_add_right _ i, by omega⟩ ⟨hBegins, hInside⟩
    rw [hFound, Nat.add_sub_cancel_left]
  · have hLast : ShowsAt view (first + (u.text.length - 1)) (u.span.start + (u.text.length - 1)) :=
      showsAt_iff.2 ⟨first, u, _, hu, by omega, rfl, rfl⟩
    exact absurd (by omega) (hNone _ _ hLast)

/-- Where the character in front of another one in the source is shown as well, the place behind it
is found if it comes first in the view. -/
theorem ShownOnce.shownOffset?_eq_min (h : ShownOnce view) {offset earlier position : Nat}
    (hShown : ShowsAt view offset (position + 1)) (hEarlier : ShowsAt view earlier position) :
    view.shownOffset? (position + 1 : Nat) = some (min offset (earlier + 1)) := by
  obtain ⟨start, e, i, he, hi, rfl, hPosition⟩ := showsAt_iff.1 hShown
  obtain ⟨other, v, j, hv, hj, rfl, rfl⟩ := showsAt_iff.1 hEarlier
  have hStop := e.stop_eq
  have hOtherStop := v.stop_eq
  obtain ⟨first, u, hu, hBegins, hEnds, hFound, hFirst⟩ :=
    @exists_first_touching view (v.span.start + j + 1) _ _ he (by omega) (by omega)
  have hLength := text_length_pos hu
  have hEnd := u.stop_eq
  rw [hFound]
  refine congrArg some ?_
  rcases Nat.lt_or_eq_of_le hEnds with hInside | hAtEnd
  · -- The first excerpt shows the character itself.
    obtain ⟨rfl, rfl⟩ := h.eq_of_shared he hu (by omega) ⟨hBegins, hInside⟩
    rcases hFirst other v hv (by omega) (by omega) with ⟨rfl, rfl⟩ | hBehind
    · omega
    · omega
  · -- The first excerpt ends in front of the character and shows the one before.
    have hShared : v.span.start ≤ v.span.start + j ∧ v.span.start + j < v.span.stop := by omega
    obtain ⟨rfl, rfl⟩ := h.eq_of_shared hv hu hShared (by omega)
    rcases hFirst start e he (by omega) (by omega) with ⟨rfl, rfl⟩ | hBehind
    · omega
    · omega

/-- A shown character of the source leads back to its own shown offset, unless the character in front
of it in the source stands in front of it in the view with something shown between the two. Then the
place behind that character is found. -/
theorem offset_round_trip (hOnce : ShownOnce view) {offset position : Nat}
    (hShown : ShowsAt view offset position) :
    view.sourceOffset offset .behind = .ok position ∧
    ((∀ earlier before, ShowsAt view earlier before → before + 1 = position →
      offset ≤ earlier + 1) → view.shownOffset? position = some offset) ∧
    ∀ earlier before, ShowsAt view earlier before → before + 1 = position → earlier + 1 < offset →
      view.shownOffset? position = some (earlier + 1) := by
  refine ⟨hShown.sourceOffset_behind, fun hNear => ?_, ?_⟩
  · by_cases hSome : ∃ earlier before, ShowsAt view earlier before ∧ before + 1 = position
    · obtain ⟨earlier, before, hEarlier, rfl⟩ := hSome
      rw [hOnce.shownOffset?_eq_min hShown hEarlier, Nat.min_eq_left (hNear _ _ hEarlier rfl)]
    · exact hOnce.shownOffset?_eq hShown fun earlier before hEarlier hNext =>
        hSome ⟨earlier, before, hEarlier, hNext⟩
  · rintro earlier before hEarlier rfl hFar
    rw [hOnce.shownOffset?_eq_min hShown hEarlier, Nat.min_eq_right (Nat.le_of_lt hFar)]

/-- The end of a text in front of the rest of it. -/
theorem offset_round_trip_swapped :
    ∃ first second view,
      View.ofSpan (⟨"doc", ['a', 'b', 'c']⟩ : Source) ⟨⟨2, 3, by decide⟩, "doc"⟩ = .ok first ∧
      View.ofSpan (⟨"doc", ['a', 'b', 'c']⟩ : Source) ⟨⟨0, 2, by decide⟩, "doc"⟩ = .ok second ∧
      View.join [first, second] = .ok view ∧ ShownOnce view ∧ ShowsAt view 0 2 ∧
      view.sourceOffset 0 .behind = .ok 2 ∧ view.shownOffset? 2 = some 0 := by
  have hParts : ∃ first second view,
      View.ofSpan (⟨"doc", ['a', 'b', 'c']⟩ : Source) ⟨⟨2, 3, by decide⟩, "doc"⟩ = .ok first ∧
      View.ofSpan (⟨"doc", ['a', 'b', 'c']⟩ : Source) ⟨⟨0, 2, by decide⟩, "doc"⟩ = .ok second ∧
      View.join [first, second] = .ok view ∧ ShownOnce view ∧ ShowsAt view 0 2 := by
    refine ⟨_, _, _, rfl, rfl, rfl, ?_, [], _, _, 0, rfl, by decide, rfl, rfl⟩
    unfold ShownOnce
    decide
  obtain ⟨first, second, view, hFirst, hSecond, hView, hOnce, hShown⟩ := hParts
  obtain ⟨hBehind, hBack, -⟩ := offset_round_trip hOnce hShown
  exact ⟨first, second, view, hFirst, hSecond, hView, hOnce, hShown, hBehind,
    hBack fun _ _ _ _ => Nat.zero_le _⟩

/-- The offset of the separator is found in place of that of the character behind it. -/
theorem no_offset_round_trip :
    ∃ first second view,
      View.ofSpan (⟨"doc", ['a', 'b']⟩ : Source) ⟨⟨0, 1, by decide⟩, "doc"⟩ = .ok first ∧
      View.ofSpan (⟨"doc", ['a', 'b']⟩ : Source) ⟨⟨1, 2, by decide⟩, "doc"⟩ = .ok second ∧
      View.joinWithBlank [first, second] = .ok (some view) ∧ SourceBuilt view ∧ ShownOnce view ∧
      ShowsAt view 2 1 ∧ view.sourceOffset 2 .behind = .ok 1 ∧ view.shownOffset? 1 = some 1 := by
  have hParts : ∃ first second view,
      View.ofSpan (⟨"doc", ['a', 'b']⟩ : Source) ⟨⟨0, 1, by decide⟩, "doc"⟩ = .ok first ∧
      View.ofSpan (⟨"doc", ['a', 'b']⟩ : Source) ⟨⟨1, 2, by decide⟩, "doc"⟩ = .ok second ∧
      View.joinWithBlank [first, second] = .ok (some view) ∧ ShownOnce view ∧
      ShowsAt view 2 1 ∧ view.sourceOffset 2 .behind = .ok 1 ∧ view.shownOffset? 1 = some 1 := by
    refine ⟨_, _, _, rfl, rfl, rfl, ?_, ⟨[_, _], _, [], 0, rfl, by decide, rfl, rfl⟩, rfl, rfl⟩
    unfold ShownOnce
    decide
  obtain ⟨first, second, view, hFirst, hSecond, hView, hShown⟩ := hParts
  refine ⟨first, second, view, hFirst, hSecond, hView, .joinWithBlank [' '] ?_ hView, hShown⟩
  simp only [List.mem_cons, forall_eq_or_imp]
  exact ⟨.ofSpan _ _ _ hFirst, .ofSpan _ _ _ hSecond, by simp⟩

/-- A shown offset is found at excerpts that touch the source offset, and only there. -/
theorem isSome_touching?_iff {target : Int} {piece : Nat × Token} :
    (touching? target piece).isSome = true ↔
      ∃ e, piece.2 = .excerpt e ∧ (e.span.start : Int) ≤ target ∧ target ≤ e.span.stop := by
  obtain ⟨start, token⟩ := piece
  cases token with
  | gap g => simp [touching?]
  | separator s => simp [touching?]
  | excerpt e => simp [touching?, Range.touches]

/-- A source offset that is at or in some excerpt is an offset of the source behind what is shown. -/
theorem exists_position_of_touching? {target : Int} {piece : Nat × Token} {offset : Nat}
    (h : touching? target piece = some offset) : ∃ position : Nat, target = position := by
  obtain ⟨e, -, hStart, -⟩ := isSome_touching?_iff.1 (Option.isSome_of_eq_some h)
  exact ⟨target.toNat, by omega⟩

/-- The shown offset of an excerpt's source offset is next to a character that the excerpt shows, and
translates back through that character. -/
theorem sourceOffset_of_touching? {position start offset : Nat} {token : Token}
    (hPlaced : (start, token) ∈ placed 0 view.tokens)
    (h : touching? position (start, token) = some offset) :
    offset ≤ view.length ∧ (view.sourceOffset offset .before = .ok position ∨
      view.sourceOffset offset .behind = .ok position) := by
  obtain ⟨e, rfl, hStart, hStop, rfl⟩ := touching?_eq_some_iff.1 h
  have hLength := text_length_pos hPlaced
  have hEnd := e.stop_eq
  dsimp only
  rcases Nat.eq_or_lt_of_le hStart with rfl | hInside
  · have hShown : ShowsAt view start e.span.start :=
      showsAt_iff.2 ⟨start, e, 0, hPlaced, hLength, rfl, rfl⟩
    rw [Nat.sub_self, Nat.add_zero]
    exact ⟨Nat.le_of_lt hShown.lt_length, .inr hShown.sourceOffset_behind⟩
  · obtain ⟨i, rfl⟩ : ∃ i, position = e.span.start + i + 1 :=
      ⟨position - e.span.start - 1, by omega⟩
    have hShown : ShowsAt view (start + i) (e.span.start + i) :=
      showsAt_iff.2 ⟨start, e, i, hPlaced, by omega, rfl, rfl⟩
    have hOffset : start + (e.span.start + i + 1 - e.span.start) = start + i + 1 := by omega
    rw [hOffset]
    exact ⟨hShown.lt_length, .inl hShown.sourceOffset_before⟩

/-- A source offset has a shown offset exactly when it is at or in some excerpt, and is then one of the
two source offsets of that shown offset. -/
theorem source_round_trip (view : View) (target : Int) :
    (view.shownOffset? target = none ↔
      ¬ ∃ e, .excerpt e ∈ view.tokens ∧ (e.span.start : Int) ≤ target ∧ target ≤ e.span.stop) ∧
    ∀ offset, view.shownOffset? target = some offset → offset ≤ view.length ∧
      ∃ position : Nat, target = position ∧
        (view.sourceOffset offset .before = .ok position ∨
          view.sourceOffset offset .behind = .ok position) := by
  constructor
  · rw [shownOffset?, ← Option.not_isSome_iff_eq_none, List.findSome?_isSome_iff]
    simp only [isSome_touching?_iff]
    refine not_congr ⟨?_, ?_⟩
    · rintro ⟨⟨start, token⟩, hPlaced, e, rfl, hTouches⟩
      exact ⟨e, mem_of_mem_placed hPlaced, hTouches⟩
    · rintro ⟨e, hToken, hTouches⟩
      rw [← map_snd_placed 0 view.tokens] at hToken
      obtain ⟨piece, hPlaced, hExcerpt⟩ := List.mem_map.1 hToken
      exact ⟨piece, hPlaced, e, hExcerpt, hTouches⟩
  · intro offset hFound
    obtain ⟨⟨start, token⟩, hPlaced, hTouches⟩ := List.exists_of_findSome?_eq_some hFound
    obtain ⟨position, rfl⟩ := exists_position_of_touching? hTouches
    obtain ⟨hLength, hBack⟩ := sourceOffset_of_touching? hPlaced hTouches
    exact ⟨hLength, position, rfl, hBack⟩

/-- The same text twice with a separator between: the end of the text is found where it is shown first. -/
theorem source_round_trip_repeated :
    ∃ part view, View.ofSource ⟨"doc", ['a', 'b']⟩ .plainText = .ok part ∧
      View.joinWithBlank [part, part] = .ok (some view) ∧ view.shownOffset? 2 = some 2 ∧
      2 ≤ view.length ∧ (view.sourceOffset 2 .before = .ok 2 ∨ view.sourceOffset 2 .behind = .ok 2) := by
  have hParts : ∃ part view, View.ofSource ⟨"doc", ['a', 'b']⟩ .plainText = .ok part ∧
      View.joinWithBlank [part, part] = .ok (some view) ∧ view.shownOffset? 2 = some 2 :=
    ⟨_, _, rfl, rfl, rfl⟩
  obtain ⟨part, view, hPart, hView, hFound⟩ := hParts
  obtain ⟨hLength, position, hPosition, hBack⟩ := (source_round_trip view 2).2 2 hFound
  obtain rfl : position = 2 := by omega
  exact ⟨part, view, hPart, hView, hFound, hLength, hBack⟩

end SourceView.View
