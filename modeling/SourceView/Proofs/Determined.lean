import SourceView.Proofs.Contiguous
import SourceView.Proofs.Faithful

/-! What determines a view over an unbroken stretch of a source. Such a view can be made again from
the source offsets of its characters and the offsets of its markers alone: between two characters
there is exactly what the source has between them, and it is marked or it is not. Whatever was done
to two such views, they are equal when they show the same. -/
namespace SourceView

namespace Token

def positions : Token → List Nat
  | excerpt e => List.range' e.span.start e.text.length
  | _ => []

def allPositions (tokens : List Token) : List Nat := tokens.flatMap positions

def markerOffsets (offset : Nat) (tokens : List Token) : List Nat :=
  ((placed offset tokens).filter (·.2.isMarker)).map (·.1)

theorem allPositions_append (before after : List Token) :
    allPositions (before ++ after) = allPositions before ++ allPositions after :=
  List.flatMap_append ..

theorem markerOffsets_append (offset : Nat) (before after : List Token) :
    markerOffsets offset (before ++ after) =
      markerOffsets offset before ++ markerOffsets (offset + totalWidth before) after := by
  simp only [markerOffsets, placed_append, List.filter_append, List.map_append]

theorem le_of_mem_markerOffsets {offset place : Nat} {tokens : List Token}
    (h : place ∈ markerOffsets offset tokens) : offset ≤ place := by
  obtain ⟨piece, hPiece, rfl⟩ := List.mem_map.1 h
  exact (start_of_mem_placed (List.mem_filter.1 hPiece).1).1

theorem markerOffsets_atoms_excerpt (offset : Nat) (e : Excerpt) :
    markerOffsets offset (atoms (excerpt e)) = [] := by
  rw [markerOffsets, List.map_eq_nil_iff, List.filter_eq_nil_iff]
  intro piece hPiece
  obtain ⟨u, hToken, -⟩ := mem_atoms_excerpt (mem_of_mem_placed hPiece)
  simp [hToken, isMarker]

/-- The atoms of an excerpt show its source offsets one by one. -/
theorem allPositions_atoms_excerpt (e : Excerpt) :
    allPositions (atoms (excerpt e)) = List.range' e.span.start e.text.length := by
  induction hLength : e.text.length generalizing e with
  | zero => rw [atoms_of_text_nil (List.length_eq_zero_iff.1 hLength)]; rfl
  | succ n ih =>
      have hText : e.text ≠ [] := fun hNil => by simp [hNil] at hLength
      have hStop := e.stop_eq
      have hDrop : (e.drop 1).text.length = n := by simp [Excerpt.drop, hLength]
      have hTake : (e.take 1).text.length = 1 := by simp [Excerpt.take, hLength]
      have hNext : (e.drop 1).span.start = e.span.start + 1 := Nat.min_eq_left (by omega)
      have hFirst : positions (excerpt (e.take 1)) = [e.span.start] := by
        rw [positions, hTake]
        rfl
      rw [atoms_of_text_ne_nil hText, List.range'_succ, ← hNext, ← ih (e.drop 1) hDrop]
      exact congrArg (· ++ allPositions (atoms (excerpt (e.drop 1)))) hFirst

/-- Dividing tokens moves no marker. -/
theorem markerOffsets_atomize (offset : Nat) (tokens : List Token) :
    markerOffsets offset (atomize tokens) = markerOffsets offset tokens := by
  induction tokens generalizing offset with
  | nil => rfl
  | cons token rest ih =>
      have hToken : markerOffsets offset token.atoms = markerOffsets offset [token] := by
        cases token with
        | excerpt e => rw [markerOffsets_atoms_excerpt]; rfl
        | gap g => rfl
        | separator s => rfl
      rw [atomize_cons, ← List.singleton_append, markerOffsets_append, markerOffsets_append, hToken, ih,
        totalWidth_atoms]
      rfl

theorem allPositions_atomize (tokens : List Token) :
    allPositions (atomize tokens) = allPositions tokens := by
  induction tokens with
  | nil => rfl
  | cons token rest ih =>
      have hToken : allPositions token.atoms = allPositions [token] := by
        cases token with
        | excerpt e => exact (allPositions_atoms_excerpt e).trans (List.append_nil _).symm
        | gap g => rfl
        | separator s => rfl
      rw [atomize_cons, ← List.singleton_append, allPositions_append, allPositions_append, hToken, ih]

/-- Atoms leave no gap between them that the tokens did not leave. -/
theorem Tiles.atomize {start stop : Nat} {tokens : List Token} (h : Tiles start tokens stop) :
    Tiles start (atomize tokens) stop := by
  obtain ⟨hChained, hSpans⟩ := tiles_iff.1 h
  refine tiles_iff.2 ⟨(regroups_atomize tokens).chained Span.following_eq hChained, ?_⟩
  exact forall_mem_atomize hSpans (fun _ _ _ => rfl) fun _ _ _ => rfl

/-- The excerpt of one character of a source, which is empty behind the end of the text. -/
def letter (source : Source) (position : Nat) : Token :=
  let text := (source.text.drop position).take 1
  excerpt
    { span := { source := source.id, start := position, stop := position + text.length }
      text
      fits := by simp [Range.length] }

def hole (source : String) (start stop : Nat) (unknown : Bool) : Token :=
  gap ⟨{ source, start, stop := max start stop }, unknown⟩

/-- The tokens over a stretch of a source that show the characters at given source offsets and have
markers at given offsets: each character behind what is hidden in front of it, and what is hidden at
the end. -/
def rebuild (source : Source) (stop : Nat) (markers : List Nat) (start offset : Nat) :
    List Nat → List Token
  | [] => [hole source.id start stop (decide (offset ∈ markers))]
  | position :: rest =>
    hole source.id start position (decide (offset ∈ markers)) :: letter source position ::
      rebuild source stop markers (position + 1) (offset + 1) rest

/-- Atoms that follow a source without a break, no two gaps side by side. -/
structure Strung (source : Source) (start : Nat) (tokens : List Token) (stop : Nat) : Prop where
  tiles : Tiles start tokens stop
  apart : GapsApart tokens
  busy : ∀ token ∈ tokens, token.isEmptyExcerpt = false ∧ token.isIdle = false
  narrow : ∀ token ∈ tokens, token.width ≤ 1
  faithful : ∀ token ∈ tokens, Faithful source token

variable {source : Source} {start stop : Nat} {tokens : List Token}

def AtMostGap (tokens : List Token) : Prop := tokens = [] ∨ ∃ g, tokens = [gap g]

/-- There is at most one gap in front of the first character, if there is any character. -/
theorem Strung.exists_front (h : Strung source start tokens stop) :
    ∃ front back, tokens = front ++ back ∧ AtMostGap front ∧
      (back = [] ∨ ∃ e rest, back = excerpt e :: rest) := by
  cases tokens with
  | nil => exact ⟨[], [], rfl, .inl rfl, .inl rfl⟩
  | cons token rest =>
      have hFirst := h.tiles.isSeparator token List.mem_cons_self
      cases token with
      | separator s => cases hFirst
      | excerpt e => exact ⟨[], _, rfl, .inl rfl, .inr ⟨e, rest, rfl⟩⟩
      | gap g =>
          refine ⟨[gap g], rest, rfl, .inr ⟨g, rfl⟩, ?_⟩
          cases rest with
          | nil => exact .inl rfl
          | cons next tail =>
              have hNext := h.tiles.isSeparator next (by simp)
              cases next with
              | separator s => cases hNext
              | gap other => exact absurd h.apart id
              | excerpt e => exact .inr ⟨e, tail, rfl⟩

/-- A gap is what lies hidden between its ends. -/
theorem hole_eq {g : Gap} (hSource : g.anchor.source = source.id) :
    hole source.id g.anchor.start g.anchor.stop g.unknown = gap g := by
  have hAnchor : (⟨⟨g.anchor.start, max g.anchor.start g.anchor.stop, by omega⟩, source.id⟩ : Span) =
      g.anchor := Span.eq_of_parts hSource.symm rfl (Nat.max_eq_right g.anchor.ordered)
  rw [hole, hAnchor]

/-- What is hidden in front of a character is told by its extent and by whether it is marked. Where
nothing is hidden or marked, the hole has no effect. -/
theorem effective_hole {front : List Token} (hFront : AtMostGap front) (hTiles : Tiles start front stop)
    (hBusy : ∀ token ∈ front, token.isIdle = false)
    (hFaithful : ∀ token ∈ front, Faithful source token) :
    effective [hole source.id start stop (front.any isMarker)] = front := by
  rcases hFront with rfl | ⟨g, rfl⟩
  · obtain rfl : start = stop := hTiles
    simp [effective, hole, isEmptyExcerpt, isIdle, Range.isCaret]
  · obtain ⟨span, hSpan, rfl, rfl⟩ := hTiles
    cases hSpan
    have hMarker : [gap g].any isMarker = g.unknown := by simp [isMarker]
    rw [hMarker, hole_eq (hFaithful _ List.mem_cons_self).1]
    exact effective_eq_self (by simpa [isEmptyExcerpt] using hBusy)

/-- A faithful excerpt of one character is the one at its place in the source. -/
theorem letter_eq {e : Excerpt} (hFaithful : Faithful source (excerpt e)) (hOne : e.text.length = 1) :
    letter source e.span.start = excerpt e := by
  obtain ⟨⟨hSource, hStop⟩, hText⟩ := hFaithful
  have hEnd := e.stop_eq
  have hSame : (source.text.drop e.span.start).take 1 = e.text := by
    rw [hText, List.take_drop, hEnd, hOne]
  rw [letter]
  refine congrArg excerpt (Excerpt.eq_of_parts hSource.symm rfl ?_ hSame)
  simp only [hSame, hEnd]

/-- Behind a character the source goes on with the next one. -/
theorem Strung.behind {front rest : List Token} {e : Excerpt}
    (h : Strung source start (front ++ excerpt e :: rest) stop) :
    Tiles start front e.span.start ∧ Strung source e.span.stop rest stop ∧ e.text.length = 1 ∧
      Faithful source (excerpt e) := by
  obtain ⟨middle, hFront, span, hSpan, rfl, hRest⟩ := tiles_append.1 h.tiles
  cases hSpan
  have hLater (token : Token) (hToken : token ∈ rest) : token ∈ front ++ excerpt e :: rest := by
    simp [hToken]
  have hHere : excerpt e ∈ front ++ excerpt e :: rest := by simp
  refine ⟨hFront, ⟨hRest, h.apart.right.tail, fun token hToken => h.busy token (hLater token hToken),
    fun token hToken => h.narrow token (hLater token hToken),
    fun token hToken => h.faithful token (hLater token hToken)⟩, ?_, h.faithful _ hHere⟩
  have hWide : e.text ≠ [] := by simpa [isEmptyExcerpt] using (h.busy _ hHere).1
  have hNarrow : e.text.length ≤ 1 := h.narrow _ hHere
  have hPositive := List.length_pos_iff.2 hWide
  omega

theorem markerOffsets_excerpt_cons (offset : Nat) {e : Excerpt} (hOne : e.text.length = 1)
    (rest : List Token) :
    markerOffsets offset (excerpt e :: rest) = markerOffsets (offset + 1) rest := by
  rw [markerOffsets, placed, width_excerpt, hOne, List.filter_cons_of_neg (by simp [isMarker])]
  rfl

theorem allPositions_excerpt_cons {e : Excerpt} (hOne : e.text.length = 1) (rest : List Token) :
    allPositions (excerpt e :: rest) = e.span.start :: allPositions rest := by
  rw [allPositions, List.flatMap_cons, positions, hOne]
  rfl

variable {front back : List Token}

theorem allPositions_front (hFront : AtMostGap front) :
    allPositions (front ++ back) = allPositions back := by
  rcases hFront with rfl | ⟨g, rfl⟩ <;> rfl

/-- A gap in front of others has its marker at the offset where all of them begin. -/
theorem mem_markerOffsets_front {offset place : Nat} (hFront : AtMostGap front) :
    place ∈ markerOffsets offset (front ++ back) ↔
      (place = offset ∧ front.any isMarker = true) ∨ place ∈ markerOffsets offset back := by
  rcases hFront with rfl | ⟨g, rfl⟩
  · simp
  · have hWidth : totalWidth [gap g] = 0 := rfl
    rw [markerOffsets_append, List.mem_append, hWidth, Nat.add_zero]
    cases hUnknown : g.unknown <;> simp [markerOffsets, placed, isMarker, hUnknown]

/-- What is hidden in front of others is marked where they have no marker at the same offset. -/
theorem decide_mem_markers {offset : Nat} {markers : List Nat}
    (hFront : AtMostGap front)
    (hMarkers : offset ∈ markers ↔ offset ∈ markerOffsets offset (front ++ back))
    (hBack : offset ∉ markerOffsets offset back) :
    decide (offset ∈ markers) = front.any isMarker := by
  rw [Bool.eq_iff_iff, decide_eq_true_iff, hMarkers, mem_markerOffsets_front hFront, or_iff_left hBack]
  simp

/-- Made again from what they show, the tokens only have gaps without effect among them. -/
theorem Strung.effective_rebuild (h : Strung source start tokens stop) {offset : Nat}
    {markers : List Nat}
    (hMarkers : ∀ place, offset ≤ place → (place ∈ markers ↔ place ∈ markerOffsets offset tokens)) :
    effective (rebuild source stop markers start offset (allPositions tokens)) = tokens := by
  induction hPositions : allPositions tokens generalizing start offset tokens with
  | nil =>
      obtain ⟨front, back, rfl, hFront, rfl | ⟨e, rest, rfl⟩⟩ := h.exists_front
      · have hFlag := decide_mem_markers hFront (hMarkers offset (Nat.le_refl _))
          (by simp [markerOffsets, placed])
        rw [List.append_nil] at h ⊢
        rw [rebuild, hFlag]
        exact effective_hole hFront h.tiles (fun token hToken => (h.busy token hToken).2) h.faithful
      · rw [allPositions_front hFront, allPositions_excerpt_cons h.behind.2.2.1] at hPositions
        cases hPositions
  | cons position later ih =>
      obtain ⟨front, back, rfl, hFront, rfl | ⟨e, rest, rfl⟩⟩ := h.exists_front
      · rw [allPositions_front hFront] at hPositions
        cases hPositions
      · obtain ⟨hHidden, hRest, hOne, hFaithful⟩ := h.behind
        rw [allPositions_front hFront, allPositions_excerpt_cons hOne] at hPositions
        obtain ⟨rfl, hLater⟩ := List.cons.inj hPositions
        have hBehind : offset ∉ markerOffsets offset (excerpt e :: rest) := by
          rw [markerOffsets_excerpt_cons _ hOne]
          exact fun hMem => Nat.not_succ_le_self offset (le_of_mem_markerOffsets hMem)
        have hFlag := decide_mem_markers hFront (hMarkers offset (Nat.le_refl _)) hBehind
        have hHole : effective [hole source.id start e.span.start (front.any isMarker)] = front :=
          effective_hole hFront hHidden
            (fun token hToken => (h.busy token (List.mem_append_left _ hToken)).2)
            fun token hToken => h.faithful token (List.mem_append_left _ hToken)
        have hLetter : effective [excerpt e] = [excerpt e] :=
          effective_eq_self (by simpa using h.busy (excerpt e) (by simp))
        -- Behind the character all markers are those of the rest.
        have hMarkersBehind (place : Nat) (hPlace : offset + 1 ≤ place) :
            place ∈ markers ↔ place ∈ markerOffsets (offset + 1) rest := by
          rw [hMarkers place (by omega), mem_markerOffsets_front hFront,
            markerOffsets_excerpt_cons _ hOne, or_iff_right fun hSame => by omega]
        have hStop : e.span.stop = e.span.start + 1 := by rw [e.stop_eq, hOne]
        have hTail := ih (hStop ▸ hRest) hMarkersBehind hLater
        rw [rebuild, hFlag, letter_eq hFaithful hOne, ← List.singleton_append, effective_append, hHole,
          ← List.singleton_append, effective_append, hLetter, hTail]
        rfl

end Token

namespace View
open Token

def shownPositions (view : View) : List Nat := allPositions view.tokens

variable {source : Source} {start stop : Nat}

/-- A view that is built from a source carries its name. -/
theorem BuiltFrom.source_eq {view : View} (h : BuiltFrom source view) : view.source = source.id := by
  obtain ⟨token, hToken, hSpan⟩ := rooted_iff.1 h.grounded.rooted
  obtain ⟨span, hSpan⟩ := Option.isSome_iff_exists.1 hSpan
  rw [← view.sourced token hToken span hSpan]
  exact ((h.faithful token hToken).within hSpan).1

/-- A view over a stretch of a source is made again from what it shows of that stretch. -/
theorem Contiguous.tokens_eq {view : View} (hView : Contiguous source.id start stop view)
    (hSource : BuiltFrom source view) :
    view.tokens =
      normalize (rebuild source stop view.unknownOffsets start 0 view.shownPositions) := by
  obtain ⟨hGrounded, hTiles⟩ := hView.grounded_and_tiles
  have hFaithful := hSource.faithful
  rcases view.canonical.cases with hAll | ⟨g, rest, hTokens, hIdle, hSeparators, -⟩
  · have hKept : effective (atomize view.tokens) = atomize view.tokens := by
      rw [effective_atomize, hAll]
    have hStrung : Strung source start (atomize view.tokens) stop := {
      tiles := hTiles.atomize
      apart := gapsApart_atomize view.canonical.separated view.canonical.shows
      busy := fun token hToken => (mem_effective.1 (hKept ▸ hToken)).2
      narrow := fun token hToken => (mem_atomize hToken).2.1
      faithful := faithful_atomize hFaithful }
    have hMarkers (place : Nat) (_ : 0 ≤ place) :
        place ∈ view.unknownOffsets ↔ place ∈ markerOffsets 0 (atomize view.tokens) := by
      rw [markerOffsets_atomize]
      rfl
    have hRebuilt := hStrung.effective_rebuild hMarkers
    rw [allPositions_atomize] at hRebuilt
    have hTied : Tied (atomize view.tokens) := by
      obtain ⟨token, hToken, hSpan⟩ := rooted_iff.1 hGrounded.rooted
      rw [tied_atomize]
      exact ⟨token, hAll.symm ▸ hToken, hSpan⟩
    rw [shownPositions, normalize_congr hTied (hRebuilt.trans hKept.symm), normalize_atomize,
      normalize_of_canonical view.canonical]
  · -- Nothing is shown or hidden, and the one idle gap tells where.
    obtain rfl : rest = [] := by
      refine List.eq_nil_iff_forall_not_mem.2 fun token hToken => ?_
      have hNot := hTiles.isSeparator token (by simp [hTokens, hToken])
      rw [hSeparators token hToken] at hNot
      cases hNot
    have hSource : g.anchor.source = source.id := (hFaithful (gap g) (by simp [hTokens])).1
    rw [hTokens] at hTiles
    obtain ⟨span, hSpan, rfl, rfl⟩ := hTiles
    cases hSpan
    have hKnown : g.unknown = false := by
      simp only [isIdle, Bool.and_eq_true, Bool.not_eq_true'] at hIdle
      exact hIdle.1
    have hPositions : view.shownPositions = [] := by
      rw [shownPositions, hTokens]
      rfl
    have hFlag : decide (0 ∈ view.unknownOffsets) = g.unknown := by
      simp [unknownOffsets, hTokens, placed, isMarker, hKnown]
    rw [hPositions, rebuild, hFlag, hole_eq hSource, ← hTokens, normalize_of_canonical view.canonical]

/-- Two views over the same stretch of the same source, of one domain, are equal when they show the
same characters of it and have markers at the same offsets, whatever was hidden, marked, trimmed and
joined to make them. -/
theorem eq_of_contiguous {a b : View} (hA : Contiguous source.id start stop a)
    (hB : Contiguous source.id start stop b) (hSourceA : BuiltFrom source a)
    (hSourceB : BuiltFrom source b) (hDomain : a.domain = b.domain)
    (hShown : a.shownPositions = b.shownPositions) (hUnknown : a.unknownOffsets = b.unknownOffsets) :
    a = b := by
  apply eq_of_parts hDomain
  · rw [hSourceA.source_eq, hSourceB.source_eq]
  · rw [hA.tokens_eq hSourceA, hB.tokens_eq hSourceB, hShown, hUnknown]

/-- A text with a character marked, once as a whole and once joined from its characters. -/
theorem eq_of_contiguous_joined :
    ∃ whole marked first second third unknown joined,
      View.ofSpan (⟨"doc", ['a', 'b', 'c']⟩ : Source) ⟨⟨0, 3, by decide⟩, "doc"⟩ = .ok whole ∧
      whole.mark (.range ⟨1, 2, by decide⟩) = .ok marked ∧
      View.ofSpan (⟨"doc", ['a', 'b', 'c']⟩ : Source) ⟨⟨0, 1, by decide⟩, "doc"⟩ = .ok first ∧
      View.ofSpan (⟨"doc", ['a', 'b', 'c']⟩ : Source) ⟨⟨1, 2, by decide⟩, "doc"⟩ = .ok second ∧
      View.ofSpan (⟨"doc", ['a', 'b', 'c']⟩ : Source) ⟨⟨2, 3, by decide⟩, "doc"⟩ = .ok third ∧
      second.mark (.range ⟨0, 1, by decide⟩) = .ok unknown ∧
      View.join [first, unknown, third] = .ok joined ∧ marked = joined := by
  have hParts : ∃ whole marked first second third unknown joined,
      View.ofSpan (⟨"doc", ['a', 'b', 'c']⟩ : Source) ⟨⟨0, 3, by decide⟩, "doc"⟩ = .ok whole ∧
      whole.mark (.range ⟨1, 2, by decide⟩) = .ok marked ∧
      View.ofSpan (⟨"doc", ['a', 'b', 'c']⟩ : Source) ⟨⟨0, 1, by decide⟩, "doc"⟩ = .ok first ∧
      View.ofSpan (⟨"doc", ['a', 'b', 'c']⟩ : Source) ⟨⟨1, 2, by decide⟩, "doc"⟩ = .ok second ∧
      View.ofSpan (⟨"doc", ['a', 'b', 'c']⟩ : Source) ⟨⟨2, 3, by decide⟩, "doc"⟩ = .ok third ∧
      second.mark (.range ⟨0, 1, by decide⟩) = .ok unknown ∧
      View.join [first, unknown, third] = .ok joined ∧ marked.domain = joined.domain ∧
      marked.shownPositions = joined.shownPositions ∧ marked.unknownOffsets = joined.unknownOffsets :=
    ⟨_, _, _, _, _, _, _, rfl, rfl, rfl, rfl, rfl, rfl, rfl, rfl, rfl, rfl⟩
  obtain ⟨whole, marked, first, second, third, unknown, joined, hWhole, hMarked, hFirst, hSecond,
    hThird, hUnknown, hJoined, hDomain, hShown, hOffsets⟩ := hParts
  refine ⟨whole, marked, first, second, third, unknown, joined, hWhole, hMarked, hFirst, hSecond,
    hThird, hUnknown, hJoined, ?_⟩
  have hServes := Source.serves ⟨"doc", ['a', 'b', 'c']⟩
  refine @eq_of_contiguous ⟨"doc", ['a', 'b', 'c']⟩ 0 3 _ _ (.mark _ (.ofSpan _ _ _ rfl hWhole) hMarked)
    ?hBounds (.mark _ (.ofSpan _ hServes _ rfl _ hWhole) hMarked) ?hBuilt hDomain hShown hOffsets
  case hBounds =>
      refine Contiguous.join id (fun i hi => ?_) hJoined
      match i with
      | 0 => exact .ofSpan _ _ _ rfl hFirst
      | 1 => exact .mark _ (.ofSpan _ _ _ rfl hSecond) hUnknown
      | 2 => exact .ofSpan _ _ _ rfl hThird
  case hBuilt =>
      refine .join ?_ hJoined
      simp only [List.mem_cons, forall_eq_or_imp]
      exact ⟨.ofSpan _ hServes _ rfl _ hFirst, .mark _ (.ofSpan _ hServes _ rfl _ hSecond) hUnknown,
        .ofSpan _ hServes _ rfl _ hThird, by simp⟩

end View
end SourceView
