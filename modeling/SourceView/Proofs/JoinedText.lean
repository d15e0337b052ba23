import SourceView.Proofs.JoinedCells
import SourceView.Proofs.ShownCells

/-! The text of a join. A view may hold dormant separators, which its own text does not show. Behind
a view that shows a character or has a marker they wake, so what a join shows of a view depends on
the views in front of it. Where nothing wakes, the text of a join is that of its parts, one behind
the other, and a join with separators divides those texts that are not empty. -/
namespace SourceView

section Lists
variable {α β : Type} {f g : α → List β} {items : List α}

theorem length_flatMap_le_flatMap (h : ∀ item ∈ items, (f item).length ≤ (g item).length) :
    (items.flatMap f).length ≤ (items.flatMap g).length := by
  induction items with
  | nil => exact Nat.le_refl _
  | cons item rest ih =>
      simp only [List.mem_cons, forall_eq_or_imp] at h
      rw [List.flatMap_cons, List.flatMap_cons, List.length_append, List.length_append]
      exact Nat.add_le_add h.1 (ih h.2)

/-- Where no part of the second is shorter, two concatenations are equal only part by part. -/
theorem flatMap_eq_flatMap_iff (h : ∀ item ∈ items, (f item).length ≤ (g item).length) :
    items.flatMap g = items.flatMap f ↔ ∀ item ∈ items, g item = f item := by
  induction items with
  | nil => simp
  | cons item rest ih =>
      simp only [List.mem_cons, forall_eq_or_imp] at h ⊢
      have hRest := length_flatMap_le_flatMap h.2
      rw [List.flatMap_cons, List.flatMap_cons, ← ih h.2]
      constructor
      · intro hEq
        have hLength := congrArg List.length hEq
        rw [List.length_append, List.length_append] at hLength
        exact List.append_inj hEq (by omega)
      · rintro ⟨hItem, hOthers⟩
        rw [hItem, hOthers]

end Lists

namespace Cell

theorem awaken_append (awake : Bool) (before after : List Cell) :
    awaken awake (before ++ after) =
      awaken awake before ++ awaken (awake || before.any wakes) after := by
  induction before generalizing awake with
  | nil => simp [awaken]
  | cons cell rest ih => cases cell <;> simp [awaken, ih, wakes]

/-- Where nothing wakes separators, nothing is shown. -/
theorem shownText_of_still {cells : List Cell} (hAwake : Awake cells)
    (h : ∀ cell ∈ cells, cell.wakes = false) : shownText cells = [] := by
  refine List.flatMap_eq_nil_iff.2 fun cell hCell => ?_
  obtain ⟨before, after, rfl⟩ := List.append_of_mem hCell
  cases cell with
  | char position c => cases h _ hCell
  | marker => rfl
  | separator c active =>
      cases hActive : active with
      | false => rfl
      | true =>
          obtain ⟨other, hOther, hWakes⟩ := (hAwake before c active after rfl).1 hActive
          rw [h other (List.mem_append_left _ hOther)] at hWakes
          cases hWakes

theorem markerOffsets_eq_nil_iff {offset : Nat} {cells : List Cell} :
    markerOffsets offset cells = [] ↔ marker ∉ cells := by
  induction cells generalizing offset with
  | nil => simp [markerOffsets]
  | cons cell rest ih => cases cell <;> simp [markerOffsets, ih]

end Cell

namespace Token

/-- What a token shows, a separator even if it is dormant. -/
def voiced : Token → List Char
  | separator s => [s.char]
  | token => token.shown

def isDormant : Token → Bool
  | separator s => !s.active
  | _ => false

theorem length_shown_le_voiced (token : Token) : token.shown.length ≤ token.voiced.length := by
  cases token with
  | separator s => cases hActive : s.active <;> simp [shown, voiced, hActive]
  | excerpt e => exact Nat.le_refl _
  | gap g => exact Nat.le_refl _

/-- Only a dormant separator is not shown. -/
theorem voiced_eq_shown_iff {token : Token} :
    token.voiced = token.shown ↔ token.isDormant = false := by
  cases token with
  | separator s => cases hActive : s.active <;> simp [shown, voiced, isDormant, hActive]
  | excerpt e => exact iff_of_true rfl rfl
  | gap g => exact iff_of_true rfl rfl

/-- Once awake, all separators are shown. -/
theorem shownText_awaken_true (tokens : List Token) :
    Cell.shownText (Cell.awaken true (allCells tokens)) = tokens.flatMap voiced := by
  induction tokens with
  | nil => rfl
  | cons token rest ih =>
      rw [allCells_cons, Cell.awaken_append, Bool.true_or, Cell.shownText_append, ih,
        List.flatMap_cons]
      congr 1
      cases token with
      | separator s => rfl
      | gap g => cases hUnknown : g.unknown <;> simp [cells, hUnknown, Cell.awaken, Cell.shownText,
          Cell.shown, voiced, shown]
      | excerpt e =>
          have hChars := awaken_chars (fun cell hCell => char_of_mem_cells (e := e) hCell) true []
          rw [List.append_nil] at hChars
          rw [hChars, Cell.awaken, List.append_nil, shownText_cells]
          rfl

end Token

namespace View
open Token

/-- Whether separators behind the view are shown: it shows a character or has a marker. -/
def Stirs (view : View) : Prop := view.text ≠ [] ∨ view.unknownOffsets ≠ []

instance (view : View) : Decidable (Stirs view) := inferInstanceAs (Decidable (_ ∨ _))

def HasDormant (view : View) : Prop := ∃ token ∈ view.tokens, token.isDormant = true

def fullText (view : View) : List Char := view.tokens.flatMap voiced

/-- What a view shows behind others: its text, with the dormant separators once there is something
in front of them. -/
def textBehind (front : List View) (view : View) : List Char :=
  if ∃ other ∈ front, Stirs other then view.fullText else view.text

/-- A view stirs when one of its cells is a character or a marker. -/
theorem stirs_iff {view : View} : Stirs view ↔ (allCells view.tokens).any Cell.wakes = true := by
  rw [Stirs, text_eq_shownText, unknownOffsets_eq_markerOffsets, Ne, Ne,
    Cell.markerOffsets_eq_nil_iff, Classical.not_not]
  constructor
  · intro hStirs
    cases hAny : (allCells view.tokens).any Cell.wakes with
    | true => rfl
    | false =>
        have hStill := List.any_eq_false.1 hAny
        have hAwake := Cell.awake_awaken (allCells view.tokens)
        rw [awaken_allCells] at hAwake
        rcases hStirs with hText | hMarker
        · exact absurd (Cell.shownText_of_still hAwake fun cell hCell =>
            Bool.eq_false_iff.2 (hStill cell hCell)) hText
        · exact absurd rfl (hStill _ hMarker)
  · intro hAny
    obtain ⟨cell, hCell, hWakes⟩ := List.any_eq_true.1 hAny
    cases cell with
    | char position c =>
        exact .inl fun hNone => List.cons_ne_nil c [] (List.flatMap_eq_nil_iff.1 hNone _ hCell)
    | separator c active => cases hWakes
    | marker => exact .inr hCell

/-- Behind views of which one stirs, a view shows its dormant separators too. -/
theorem shownText_awaken (front : List View) (view : View) :
    Cell.shownText (Cell.awaken (decide (∃ other ∈ front, Stirs other)) (allCells view.tokens)) =
      textBehind front view := by
  unfold textBehind
  split
  · next hStirs =>
      rw [decide_eq_true hStirs]
      exact shownText_awaken_true _
  · next hStill =>
      rw [decide_eq_false hStill, awaken_allCells]
      exact shownText_allCells _

/-- A view shows all of its separators unless one of them is dormant. -/
theorem fullText_eq_text_iff {view : View} : view.fullText = view.text ↔ ¬ HasDormant view := by
  unfold fullText text shownText HasDormant
  rw [flatMap_eq_flatMap_iff fun token _ => length_shown_le_voiced token]
  simp [voiced_eq_shown_iff]

theorem length_text_le_fullText (view : View) : view.text.length ≤ view.fullText.length :=
  length_flatMap_le_flatMap fun token _ => length_shown_le_voiced token

def Woken (front : List View) (view : View) : Prop :=
  (∃ other ∈ front, Stirs other) ∧ HasDormant view

/-- A view shows the same behind others unless dormant separators of it wake there. -/
theorem textBehind_eq_text_iff {front : List View} {view : View} :
    textBehind front view = view.text ↔ ¬ Woken front view := by
  unfold textBehind Woken
  split
  · next hStirs => rw [fullText_eq_text_iff, and_iff_right hStirs]
  · next hStill => exact iff_of_true rfl fun hWoken => hStill hWoken.1

theorem length_text_le_textBehind (front : List View) (view : View) :
    view.text.length ≤ (textBehind front view).length := by
  unfold textBehind
  split
  · exact length_text_le_fullText view
  · exact Nat.le_refl _

/-- Views that stand behind others, each with all that stand in front of it. -/
def withFront (front : List View) : List View → List (List View × View)
  | [] => []
  | view :: rest => (front, view) :: withFront (front ++ [view]) rest

def NoneWoken (views : List View) : Prop := ∀ pair ∈ withFront [] views, ¬ Woken pair.1 pair.2

def blankBehind (blank : Char) (front : List View) (view : View) : List Char :=
  if Divided front view then [blank] else []

/-- What a join shows: of each view what it shows behind those in front of it. -/
def joinedText (views : List View) : List Char :=
  (withFront [] views).flatMap fun (front, view) => textBehind front view

/-- What a join with separators shows: the same with a separator in front of each view that is divided
from those in front of it. -/
def spacedText (blank : Char) (views : List View) : List Char :=
  (withFront [] views).flatMap fun (front, view) =>
    blankBehind blank front view ++ textBehind front view

/-- One more view in front wakes separators if it stirs or one before it did. -/
theorem exists_stirs_append_singleton {front : List View} {view : View} :
    decide (∃ other ∈ front ++ [view], Stirs other) =
      (decide (∃ other ∈ front, Stirs other) || (allCells view.tokens).any Cell.wakes) := by
  rw [Bool.eq_iff_iff, Bool.or_eq_true, decide_eq_true_iff, decide_eq_true_iff, ← stirs_iff]
  simp [or_and_right, exists_or]

/-- The text of views one behind the other is what each of them shows behind those in front of it.
The induction takes in how much stands in front of the first view. -/
theorem shownText_awaken_flatMap (front views : List View) :
    Cell.shownText (Cell.awaken (decide (∃ other ∈ front, Stirs other))
        (views.flatMap fun view => allCells view.tokens)) =
      (withFront front views).flatMap fun (front, view) => textBehind front view := by
  induction views generalizing front with
  | nil => rfl
  | cons view rest ih =>
      rw [List.flatMap_cons, Cell.awaken_append, Cell.shownText_append, shownText_awaken,
        ← exists_stirs_append_singleton, ih, withFront, List.flatMap_cons]

/-- A separator only stands where something shown is in front of it. -/
theorem exists_stirs_of_divided {front : List View} {view : View} (h : Divided front view) :
    ∃ other ∈ front, Stirs other := by
  obtain ⟨last, first, hLast, -⟩ := h
  obtain ⟨other, hOther, hText⟩ := List.exists_of_findSome?_eq_some hLast
  refine ⟨other, List.mem_reverse.1 hOther, .inl ?_⟩
  rintro hNone
  rw [hNone] at hText
  cases hText

theorem shownText_awaken_blank (blank : Char) (front : List View) (view : View) :
    Cell.shownText (Cell.awaken (decide (∃ other ∈ front, Stirs other))
        (if Divided front view then [.separator blank true] else [])) =
      blankBehind blank front view := by
  unfold blankBehind
  split
  · next hDivided =>
      rw [decide_eq_true (exists_stirs_of_divided hDivided)]
      rfl
  · rfl

/-- The same with the separators between divided views. -/
theorem shownText_awaken_spacedCells (blank : Char) (front views : List View) :
    Cell.shownText (Cell.awaken (decide (∃ other ∈ front, Stirs other))
        (spacedCells blank front views)) =
      (withFront front views).flatMap fun (front, view) =>
        blankBehind blank front view ++ textBehind front view := by
  induction views generalizing front with
  | nil => rfl
  | cons view rest ih =>
      -- A separator does not wake what stands behind it.
      have hSleeps : (if Divided front view then [Cell.separator blank true] else []).any Cell.wakes =
          false := by split <;> rfl
      rw [spacedCells, Cell.awaken_append, Cell.awaken_append, Cell.shownText_append,
        Cell.shownText_append, shownText_awaken_blank, List.any_append, hSleeps, Bool.or_false,
        Bool.false_or, shownText_awaken, ← exists_stirs_append_singleton, ih, withFront,
        List.flatMap_cons]

def Facing (text next : List Char) : Prop :=
  ∃ last first, text.getLast? = some last ∧ next.head? = some first ∧
    Text.isBlank last = false ∧ Text.isBlank first = false

instance (text next : List Char) : Decidable (Facing text next) :=
  decidable_of_iff _ (@needsSeparator_iff text.getLast? next.head?)

/-- Texts one behind the other with a separator wherever neither of the facing characters is a
blank. -/
def spaceOut (blank : Char) : List (List Char) → List Char
  | [] => []
  | [text] => text
  | text :: next :: rest =>
    text ++ (if Facing text next then [blank] else []) ++ spaceOut blank (next :: rest)

def shownTexts (views : List View) : List (List Char) := (views.map (·.text)).filter (· ≠ [])

theorem shownTexts_cons (view : View) (rest : List View) :
    shownTexts (view :: rest) =
      if view.text = [] then shownTexts rest else view.text :: shownTexts rest := by
  simp only [shownTexts, List.map_cons, List.filter_cons]
  split <;> simp_all

/-- Behind a text, views are divided as those of their texts are that are not empty. -/
theorem flatMap_blankBehind_of_lastShown (blank : Char) {front : List View} {text : List Char}
    (hFront : lastShown? front = text.getLast?) (views : List View) :
    (text ++ (withFront front views).flatMap fun (front, view) =>
      blankBehind blank front view ++ view.text) = spaceOut blank (text :: shownTexts views) := by
  induction views generalizing front text with
  | nil => simp [withFront, shownTexts, spaceOut]
  | cons view rest ih =>
      have hLast := lastShown?_append_singleton front view
      have hBlank : blankBehind blank front view = if Facing text view.text then [blank] else [] := by
        have hDivided : Divided front view ↔ Facing text view.text := by rw [Divided, Facing, hFront]
        simp only [blankBehind, hDivided]
      rw [withFront, List.flatMap_cons, shownTexts_cons]
      simp only [hBlank]
      by_cases hText : view.text = []
      · have hNone : ¬ Facing text view.text := by simp [Facing, hText]
        rw [if_pos hText, if_neg hNone, hText, List.nil_append, List.nil_append]
        apply ih
        rw [hLast, hText, hFront]
        rfl
      · have hTail := @ih (front ++ [view]) view.text
          (by rw [hLast, List.getLast?_eq_some_getLast hText]; rfl)
        rw [if_neg hText, spaceOut, ← hTail, List.append_assoc, List.append_assoc]

/-- Where no view in front shows anything, nothing is put in front of the first text. -/
theorem flatMap_blankBehind_of_none (blank : Char) {front : List View}
    (hFront : lastShown? front = none) (views : List View) :
    ((withFront front views).flatMap fun (front, view) => blankBehind blank front view ++ view.text) =
      spaceOut blank (shownTexts views) := by
  induction views generalizing front with
  | nil => rfl
  | cons view rest ih =>
      have hLast := lastShown?_append_singleton front view
      have hBlank : blankBehind blank front view = [] := by simp [blankBehind, Divided, hFront]
      rw [withFront, List.flatMap_cons, shownTexts_cons]
      simp only [hBlank, List.nil_append]
      by_cases hText : view.text = []
      · rw [if_pos hText, hText, List.nil_append]
        apply ih
        rw [hLast, hText, hFront]
        rfl
      · rw [if_neg hText]
        apply flatMap_blankBehind_of_lastShown
        rw [hLast, List.getLast?_eq_some_getLast hText]
        rfl

/-- Which views stand in front does not matter for the texts of the views themselves. -/
theorem flatMap_text_withFront (front views : List View) :
    ((withFront front views).flatMap fun (_, view) => view.text) = views.flatMap (·.text) := by
  induction views generalizing front with
  | nil => rfl
  | cons view rest ih => rw [withFront, List.flatMap_cons, List.flatMap_cons, ih]

/-- A join shows the texts of its parts one behind the other exactly when no dormant separator
wakes. -/
theorem joinedText_eq_iff {views : List View} :
    joinedText views = views.flatMap (·.text) ↔ NoneWoken views := by
  rw [← flatMap_text_withFront [] views, joinedText,
    flatMap_eq_flatMap_iff fun pair _ => length_text_le_textBehind pair.1 pair.2]
  exact forall₂_congr fun pair _ => textBehind_eq_text_iff

/-- A join with separators divides the texts that are not empty, exactly when no dormant separator
wakes. -/
theorem spacedText_eq_iff {blank : Char} {views : List View} :
    spacedText blank views = spaceOut blank (shownTexts views) ↔ NoneWoken views := by
  rw [← @flatMap_blankBehind_of_none blank [] rfl views, spacedText, flatMap_eq_flatMap_iff]
  · refine forall₂_congr fun pair _ => ?_
    rw [List.append_cancel_left_eq]
    exact textBehind_eq_text_iff
  · intro pair _
    rw [List.length_append, List.length_append]
    exact Nat.add_le_add_left (length_text_le_textBehind pair.1 pair.2) _

variable {domain : Domain} {source : String} {views : List View}

/-- The text of a join of views of one source and domain: each view shows what it shows behind those
in front of it, and a join with separators has one wherever two texts meet of which neither has a
blank there. The result consists of the texts of the views themselves exactly when no view with a
dormant separator stands behind one with a character or a marker. -/
theorem text_join (hAlike : Alike domain source views) (hBuilt : ∀ view ∈ views, SourceBuilt view)
    {blank : Char} (hBlank : Text.isBlank blank = true) :
    (views ≠ [] → ∃ joined, View.join views = .ok joined ∧ joined.text = joinedText views ∧
      (joined.text = views.flatMap (·.text) ↔ NoneWoken views)) ∧
    (1 < views.length → ∃ spaced, View.joinWithBlank views [blank] = .ok (some spaced) ∧
      spaced.text = spacedText blank views ∧
      (spaced.text = spaceOut blank (shownTexts views) ↔ NoneWoken views)) := by
  have hGrounded : ∀ view ∈ views, Grounded view.tokens :=
    fun view hView => (hBuilt view hView).grounded
  constructor
  · intro hNe
    obtain ⟨joined, hJoined, -, -, hTokens⟩ :=
      exists_join hAlike hNe (.inr (rooted_flatMap hNe hGrounded))
    have hText : joined.text = joinedText views := by
      rw [text_eq_shownText, hTokens, allCells_normalize, Cell.awaken_collapse,
        Cell.shownText_collapse, allCells, List.flatMap_assoc]
      exact shownText_awaken_flatMap [] views
    exact ⟨joined, hJoined, hText, by rw [hText, joinedText_eq_iff]⟩
  · intro hLength
    have hNe : views ≠ [] := List.ne_nil_of_length_pos (by omega)
    obtain ⟨spaced, hSpaced, -, -, hTokens⟩ :=
      exists_ofTokens domain (stemFrom_spacedTokens hAlike ⟨blank, hBlank, true⟩)
        (rooted_spacedTokens.2 (rooted_flatMap hNe hGrounded))
    have hCells : allCells (spacedTokens ⟨blank, hBlank, true⟩ none views) =
        spacedCells blank [] views :=
      @allCells_spacedTokens ⟨blank, hBlank, true⟩ rfl [] views
    have hText : spaced.text = spacedText blank views := by
      rw [text_eq_shownText, hTokens, allCells_normalize, Cell.awaken_collapse,
        Cell.shownText_collapse, hCells]
      exact shownText_awaken_spacedCells blank [] views
    refine ⟨spaced, ?_, hText, by rw [hText, spacedText_eq_iff]⟩
    rw [joinWithBlank_eq_ofTokens hAlike.domain_eq hLength hBlank, hSpaced]
    rfl

/-- A view whose separator has been put to sleep, in front of a text and behind it. -/
theorem text_join_of_woken :
    ∃ first second pair dormant,
      View.ofSpan (⟨"doc", ['a', 'b']⟩ : Source) ⟨⟨0, 1, by decide⟩, "doc"⟩ = .ok first ∧
      View.ofSpan (⟨"doc", ['a', 'b']⟩ : Source) ⟨⟨1, 2, by decide⟩, "doc"⟩ = .ok second ∧
      View.joinWithBlank [first, second] = .ok (some pair) ∧
      pair.hide (.range ⟨0, 1, by decide⟩) = .ok dormant ∧
      ∃ joined spaced, View.join [dormant, first, dormant] = .ok joined ∧
        View.joinWithBlank [dormant, first, dormant] = .ok (some spaced) ∧
        joined.text = ['b', 'a', ' ', 'b'] ∧ spaced.text = ['b', ' ', 'a', ' ', ' ', 'b'] := by
  have hParts : ∃ first second pair dormant,
      View.ofSpan (⟨"doc", ['a', 'b']⟩ : Source) ⟨⟨0, 1, by decide⟩, "doc"⟩ = .ok first ∧
      View.ofSpan (⟨"doc", ['a', 'b']⟩ : Source) ⟨⟨1, 2, by decide⟩, "doc"⟩ = .ok second ∧
      View.joinWithBlank [first, second] = .ok (some pair) ∧
      pair.hide (.range ⟨0, 1, by decide⟩) = .ok dormant ∧
      Alike .plainText "doc" [dormant, first, dormant] ∧
      joinedText [dormant, first, dormant] = ['b', 'a', ' ', 'b'] ∧
      spacedText ' ' [dormant, first, dormant] = ['b', ' ', 'a', ' ', ' ', 'b'] := by
    refine ⟨_, _, _, _, rfl, rfl, rfl, rfl, ?_, rfl, rfl⟩
    simp [Alike]
  obtain ⟨first, second, pair, dormant, hFirst, hSecond, hPair, hDormant, hAlike, hJoinedText,
    hSpacedText⟩ := hParts
  have hFirstBuilt := SourceBuilt.ofSpan _ _ _ hFirst
  have hPairBuilt : SourceBuilt pair := by
    refine .joinWithBlank [' '] ?_ hPair
    simpa using ⟨hFirstBuilt, SourceBuilt.ofSpan _ _ _ hSecond⟩
  have hDormantBuilt := SourceBuilt.hide _ hPairBuilt hDormant
  have hBuilt : ∀ view ∈ [dormant, first, dormant], SourceBuilt view := by
    simpa using ⟨hDormantBuilt, hFirstBuilt, hDormantBuilt⟩
  obtain ⟨hJoins, hSpaces⟩ := @text_join _ _ _ hAlike hBuilt ' ' rfl
  obtain ⟨joined, hJoined, hJoinedEq, -⟩ := hJoins (by simp)
  obtain ⟨spaced, hSpaced, hSpacedEq, -⟩ := hSpaces (by simp)
  exact ⟨first, second, pair, dormant, hFirst, hSecond, hPair, hDormant, joined, spaced, hJoined,
    hSpaced, hJoinedEq.trans hJoinedText, hSpacedEq.trans hSpacedText⟩

/-- Behind a text, a separator of which a view shows nothing on its own stands in the join, and a
second one is put in front of it. -/
theorem no_concatenation_of_texts :
    ∃ first second pair dormant joined spaced,
      View.ofSpan (⟨"doc", ['a', 'b']⟩ : Source) ⟨⟨0, 1, by decide⟩, "doc"⟩ = .ok first ∧
      View.ofSpan (⟨"doc", ['a', 'b']⟩ : Source) ⟨⟨1, 2, by decide⟩, "doc"⟩ = .ok second ∧
      View.joinWithBlank [first, second] = .ok (some pair) ∧
      pair.hide (.range ⟨0, 1, by decide⟩) = .ok dormant ∧
      first.text = ['a'] ∧ dormant.text = ['b'] ∧
      View.join [first, dormant] = .ok joined ∧ joined.text = ['a', ' ', 'b'] ∧
      View.joinWithBlank [first, dormant] = .ok (some spaced) ∧ spaced.text = ['a', ' ', ' ', 'b'] ∧
      spaceOut ' ' (shownTexts [first, dormant]) = ['a', ' ', 'b'] :=
  ⟨_, _, _, _, _, _, rfl, rfl, rfl, rfl, rfl, rfl, rfl, rfl, rfl, rfl, rfl⟩

end View
end SourceView
