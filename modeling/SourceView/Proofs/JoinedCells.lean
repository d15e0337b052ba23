import SourceView.Proofs.Cells
import SourceView.Proofs.Joining

/-! The cells of a join. Joining keeps all cells of its parts in their order; only markers that meet
become one. A join with separators has one more cell wherever two shown characters would meet of
which neither is a blank, however many views that show nothing stand between them. -/
namespace SourceView

namespace Cell

def wakes : Cell → Bool
  | separator _ _ => false
  | _ => true

/-- Whether a separator is active exactly when a character or a marker precedes it. -/
def Awake (cells : List Cell) : Prop :=
  ∀ before c active after, cells = before ++ separator c active :: after →
    (active = true ↔ ∃ cell ∈ before, cell.wakes = true)

/-- A separator that was woken is active exactly when something wakes it in front. -/
theorem active_of_awaken {awake : Bool} {cells before after : List Cell} {c : Char} {active : Bool}
    (h : awaken awake cells = before ++ separator c active :: after) :
    active = (awake || before.any wakes) := by
  induction cells generalizing awake before with
  | nil => simp [awaken] at h
  | cons cell rest ih =>
      cases before with
      | nil =>
          cases cell <;> simp_all [awaken]
      | cons first tail =>
          cases cell with
          | char position c =>
              obtain ⟨rfl, hRest⟩ := List.cons.inj h
              simpa [wakes] using ih hRest
          | separator other _ =>
              obtain ⟨rfl, hRest⟩ := List.cons.inj h
              simpa [wakes] using ih hRest
          | marker =>
              obtain ⟨rfl, hRest⟩ := List.cons.inj h
              simpa [wakes] using ih hRest

/-- Waking the separators of a sequence leaves each one as it should be. -/
theorem awake_awaken (cells : List Cell) : Awake (awaken false cells) := by
  intro before c active after hCells
  rw [active_of_awaken hCells, Bool.false_or, List.any_eq_true]

end Cell

namespace View
open Token

/-- The last character of the nearest view, from behind, that shows anything. -/
def lastShown? (front : List View) : Option Char := front.reverse.findSome? (·.text.getLast?)

/-- Whether a separator belongs between a view and those in front of it: the view shows something, so
does one in front of it, and neither of the two characters that would meet is a blank. -/
def Divided (front : List View) (view : View) : Prop :=
  ∃ last first, lastShown? front = some last ∧ view.text.head? = some first ∧
    Text.isBlank last = false ∧ Text.isBlank first = false

/-- A separator is needed where a character meets a character and neither is a blank. -/
theorem needsSeparator_iff {last? first? : Option Char} :
    needsSeparator last? first? = true ↔ ∃ last first, last? = some last ∧ first? = some first ∧
      Text.isBlank last = false ∧ Text.isBlank first = false := by
  cases last? <;> cases first? <;> simp [needsSeparator]

theorem divided_iff {front : List View} {view : View} :
    Divided front view ↔ needsSeparator (lastShown? front) view.text.head? = true :=
  needsSeparator_iff.symm

instance (front : List View) (view : View) : Decidable (Divided front view) :=
  decidable_of_iff _ divided_iff.symm

/-- The cells of views that stand behind others, with a separator in front of each view that is
divided from all those in front of it. -/
def spacedCells (blank : Char) (front : List View) : List View → List Cell
  | [] => []
  | view :: rest =>
    (if Divided front view then [.separator blank true] else []) ++ allCells view.tokens ++
      spacedCells blank (front ++ [view]) rest

/-- A view that shows nothing leaves the last shown character as it was. -/
theorem lastShown?_append_singleton (front : List View) (view : View) :
    lastShown? (front ++ [view]) = view.text.getLast?.or (lastShown? front) := by
  rw [lastShown?, List.reverse_append, List.reverse_singleton, List.singleton_append,
    List.findSome?_cons]
  cases view.text.getLast? <;> rfl

/-- The scan that remembers the last shown character puts separators where views are divided. -/
theorem allCells_spacedTokens {separator : Separator} (hActive : separator.active = true)
    (front views : List View) :
    allCells (spacedTokens separator (lastShown? front) views) =
      spacedCells separator.char front views := by
  induction views generalizing front with
  | nil => rfl
  | cons view rest ih =>
      rw [spacedTokens, allCells_append, allCells_append, ← lastShown?_append_singleton, ih,
        spacedCells]
      congr 2
      by_cases hDivided : Divided front view
      · rw [if_pos hDivided, if_pos (divided_iff.1 hDivided), ← hActive]
        rfl
      · rw [if_neg hDivided, if_neg fun h => hDivided (divided_iff.2 h)]
        rfl

variable {domain : Domain} {source : String} {views : List View}

theorem stemFrom_spacedTokens (h : Alike domain source views) (separator : Separator) :
    StemFrom source (spacedTokens separator none views) := by
  refine forall_mem_spacedTokens (fun view hView token hToken => ?_) ⟨rfl, fun _ hSpan => ?_⟩ none
  · exact stemFrom_flatMap h token (List.mem_flatMap.2 ⟨view, hView, hToken⟩)
  · cases hSpan

/-- Several views of one domain are joined with separators by making a view of their tokens. -/
theorem joinWithBlank_eq_ofTokens (h : ∀ view ∈ views, view.domain = domain)
    (hLength : 1 < views.length) {blank : Char} (hBlank : Text.isBlank blank = true) :
    View.joinWithBlank views [blank] =
      (ofTokens domain (spacedTokens ⟨blank, hBlank, true⟩ none views)).map some := by
  match views with
  | first :: second :: rest =>
      simp only [View.joinWithBlank, commonDomain_eq h (List.cons_ne_nil _ _), Separator.make,
        dif_pos hBlank, bind, Except.bind, pure, Except.pure]
      rfl

/-- The cells of a join of several views of one source and domain are those of the views, one view
behind the other, and a join with separators has a separator in front of each view that is divided
from the views in front of it. In both, markers that meet are one, and a separator is active exactly
when a character or a marker precedes it. Only views among which there is no source material at all
cannot be joined. -/
theorem cells_join (hAlike : Alike domain source views) (hLength : 1 < views.length) {blank : Char}
    (hBlank : Text.isBlank blank = true) :
    (Rooted (views.flatMap (·.tokens)) → ∃ joined spaced,
      View.join views = .ok joined ∧ View.joinWithBlank views [blank] = .ok (some spaced) ∧
      allCells joined.tokens =
        Cell.awaken false (Cell.collapse (views.flatMap fun view => allCells view.tokens)) ∧
      allCells spaced.tokens = Cell.awaken false (Cell.collapse (spacedCells blank [] views)) ∧
      Cell.Awake (allCells joined.tokens) ∧ Cell.Awake (allCells spaced.tokens)) ∧
    (¬ Rooted (views.flatMap (·.tokens)) →
      View.join views = .error (.notOneSource []) ∧
        View.joinWithBlank views [blank] = .error (.notOneSource [])) := by
  have hStem := stemFrom_spacedTokens hAlike ⟨blank, hBlank, true⟩
  constructor
  · intro hRooted
    have hNe : views ≠ [] := List.ne_nil_of_length_pos (by omega)
    obtain ⟨joined, hJoined, -, -, hTokens⟩ := exists_join hAlike hNe (.inr hRooted)
    obtain ⟨spaced, hSpaced, -, -, hSpacedTokens⟩ :=
      exists_ofTokens domain hStem (rooted_spacedTokens.2 hRooted)
    have hJoinedCells : allCells joined.tokens =
        Cell.awaken false (Cell.collapse (views.flatMap fun view => allCells view.tokens)) := by
      rw [hTokens, allCells_normalize, allCells, List.flatMap_assoc]
      rfl
    have hSpacedCells : allCells spaced.tokens =
        Cell.awaken false (Cell.collapse (spacedCells blank [] views)) := by
      have hCells := @allCells_spacedTokens ⟨blank, hBlank, true⟩ rfl [] views
      rw [hSpacedTokens, allCells_normalize]
      exact congrArg _ (congrArg _ hCells)
    refine ⟨joined, spaced, hJoined, ?_, hJoinedCells, hSpacedCells, ?_, ?_⟩
    · rw [joinWithBlank_eq_ofTokens hAlike.domain_eq hLength hBlank, hSpaced]
      rfl
    · rw [hJoinedCells]
      exact Cell.awake_awaken _
    · rw [hSpacedCells]
      exact Cell.awake_awaken _
  · intro hNone
    have hNoSpans := spans_eq_nil_of_not_rooted hStem (mt rooted_spacedTokens.1 hNone)
    refine ⟨join_of_not_rooted hAlike hLength hNone, ?_⟩
    rw [joinWithBlank_eq_ofTokens hAlike.domain_eq hLength hBlank,
      ofTokens_of_spans_eq_nil domain hNoSpans]
    rfl

/-- A text between views that show nothing but are marked: the separator stands behind the marker of
the view between the two texts. -/
theorem cells_join_of_marked :
    ∃ part marked, View.ofSource ⟨"doc", ['a']⟩ .plainText = .ok part ∧
      part.mark (.range ⟨0, 1, by decide⟩) = .ok marked ∧
      ∃ joined spaced, View.join [marked, marked, part, marked, part] = .ok joined ∧
        View.joinWithBlank [marked, marked, part, marked, part] = .ok (some spaced) ∧
        allCells joined.tokens = [.marker, .char 0 'a', .marker, .char 0 'a'] ∧
        allCells spaced.tokens =
          [.marker, .char 0 'a', .marker, .separator ' ' true, .char 0 'a'] := by
  refine ⟨_, _, rfl, rfl, ?_⟩
  refine Exists.imp (fun joined => Exists.imp fun spaced h =>
    ⟨h.1, h.2.1, h.2.2.1.trans ?hJoined, h.2.2.2.1.trans ?hSpaced⟩)
    ((@cells_join .plainText "doc" _ ?hAlike ?hLength ' ' ?hBlank).1 ?hRooted)
  case hAlike =>
      unfold Alike
      decide
  case hLength => decide
  case hBlank => rfl
  case hRooted => exact ⟨_, List.mem_cons_self, rfl, rfl⟩
  case hJoined => rfl
  case hSpaced => rfl

/-- Views of an empty excerpt and a separator have cells but cannot be joined. -/
theorem no_join_of_separators :
    ∃ view, View.ofTokens .plainText [.excerpt ⟨⟨⟨0, 0, by decide⟩, "doc"⟩, [], rfl⟩,
        .separator ⟨' ', rfl, true⟩] = .ok view ∧
      Alike .plainText "doc" [view, view] ∧ allCells view.tokens = [.separator ' ' false] ∧
      View.join [view, view] = .error (.notOneSource []) ∧
      View.joinWithBlank [view, view] [' '] = .error (.notOneSource []) :=
  ⟨_, rfl, by simp [Alike], rfl, rfl, rfl⟩

end View
end SourceView
