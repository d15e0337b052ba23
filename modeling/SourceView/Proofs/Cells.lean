import SourceView.Proofs.Atoms

/-! Cells. A view read character by character is a sequence of cells: shown characters, blanks, and
markers where something is unknown. Tokens that differ only in how the source material is divided
have the same cells, and the canonical form can be told from them. -/
namespace SourceView

/-- One place of a view: a character and where it stands in the source, a separator that may be
dormant, or a marker. -/
inductive Cell
  | char (position : Nat) (c : Char)
  | separator (c : Char) (active : Bool)
  | marker
  deriving DecidableEq

namespace Cell

/-- Puts a cell in front of others. Two markers that meet are one. -/
def press (cell : Cell) (cells : List Cell) : List Cell :=
  match cell, cells with
  | marker, marker :: rest => marker :: rest
  | cell, rest => cell :: rest

/-- The cells with every run of neighbouring markers made one. -/
def collapse (cells : List Cell) : List Cell := cells.foldr press []

/-- The cells with each separator active exactly when a character or a marker precedes it; `awake`
says whether that holds at the start. -/
def awaken (awake : Bool) : List Cell → List Cell
  | [] => []
  | char position c :: rest => char position c :: awaken true rest
  | separator c _ :: rest => separator c awake :: awaken awake rest
  | marker :: rest => marker :: awaken true rest

theorem press_marker (cells : List Cell) : press marker (press marker cells) = press marker cells := by
  cases cells with
  | nil => rfl
  | cons cell rest => cases cell <;> rfl

theorem collapse_cons (cell : Cell) (rest : List Cell) :
    collapse (cell :: rest) = press cell (collapse rest) := rfl

theorem collapse_append (before after : List Cell) :
    collapse (before ++ after) = before.foldr press (collapse after) := by
  simp [collapse, List.foldr_append]

/-- What is in front does not tell apart parts that collapse to the same cells. -/
theorem collapse_append_congr (before : List Cell) {after other : List Cell}
    (h : collapse after = collapse other) : collapse (before ++ after) = collapse (before ++ other) := by
  rw [collapse_append, collapse_append, h]

/-- Where there is a marker, there may as well be several. -/
theorem collapse_markers {markers : List Cell} (h : ∀ cell ∈ markers, cell = marker)
    (rest : List Cell) :
    collapse (markers ++ rest) =
      collapse ((if markers.isEmpty then [] else [marker]) ++ rest) := by
  induction markers with
  | nil => rfl
  | cons cell others ih =>
      simp only [List.mem_cons, forall_eq_or_imp] at h
      obtain ⟨rfl, hOthers⟩ := h
      rw [List.cons_append, collapse_cons, ih hOthers]
      cases others with
      | nil => rfl
      | cons other others => exact press_marker _

/-- Of two runs of markers it only counts whether they are empty. -/
theorem collapse_markers_congr {markers others rest tail : List Cell}
    (hMarkers : ∀ cell ∈ markers, cell = marker) (hOthers : ∀ cell ∈ others, cell = marker)
    (hEmpty : markers.isEmpty = others.isEmpty) (h : collapse rest = collapse tail) :
    collapse (markers ++ rest) = collapse (others ++ tail) := by
  rw [collapse_markers hMarkers, collapse_markers hOthers, hEmpty]
  exact collapse_append_congr _ h

/-- Markers that meet may be made one before separators are woken or afterwards. -/
theorem awaken_press (awake : Bool) (cell : Cell) (cells : List Cell) :
    awaken awake (press cell cells) =
      match cell with
      | char position c => char position c :: awaken true cells
      | separator c _ => separator c awake :: awaken awake cells
      | marker => press marker (awaken true cells) := by
  cases cell with
  | char position c => rfl
  | separator c active => rfl
  | marker =>
      cases cells with
      | nil => rfl
      | cons other rest => cases other <;> rfl

/-- Whether separators are active does not depend on how many markers are in front of them. -/
theorem awaken_collapse (awake : Bool) (cells : List Cell) :
    awaken awake (collapse cells) = collapse (awaken awake cells) := by
  induction cells generalizing awake with
  | nil => rfl
  | cons cell rest ih =>
      rw [collapse_cons, awaken_press]
      cases cell <;> simp only [awaken, collapse_cons, ih] <;> rfl

end Cell

namespace Token
open Cell

/-- The cells of a token. A gap that is known has none. -/
def cells : Token → List Cell
  | excerpt e => e.text.mapIdx fun i c => .char (e.span.start + i) c
  | gap g => if g.unknown then [.marker] else []
  | separator s => [.separator s.char s.active]

def allCells (tokens : List Token) : List Cell := tokens.flatMap cells

theorem allCells_cons (token : Token) (rest : List Token) :
    allCells (token :: rest) = token.cells ++ allCells rest := rfl

theorem allCells_append (before after : List Token) :
    allCells (before ++ after) = allCells before ++ allCells after := List.flatMap_append ..

/-- The characters of fused excerpts stand where they stood in the source. -/
theorem cells_append_excerpt {a b : Excerpt} (h : a.span.Adjacent b.span) :
    cells (excerpt (a.append b h)) = cells (excerpt a) ++ cells (excerpt b) := by
  have hStop := a.stop_eq
  have hBetween := h.2
  simp only [cells, Excerpt.append, List.mapIdx_append]
  congr 2
  funext i c
  congr 1
  omega

theorem cells_excerpt_of_ne_nil {e : Excerpt} (h : e.text ≠ []) :
    ∃ position c rest, cells (excerpt e) = .char position c :: rest := by
  cases hText : e.text with
  | nil => exact absurd hText h
  | cons c text => exact ⟨_, c, _, by rw [cells, hText, List.mapIdx_cons]⟩

/-- Excerpts only have characters. -/
theorem char_of_mem_cells {e : Excerpt} {cell : Cell} (h : cell ∈ cells (excerpt e)) :
    ∃ position c, cell = .char position c := by
  obtain ⟨i, hi, rfl⟩ := List.mem_mapIdx.1 h
  exact ⟨_, _, rfl⟩

theorem foldr_press_chars {chars : List Cell}
    (h : ∀ cell ∈ chars, ∃ position c, cell = .char position c) (rest : List Cell) :
    chars.foldr press rest = chars ++ rest := by
  induction chars with
  | nil => rfl
  | cons cell others ih =>
      simp only [List.mem_cons, forall_eq_or_imp] at h
      obtain ⟨⟨position, c, rfl⟩, hOthers⟩ := h
      rw [List.foldr_cons, ih hOthers]
      rfl

/-- A character wakes all separators behind it. -/
theorem awaken_chars {chars : List Cell} (h : ∀ cell ∈ chars, ∃ position c, cell = .char position c)
    (awake : Bool) (rest : List Cell) :
    awaken awake (chars ++ rest) = chars ++ awaken (awake || !chars.isEmpty) rest := by
  induction chars generalizing awake with
  | nil => simp
  | cons cell others ih =>
      simp only [List.mem_cons, forall_eq_or_imp] at h
      obtain ⟨⟨position, c, rfl⟩, hOthers⟩ := h
      rw [List.cons_append, awaken, ih hOthers]
      simp

/-- Attaching a token changes no cell but for markers that meet. -/
theorem collapse_attach (token : Token) (rest : List Token) :
    collapse (allCells (attach token rest)) = collapse (allCells (token :: rest)) := by
  unfold attach
  split
  · next a b tail =>
      split
      · next h => rw [allCells_cons, allCells_cons, allCells_cons, cells_append_excerpt h,
          List.append_assoc]
      · rfl
  · next a b tail =>
      cases hA : a.unknown <;> cases hB : b.unknown <;>
        simp [allCells_cons, cells, Gap.append, hA, hB, collapse_cons, press_marker]
  · rfl

/-- Fused tokens have the same cells, once markers that meet are made one. -/
theorem collapse_fuse (tokens : List Token) :
    collapse (allCells (fuse tokens)) = collapse (allCells tokens) := by
  induction tokens with
  | nil => rfl
  | cons token rest ih =>
      show collapse (allCells (attach token (fuse rest))) = _
      rw [collapse_attach, allCells_cons, allCells_cons]
      exact collapse_append_congr _ ih

/-- Tokens that may stand side by side have no neighbouring markers. -/
theorem collapse_of_separated {tokens : List Token} (hSeparated : Separated tokens)
    (hShows : ∀ token ∈ tokens, token.isEmptyExcerpt = false) :
    collapse (allCells tokens) = allCells tokens := by
  induction tokens with
  | nil => rfl
  | cons token rest ih =>
      simp only [List.mem_cons, forall_eq_or_imp] at hShows
      have hRest : collapse (allCells rest) = allCells rest := by
        refine ih ?_ hShows.2
        cases rest with
        | nil => trivial
        | cons next tail => exact hSeparated.2
      rw [allCells_cons, collapse_append, hRest]
      cases token with
      | separator s => rfl
      | excerpt e => exact foldr_press_chars (fun cell hCell => char_of_mem_cells hCell) _
      | gap g =>
          cases hUnknown : g.unknown with
          | false => simp [cells, hUnknown]
          | true =>
              simp only [cells, hUnknown, if_true, List.foldr_cons, List.foldr_nil]
              cases rest with
              | nil => rfl
              | cons next tail =>
                  cases next with
                  | gap other => exact absurd hSeparated.1 id
                  | separator s => rfl
                  | excerpt e =>
                      have hText : e.text ≠ [] := by
                        simpa [isEmptyExcerpt] using hShows.2 (excerpt e) (by simp)
                      obtain ⟨position, c, others, hCells⟩ := cells_excerpt_of_ne_nil hText
                      rw [allCells_cons, hCells]
                      rfl

/-- Settling the separators of a sequence is waking those among its cells. -/
theorem allCells_settle (awake : Bool) {tokens : List Token}
    (hShows : ∀ token ∈ tokens, token.isEmptyExcerpt = false) :
    allCells (settle awake tokens) = awaken awake (allCells tokens) := by
  induction tokens generalizing awake with
  | nil => rfl
  | cons token rest ih =>
      simp only [List.mem_cons, forall_eq_or_imp] at hShows
      cases token with
      | separator s =>
          rw [settle, allCells_cons, ih _ hShows.2, allCells_cons]
          rfl
      | gap g =>
          rw [settle, allCells_cons, ih _ hShows.2, allCells_cons]
          · cases hUnknown : g.unknown <;> simp [cells, wakes, hUnknown, awaken]
          · intro s hs
            cases hs
      | excerpt e =>
          have hText : e.text ≠ [] := by simpa [isEmptyExcerpt] using hShows.1
          obtain ⟨position, c, others, hCells⟩ := cells_excerpt_of_ne_nil hText
          rw [settle, allCells_cons, ih _ hShows.2, allCells_cons,
            awaken_chars (fun cell hCell => char_of_mem_cells hCell), hCells]
          · rfl
          · intro s hs
            cases hs

/-- A token without an effect has no cells. -/
theorem cells_eq_nil_of_not_effective {token : Token}
    (h : (!token.isEmptyExcerpt && !token.isIdle) = false) : token.cells = [] := by
  cases token with
  | separator s => cases h
  | gap g =>
      cases hUnknown : g.unknown with
      | false => simp [cells, hUnknown]
      | true => simp [isEmptyExcerpt, isIdle, hUnknown] at h
  | excerpt e =>
      have hText : e.text = [] := by simpa [isEmptyExcerpt, isIdle] using h
      simp [cells, hText]

/-- Tokens without an effect have no cells. -/
theorem allCells_effective (tokens : List Token) : allCells (effective tokens) = allCells tokens := by
  induction tokens with
  | nil => rfl
  | cons token rest ih =>
      rw [effective_cons]
      cases hKept : !token.isEmptyExcerpt && !token.isIdle with
      | true =>
          show allCells (token :: effective rest) = _
          rw [allCells_cons, ih, allCells_cons]
      | false =>
          show allCells (effective rest) = _
          rw [ih, allCells_cons, cells_eq_nil_of_not_effective hKept, List.nil_append]

theorem allCells_anchored (tokens : List Token) : allCells (anchored tokens) = allCells tokens := by
  unfold anchored
  split
  · exact allCells_effective tokens
  · cases hFound : tokens.find? isIdle with
    | none => exact allCells_effective tokens
    | some idle =>
        have hIdle : idle.isIdle = true := List.find?_some hFound
        show allCells (idle :: effective tokens) = _
        rw [allCells_cons, allCells_effective, cells_eq_nil_of_not_effective (by simp [hIdle]),
          List.nil_append]

/-- The cells of the canonical form are the cells, with markers that meet made one and separators
active where something precedes them. -/
theorem allCells_normalize (tokens : List Token) :
    allCells (normalize tokens) = awaken false (collapse (allCells tokens)) := by
  have hCanonical := canonical_normalize tokens
  have hShows : ∀ token ∈ anchored tokens, token.isEmptyExcerpt = false :=
    fun token hToken => isEmptyExcerpt_of_mem_anchored hToken
  rw [← collapse_of_separated hCanonical.separated hCanonical.shows, normalize, collapse_fuse,
    allCells_settle false hShows, allCells_anchored, awaken_collapse]

end Token
end SourceView
