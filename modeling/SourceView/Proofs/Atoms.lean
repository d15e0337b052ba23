import SourceView.Exclusion.Sweep
import SourceView.Proofs.Canonical
import SourceView.Proofs.Placed

/-! Tokens of at most one character. Every sequence can be divided into such atoms without a change
of its canonical form, and no cut can divide an atom any further. What exclusions do to a sequence
is therefore decided by what they do to its atoms. -/
namespace SourceView

theorem Span.eq_of_parts {a b : Span} (hSource : a.source = b.source) (hStart : a.start = b.start)
    (hStop : a.stop = b.stop) : a = b := by
  obtain ⟨⟨aStart, aStop, aOrdered⟩, aSource⟩ := a
  obtain ⟨⟨bStart, bStop, bOrdered⟩, bSource⟩ := b
  simp_all

namespace Excerpt

theorem eq_of_parts {a b : Excerpt} (hSource : a.span.source = b.span.source)
    (hStart : a.span.start = b.span.start) (hStop : a.span.stop = b.span.stop)
    (hText : a.text = b.text) : a = b := by
  have hSpan := Span.eq_of_parts hSource hStart hStop
  obtain ⟨aSpan, aText, aFits⟩ := a
  obtain ⟨bSpan, bText, bFits⟩ := b
  simp_all

/-- An excerpt spans as many offsets of the source as it has characters. -/
theorem stop_eq (e : Excerpt) : e.span.stop = e.span.start + e.text.length := by
  have hFits := e.fits
  have hOrdered := e.span.ordered
  simp only [Range.length] at hFits
  omega

theorem take_adjacent_drop (e : Excerpt) (n : Nat) :
    (e.take n).span.Adjacent (e.drop n).span := ⟨rfl, rfl⟩

/-- An excerpt is made of its two parts again. -/
theorem take_append_drop (e : Excerpt) (n : Nat) :
    (e.take n).append (e.drop n) (e.take_adjacent_drop n) = e :=
  eq_of_parts rfl rfl rfl (List.take_append_drop n e.text)

theorem drop_zero (e : Excerpt) : e.drop 0 = e := by
  refine eq_of_parts rfl ?_ rfl rfl
  exact Nat.min_eq_left e.span.ordered

theorem drop_drop (e : Excerpt) (m n : Nat) : (e.drop m).drop n = e.drop (m + n) := by
  refine eq_of_parts rfl ?_ rfl ?_
  · simp only [drop, Span.drop]
    omega
  · simp [drop, List.drop_drop]

/-- A cut at the end or behind it leaves the whole excerpt in front. -/
theorem take_of_length_le {e : Excerpt} {n : Nat} (h : e.text.length ≤ n) : e.take n = e := by
  have hStop := e.stop_eq
  refine eq_of_parts rfl rfl ?_ (List.take_of_length_le h)
  simp only [take, Span.take]
  omega

/-- What a cut within the first of two fused excerpts leaves in front does not depend on the second. -/
theorem take_append {a b : Excerpt} (h : a.span.Adjacent b.span) {n : Nat}
    (hn : n ≤ a.text.length) : (a.append b h).take n = a.take n := by
  have hStopA := a.stop_eq
  have hStopB := b.stop_eq
  have hBetween := h.2
  refine eq_of_parts rfl rfl ?_ (List.take_append_of_le_length hn)
  simp only [take, Span.take, append]
  omega

theorem drop_adjacent {a b : Excerpt} (h : a.span.Adjacent b.span) (n : Nat) :
    (a.drop n).span.Adjacent b.span := h

/-- What such a cut leaves behind is the rest of the first excerpt fused with the second. -/
theorem drop_append {a b : Excerpt} (h : a.span.Adjacent b.span) {n : Nat}
    (hn : n ≤ a.text.length) :
    (a.append b h).drop n = (a.drop n).append b (drop_adjacent h n) := by
  have hStopA := a.stop_eq
  have hStopB := b.stop_eq
  have hBetween := h.2
  refine eq_of_parts rfl ?_ rfl (List.drop_append_of_le_length hn)
  simp only [drop, Span.drop, append]
  omega

end Excerpt

namespace Token

/-- The tokens of one character each that an excerpt is made of. Other tokens are not divided. -/
def atoms : Token → List Token
  | excerpt e => (List.range e.text.length).map fun i => excerpt ((e.drop i).take 1)
  | other => [other]

def atomize (tokens : List Token) : List Token := tokens.flatMap atoms

theorem atoms_of_text_nil {e : Excerpt} (h : e.text = []) : atoms (excerpt e) = [] := by
  simp [atoms, h]

/-- The first atom of an excerpt is its first character. -/
theorem atoms_of_text_ne_nil {e : Excerpt} (h : e.text ≠ []) :
    atoms (excerpt e) = excerpt (e.take 1) :: atoms (excerpt (e.drop 1)) := by
  obtain ⟨n, hn⟩ := Nat.exists_eq_succ_of_ne_zero (mt List.length_eq_zero_iff.1 h)
  have hDrop : (e.drop 1).text.length = n := by
    simp [Excerpt.drop, hn]
  simp only [atoms, hn, hDrop, List.range_succ_eq_map, List.map_cons, List.map_map, e.drop_zero]
  congr 2
  funext i
  simp [Excerpt.drop_drop, Nat.add_comm]

/-- An excerpt that continues another adds its own atoms. -/
theorem atoms_append {a b : Excerpt} (h : a.span.Adjacent b.span) :
    atoms (excerpt (a.append b h)) = atoms (excerpt a) ++ atoms (excerpt b) := by
  induction hLength : a.text.length generalizing a with
  | zero =>
      have hNil : a.text = [] := List.length_eq_zero_iff.1 hLength
      have hStop := a.stop_eq
      have hStart : a.span.start = b.span.start := by
        rw [← h.2]
        omega
      have hSame : a.append b h = b := Excerpt.eq_of_parts h.1 hStart rfl (by simp [Excerpt.append, hNil])
      rw [hSame, atoms_of_text_nil hNil, List.nil_append]
  | succ n ih =>
      have hText : a.text ≠ [] := fun hNil => by simp [hNil] at hLength
      have hWhole : (a.append b h).text ≠ [] := by simp [Excerpt.append, hText]
      have hDrop : (a.drop 1).text.length = n := by simp [Excerpt.drop, hLength]
      rw [atoms_of_text_ne_nil hWhole, atoms_of_text_ne_nil hText, Excerpt.take_append h (by omega),
        Excerpt.drop_append h (by omega), ih (Excerpt.drop_adjacent h 1) hDrop, List.cons_append]

/-- A cut goes between two atoms. -/
theorem atoms_take_append_atoms_drop (e : Excerpt) (n : Nat) :
    atoms (excerpt (e.take n)) ++ atoms (excerpt (e.drop n)) = atoms (excerpt e) := by
  rw [← atoms_append (e.take_adjacent_drop n), e.take_append_drop]

/-- The atoms of an excerpt fuse to the excerpt. -/
theorem foldr_attach_atoms {e : Excerpt} (h : e.text ≠ []) (rest : List Token) :
    (atoms (excerpt e)).foldr attach rest = attach (excerpt e) rest := by
  induction hLength : e.text.length generalizing e with
  | zero => exact absurd (List.length_eq_zero_iff.1 hLength) h
  | succ n ih =>
      have hDrop : (e.drop 1).text.length = n := by simp [Excerpt.drop, hLength]
      rw [atoms_of_text_ne_nil h, List.foldr_cons]
      by_cases hRest : (e.drop 1).text = []
      · rw [atoms_of_text_nil hRest, List.foldr_nil]
        have hOne : e.text.length ≤ 1 := by
          rw [hRest, List.length_nil] at hDrop
          omega
        rw [Excerpt.take_of_length_le hOne]
      · rw [ih hRest hDrop, ← attach_append_excerpt (e.take_adjacent_drop 1), e.take_append_drop]

/-- The atoms of an excerpt are excerpts of one character. -/
theorem mem_atoms_excerpt {e : Excerpt} {token : Token} (h : token ∈ atoms (excerpt e)) :
    ∃ u : Excerpt, token = excerpt u ∧ u.text.length = 1 := by
  obtain ⟨i, hi, rfl⟩ := List.mem_map.1 h
  have hi : i < e.text.length := List.mem_range.1 hi
  refine ⟨_, rfl, ?_⟩
  simp only [Excerpt.take, Excerpt.drop, List.length_take, List.length_drop]
  omega

/-- What holds of all tokens holds of their atoms, if it holds of parts of excerpts. -/
theorem forall_mem_atomize {p : Token → Prop} {tokens : List Token} (hTokens : ∀ t ∈ tokens, p t)
    (hTake : ∀ e n, p (excerpt e) → p (excerpt (e.take n)))
    (hDrop : ∀ e n, p (excerpt e) → p (excerpt (e.drop n))) : ∀ t ∈ atomize tokens, p t := by
  intro atom hAtom
  obtain ⟨token, hToken, hAtom⟩ := List.mem_flatMap.1 hAtom
  have hWhole := hTokens token hToken
  cases token with
  | gap g =>
      obtain rfl := List.mem_singleton.1 hAtom
      exact hWhole
  | separator s =>
      obtain rfl := List.mem_singleton.1 hAtom
      exact hWhole
  | excerpt e =>
      obtain ⟨i, -, rfl⟩ := List.mem_map.1 hAtom
      exact hTake _ 1 (hDrop e i hWhole)

theorem atomize_cons (token : Token) (rest : List Token) :
    atomize (token :: rest) = token.atoms ++ atomize rest := rfl

theorem atomize_append (before after : List Token) :
    atomize (before ++ after) = atomize before ++ atomize after := List.flatMap_append ..

/-- An atom shows at most one character and cannot be divided. -/
theorem mem_atomize {token : Token} {tokens : List Token} (h : token ∈ atomize tokens) :
    token.isEmptyExcerpt = false ∧ token.width ≤ 1 ∧ token.atoms = [token] := by
  obtain ⟨whole, -, hAtom⟩ := List.mem_flatMap.1 h
  cases whole with
  | gap g =>
      obtain rfl := List.mem_singleton.1 hAtom
      exact ⟨rfl, Nat.zero_le _, rfl⟩
  | separator s =>
      obtain rfl := List.mem_singleton.1 hAtom
      refine ⟨rfl, ?_, rfl⟩
      rw [width_separator]
      split <;> decide
  | excerpt e =>
      obtain ⟨u, rfl, hLength⟩ := mem_atoms_excerpt hAtom
      have hText : u.text ≠ [] := fun hNil => by simp [hNil] at hLength
      have hRest : (u.drop 1).text = [] := List.length_eq_zero_iff.1 (by simp [Excerpt.drop, hLength])
      refine ⟨by simpa [isEmptyExcerpt] using hText, Nat.le_of_eq hLength, ?_⟩
      rw [atoms_of_text_ne_nil hText, atoms_of_text_nil hRest,
        Excerpt.take_of_length_le (Nat.le_of_eq hLength)]

/-- Atoms are not divided any further. -/
theorem atomize_eq_self {tokens : List Token} (h : ∀ token ∈ tokens, token.atoms = [token]) :
    atomize tokens = tokens := by
  induction tokens with
  | nil => rfl
  | cons token rest ih =>
      simp only [List.mem_cons, forall_eq_or_imp] at h
      rw [atomize_cons, h.1, ih h.2, List.singleton_append]

theorem shownText_atoms (token : Token) : shownText token.atoms = token.shown := by
  cases token with
  | gap g => rfl
  | separator s => simp [atoms, shownText]
  | excerpt e =>
      induction hLength : e.text.length generalizing e with
      | zero =>
          have hNil : e.text = [] := List.length_eq_zero_iff.1 hLength
          rw [atoms_of_text_nil hNil, shown, hNil]
          rfl
      | succ n ih =>
          have hText : e.text ≠ [] := fun hNil => by simp [hNil] at hLength
          have hDrop : (e.drop 1).text.length = n := by simp [Excerpt.drop, hLength]
          have hRest := ih (e.drop 1) hDrop
          rw [atoms_of_text_ne_nil hText]
          calc shownText (excerpt (e.take 1) :: atoms (excerpt (e.drop 1)))
              = (e.take 1).text ++ shownText (atoms (excerpt (e.drop 1))) := rfl
            _ = (e.take 1).text ++ (e.drop 1).text := by rw [hRest]; rfl
            _ = e.text := List.take_append_drop 1 e.text

theorem totalWidth_atoms (token : Token) : totalWidth token.atoms = token.width := by
  rw [← length_shownText, shownText_atoms, width]

theorem totalWidth_atomize (tokens : List Token) : totalWidth (atomize tokens) = totalWidth tokens := by
  induction tokens with
  | nil => rfl
  | cons token rest ih => rw [atomize_cons, totalWidth_append, totalWidth_atoms, ih, totalWidth]

theorem effective_atoms (token : Token) :
    effective token.atoms = atomize (effective [token]) := by
  cases token with
  | gap g => cases h : (gap g).isIdle <;> simp [atoms, effective, atomize, isEmptyExcerpt, h]
  | separator s => simp [atoms, effective, atomize, isEmptyExcerpt, isIdle]
  | excerpt e =>
      by_cases h : e.text = []
      · simp [atoms_of_text_nil h, effective, isEmptyExcerpt, h, atomize]
      · have hKept : effective (atoms (excerpt e)) = atoms (excerpt e) := by
          apply effective_eq_self
          intro token hToken
          obtain ⟨u, rfl, hLength⟩ := mem_atoms_excerpt hToken
          refine ⟨?_, rfl⟩
          cases hText : u.text <;> simp_all [isEmptyExcerpt]
        rw [hKept]
        simp [effective, isEmptyExcerpt, isIdle, h, atomize]

/-- Tokens without an effect may be left out before the others are divided or afterwards. -/
theorem effective_atomize (tokens : List Token) :
    effective (atomize tokens) = atomize (effective tokens) := by
  induction tokens with
  | nil => rfl
  | cons token rest ih =>
      rw [atomize_cons, effective_append, effective_atoms, ih, ← atomize_append, ← effective_append,
        List.singleton_append]

/-- Dividing tokens does not change whether there is source material. -/
theorem any_span_atomize {tokens : List Token} (h : ∀ token ∈ tokens, token.isEmptyExcerpt = false) :
    (atomize tokens).any (·.span?.isSome) = tokens.any (·.span?.isSome) := by
  induction tokens with
  | nil => rfl
  | cons token rest ih =>
      simp only [List.mem_cons, forall_eq_or_imp] at h
      rw [atomize_cons, List.any_append, ih h.2, List.any_cons]
      congr 1
      cases token with
      | gap g => simp [atoms]
      | separator s => simp [atoms]
      | excerpt e =>
          have hText : e.text ≠ [] := by simpa [isEmptyExcerpt] using h.1
          simp [atoms_of_text_ne_nil hText, span?]

/-- Whether a sequence is tied to its source can be told from its atoms. -/
theorem tied_atomize {tokens : List Token} : Tied (atomize tokens) ↔ Tied tokens := by
  have hShows : ∀ token ∈ effective tokens, token.isEmptyExcerpt = false :=
    fun token hToken => (mem_effective.1 hToken).2.1
  unfold Tied
  rw [effective_atomize, ← List.any_eq_true, ← List.any_eq_true, any_span_atomize hShows]

/-- Gaps are not divided, so the first idle one stays the first. -/
theorem find?_isIdle_atomize (tokens : List Token) :
    (atomize tokens).find? isIdle = tokens.find? isIdle := by
  induction tokens with
  | nil => rfl
  | cons token rest ih =>
      rw [atomize_cons, List.find?_append, ih]
      cases token with
      | gap g => cases h : (gap g).isIdle <;> simp [atoms, h]
      | separator s => simp [atoms, isIdle]
      | excerpt e =>
          have hNone : (atoms (excerpt e)).find? isIdle = none := by
            refine List.find?_eq_none.2 fun token hToken => ?_
            obtain ⟨u, rfl, -⟩ := mem_atoms_excerpt hToken
            simp [isIdle]
          simp [hNone, isIdle]

theorem settle_atoms (awake : Bool) (token : Token) :
    settle awake token.atoms = atomize (settle awake [token]) := by
  cases token with
  | gap g => rfl
  | separator s => rfl
  | excerpt e =>
      have hAtoms : settle awake (atoms (excerpt e)) = atoms (excerpt e) := by
        apply settle_of_forall_not_isSeparator
        intro token hToken
        obtain ⟨u, rfl, -⟩ := mem_atoms_excerpt hToken
        rfl
      rw [hAtoms]
      simp [settle, atomize]

/-- Separators are settled among the atoms as they are among the tokens. -/
theorem settle_atomize (awake : Bool) {tokens : List Token}
    (h : ∀ token ∈ tokens, token.isEmptyExcerpt = false) :
    settle awake (atomize tokens) = atomize (settle awake tokens) := by
  induction tokens generalizing awake with
  | nil => rfl
  | cons token rest ih =>
      simp only [List.mem_cons, forall_eq_or_imp] at h
      have hWakes : token.atoms.any wakes = token.wakes := by
        cases token with
        | gap g => simp [atoms]
        | separator s => simp [atoms]
        | excerpt e =>
            have hText : e.text ≠ [] := by simpa [isEmptyExcerpt] using h.1
            simp [atoms_of_text_ne_nil hText, wakes]
      have hSplit : settle awake (token :: rest) =
          settle awake [token] ++ settle (awake || token.wakes) rest := by
        simpa using settle_append awake [token] rest
      rw [atomize_cons, settle_append, settle_atoms, hWakes, ih _ h.2, hSplit, atomize_append]

/-- Fusing puts the atoms together again. -/
theorem fuse_atomize {tokens : List Token} (h : ∀ token ∈ tokens, token.isEmptyExcerpt = false) :
    fuse (atomize tokens) = fuse tokens := by
  induction tokens with
  | nil => rfl
  | cons token rest ih =>
      simp only [List.mem_cons, forall_eq_or_imp] at h
      rw [atomize_cons, fuse_append, ih h.2]
      cases token with
      | gap g => rfl
      | separator s => rfl
      | excerpt e => exact foldr_attach_atoms (by simpa [isEmptyExcerpt] using h.1) _

/-- What the canonical form is made of may be divided before it is chosen or afterwards. -/
theorem anchored_atomize (tokens : List Token) :
    anchored (atomize tokens) = atomize (anchored tokens) := by
  have hShows : ∀ token ∈ effective tokens, token.isEmptyExcerpt = false :=
    fun token hToken => (mem_effective.1 hToken).2.1
  simp only [anchored, effective_atomize, any_span_atomize hShows, find?_isIdle_atomize]
  split
  · rfl
  · cases hFound : tokens.find? isIdle with
    | none => rfl
    | some idle =>
        have hIdle : idle.isIdle = true := List.find?_some hFound
        cases idle with
        | gap g => rfl
        | excerpt e => simp [isIdle] at hIdle
        | separator s => simp [isIdle] at hIdle

/-- Dividing a sequence does not change its canonical form. -/
theorem normalize_atomize (tokens : List Token) : normalize (atomize tokens) = normalize tokens := by
  have hShows : ∀ token ∈ anchored tokens, token.isEmptyExcerpt = false :=
    fun token hToken => isEmptyExcerpt_of_mem_anchored hToken
  have hSettled : ∀ token ∈ settle false (anchored tokens), token.isEmptyExcerpt = false :=
    forall_mem_settle hShows (by simp [isEmptyExcerpt])
  rw [normalize, anchored_atomize, settle_atomize false hShows, fuse_atomize hSettled, normalize]

end Token
end SourceView
