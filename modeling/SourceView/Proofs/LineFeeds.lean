import SourceView.LineEnd

/-! Line ends made alike in one pass. Two passes over a text, one for the pairs and one for the carriage
returns that are left, come to the same as reading it once from left to right. However the ends follow
one another, each of them becomes a single line feed, and all other characters are kept. -/
namespace SourceView.LineEnd

/-- The text with line feeds for all line ends, read once from left to right. -/
def scan : List Char → List Char
  | [] => []
  | '\r' :: '\n' :: rest => '\n' :: scan rest
  | '\r' :: rest => '\n' :: scan rest
  | c :: rest => c :: scan rest

def isPlain (c : Char) : Bool := c != '\r' && c != '\n'

inductive Terminator
  | pair
  | loneReturn
  | loneFeed

variable {text rest : List Char} {c : Char}

namespace Terminator

/-- Whether a line end begins at a position. A line feed behind a carriage return begins none. -/
def BeginsAt (text : List Char) (i : Nat) : Terminator → Prop
  | pair => text[i]? = some '\r' ∧ text[i + 1]? = some '\n'
  | loneReturn => text[i]? = some '\r' ∧ text[i + 1]? ≠ some '\n'
  | loneFeed => text[i]? = some '\n' ∧ (text.take i).getLast? ≠ some '\r'

instance (text : List Char) (i : Nat) : (kind : Terminator) → Decidable (kind.BeginsAt text i)
  | pair => inferInstanceAs (Decidable (_ ∧ _))
  | loneReturn => inferInstanceAs (Decidable (_ ∧ _))
  | loneFeed => inferInstanceAs (Decidable (_ ∧ _))

def count (text : List Char) (kind : Terminator) : Nat :=
  (List.range text.length).countP fun i => kind.BeginsAt text i

/-- Where no pair begins, the line ends behind the first character are those of the rest. -/
theorem beginsAt_succ_iff (h : ¬ pair.BeginsAt (c :: rest) 0) (i : Nat) (kind : Terminator) :
    kind.BeginsAt (c :: rest) (i + 1) ↔ kind.BeginsAt rest i := by
  cases kind with
  | pair => rfl
  | loneReturn => rfl
  | loneFeed =>
      cases i with
      | zero =>
          rw [BeginsAt, not_and'] at h
          simpa [BeginsAt] using h
      | succ i =>
          cases rest with
          | nil => simp [BeginsAt]
          | cons d rest => simp [BeginsAt]

/-- Line ends of a text begin at its first character or behind it. -/
theorem count_cons (kind : Terminator) (c : Char) (rest : List Char) :
    kind.count (c :: rest) = (if kind.BeginsAt (c :: rest) 0 then 1 else 0) +
      (List.range rest.length).countP fun i => kind.BeginsAt (c :: rest) (i + 1) := by
  rw [count, List.length_cons, List.range_succ_eq_map, List.countP_cons, List.countP_map, Nat.add_comm]
  simp [Function.comp_def]

/-- Where no pair stands at the front, a line end behind the first character is one of the rest as
well. -/
theorem count_cons_of_not_pair (h : ¬ pair.BeginsAt (c :: rest) 0) (kind : Terminator) :
    kind.count (c :: rest) = (if kind.BeginsAt (c :: rest) 0 then 1 else 0) + kind.count rest := by
  rw [count_cons]
  simp only [beginsAt_succ_iff h]
  rfl

/-- The line feed of a pair begins no line end, and hides none behind it. -/
theorem count_pair_append (kind : Terminator) (rest : List Char) :
    kind.count ('\r' :: '\n' :: rest) =
      (if kind.BeginsAt ('\r' :: '\n' :: rest) 0 then 1 else 0) + kind.count rest := by
  have hFeed : kind.BeginsAt ('\r' :: '\n' :: rest) 1 ↔ False := by
    cases kind <;> simp [BeginsAt]
  have hRest (i : Nat) : kind.BeginsAt ('\r' :: '\n' :: rest) (i + 2) ↔ kind.BeginsAt rest i := by
    rw [← beginsAt_succ_iff (by simp [BeginsAt] : ¬ pair.BeginsAt ('\n' :: rest) 0)]
    cases kind <;> simp [BeginsAt]
  rw [count_cons, List.length_cons, List.range_succ_eq_map, List.countP_cons, List.countP_map]
  simp only [Function.comp_def, hFeed, hRest]
  rfl

end Terminator

def terminators (text : List Char) : Nat :=
  Terminator.pair.count text + Terminator.loneReturn.count text + Terminator.loneFeed.count text

/-- A pair at the front is one line end, however the text goes on. -/
theorem terminators_pair_append (rest : List Char) :
    terminators ('\r' :: '\n' :: rest) = terminators rest + 1 := by
  have hPair : Terminator.pair.BeginsAt ('\r' :: '\n' :: rest) 0 := ⟨rfl, rfl⟩
  have hReturn : ¬ Terminator.loneReturn.BeginsAt ('\r' :: '\n' :: rest) 0 := fun h => h.2 rfl
  have hFeed : ¬ Terminator.loneFeed.BeginsAt ('\r' :: '\n' :: rest) 0 := by
    simp [Terminator.BeginsAt]
  simp only [terminators, Terminator.count_pair_append, if_pos hPair, if_neg hReturn, if_neg hFeed]
  omega

/-- Any other first character is a line end on its own or none. -/
theorem terminators_cons (h : ¬ Terminator.pair.BeginsAt (c :: rest) 0) :
    terminators (c :: rest) = terminators rest + if isPlain c then 0 else 1 := by
  have hReturn : Terminator.loneReturn.BeginsAt (c :: rest) 0 ↔ c = '\r' := by
    rw [Terminator.BeginsAt, not_and] at h
    simpa [Terminator.BeginsAt] using h
  have hFeed : Terminator.loneFeed.BeginsAt (c :: rest) 0 ↔ c = '\n' := by
    simp [Terminator.BeginsAt]
  have hOne : (if c = '\r' then 1 else 0) + (if c = '\n' then 1 else 0) =
      if isPlain c then 0 else 1 := by
    by_cases hc : c = '\r' <;> simp [isPlain, hc]
  rw [← hOne]
  simp only [terminators, Terminator.count_cons_of_not_pair h, if_neg h, hReturn, hFeed]
  omega

/-- Where no pair stands at the front, the pass for pairs goes on behind the first character. -/
theorem joinPairs_cons (h : ¬ Terminator.pair.BeginsAt (c :: rest) 0) :
    joinPairs (c :: rest) = c :: joinPairs rest := by
  cases rest with
  | nil => rfl
  | cons d rest =>
      have hPair : ¬ (c = '\r' ∧ d = '\n') := by simpa [Terminator.BeginsAt] using h
      rw [joinPairs, if_neg hPair]

/-- Where no pair stands at the front, both passes together go on behind the first character. -/
theorem normalize_cons (h : ¬ Terminator.pair.BeginsAt (c :: rest) 0) :
    normalize (c :: rest) = (if c = '\r' then '\n' else c) :: normalize rest := by
  rw [normalize, joinPairs_cons h]
  rfl

theorem not_pair_of_rest (h : ∀ tail, rest = '\n' :: tail → False) :
    ¬ Terminator.pair.BeginsAt (c :: rest) 0 := by
  rintro ⟨-, hFeed⟩
  cases rest with
  | nil => cases hFeed
  | cons d tail => exact h tail (congrArg (· :: tail) (Option.some.inj hFeed))

theorem not_pair_of_ne (h : c ≠ '\r') : ¬ Terminator.pair.BeginsAt (c :: rest) 0 :=
  fun hPair => h (Option.some.inj hPair.1)

/-- Two passes come to the same as one scan. The scan consumes both characters of a pair, and each
case of its recursion is one of the passes. -/
theorem normalize_eq_scan (text : List Char) : normalize text = scan text := by
  fun_induction scan text with
  | case1 => rfl
  | case2 rest ih =>
      rw [← ih]
      rfl
  | case3 rest hFeed ih => rw [normalize_cons (not_pair_of_rest hFeed), ih, if_pos rfl]
  | case4 c rest hPair hReturn ih =>
      rw [normalize_cons (not_pair_of_ne hReturn), ih, if_neg hReturn]

/-- The second pass leaves no carriage return, whatever the first one has left. -/
theorem not_mem_normalize (text : List Char) : '\r' ∉ normalize text := by
  intro h
  obtain ⟨c, -, hc⟩ := List.mem_map.1 h
  split at hc
  · cases hc
  · next hOther => exact hOther hc

theorem normalize_of_not_mem (h : '\r' ∉ text) : normalize text = text := by
  induction text with
  | nil => rfl
  | cons c rest ih =>
      obtain ⟨hFirst, hRest⟩ := not_or.1 (mt List.mem_cons.2 h)
      rw [normalize_cons (not_pair_of_ne (Ne.symm hFirst)), if_neg (Ne.symm hFirst), ih hRest]

/-- The scan leaves one line feed for each line end. -/
theorem count_scan (text : List Char) : (scan text).count '\n' = terminators text := by
  fun_induction scan text with
  | case1 => rfl
  | case2 rest ih => rw [List.count_cons_self, ih, terminators_pair_append]
  | case3 rest hFeed ih =>
      rw [List.count_cons_self, ih, terminators_cons (not_pair_of_rest hFeed)]
      rfl
  | case4 c rest hPair hReturn ih =>
      have hOther : (c != '\r') = true := bne_iff_ne.2 hReturn
      have hPlain : isPlain c = !(c == '\n') := by
        rw [isPlain, hOther, Bool.true_and, bne]
      rw [List.count_cons, ih, terminators_cons (not_pair_of_ne hReturn), hPlain]
      cases c == '\n' <;> rfl

/-- The scan keeps all characters that belong to no line end, in their order. -/
theorem filter_isPlain_scan (text : List Char) :
    (scan text).filter isPlain = text.filter isPlain := by
  fun_induction scan text with
  | case1 => rfl
  | case2 rest ih => simpa [isPlain] using ih
  | case3 rest hFeed ih => simpa [isPlain] using ih
  | case4 c rest hPair hReturn ih => rw [List.filter_cons, List.filter_cons, ih]

/-- Two passes are one reading from left to right. No carriage return is left, so that a second time
changes nothing, there are as many line feeds as there were line ends, and the characters that belong
to no line end are the same as before. -/
theorem normalize_scanned (text : List Char) :
    normalize text = scan text ∧ '\r' ∉ normalize text ∧
      normalize (normalize text) = normalize text ∧
      (normalize text).count '\n' = terminators text ∧
      (normalize text).filter isPlain = text.filter isPlain := by
  refine ⟨normalize_eq_scan text, not_mem_normalize text,
    normalize_of_not_mem (not_mem_normalize text), ?_, ?_⟩
  · rw [normalize_eq_scan, count_scan]
  · rw [normalize_eq_scan, filter_isPlain_scan]

/-- A carriage return in front of a pair is a line end of its own, and so is a line feed behind it. -/
example : normalize ['a', '\r', '\r', '\n', '\n', 'b'] = ['a', '\n', '\n', '\n', 'b'] := by decide

end SourceView.LineEnd
