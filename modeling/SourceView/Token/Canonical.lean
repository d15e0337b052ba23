import SourceView.Token

/-! The canonical form of a token sequence. Different sequences can show the same text with the same
source behind it; the canonical one has no empty excerpts, no two neighbours that could be one
token, no gap without effect where another token ties the view to its source, and every separator
shown exactly when something is in front of it. -/
namespace SourceView.Token

/-- Whether two tokens may stand side by side: they are not two gaps, nor two excerpts of which the
second goes on where the first one ends. -/
def Apart : Token → Token → Prop
  | excerpt a, excerpt b => ¬ a.span.Adjacent b.span
  | gap _, gap _ => False
  | _, _ => True

instance : (a b : Token) → Decidable (Apart a b)
  | excerpt a, excerpt b => inferInstanceAs (Decidable (¬ a.span.Adjacent b.span))
  | excerpt _, gap _ => .isTrue trivial
  | excerpt _, separator _ => .isTrue trivial
  | gap _, excerpt _ => .isTrue trivial
  | gap _, gap _ => .isFalse id
  | gap _, separator _ => .isTrue trivial
  | separator _, _ => .isTrue trivial

def Separated : List Token → Prop
  | a :: b :: rest => Apart a b ∧ Separated (b :: rest)
  | _ => True

/-- Whether every separator is shown exactly when something that is shown or marked precedes it;
`awake` says whether that holds at the start of the sequence. -/
def Settled (awake : Bool) : List Token → Prop
  | [] => True
  | separator s :: rest => s.active = awake ∧ Settled awake rest
  | token :: rest => Settled (awake || token.wakes) rest

/-- The canonical form. An idle gap stands only in front of separators, as the one token that tells
which source the view belongs to. -/
structure Canonical (tokens : List Token) : Prop where
  shows : ∀ token ∈ tokens, token.isEmptyExcerpt = false
  separated : Separated tokens
  idle : ∀ token ∈ tokens, token.isIdle = true →
    ∃ rest, tokens = token :: rest ∧ ∀ other ∈ rest, other.isSeparator = true
  settled : Settled false tokens

def effective (tokens : List Token) : List Token :=
  tokens.filter fun token => !token.isEmptyExcerpt && !token.isIdle

/-- The tokens that have an effect. When none of them is tied to the source, the first idle gap is
kept in front of them, so that the view does not lose its place. -/
def anchored (tokens : List Token) : List Token :=
  if (effective tokens).any (·.span?.isSome) then effective tokens
  else (tokens.find? isIdle).toList ++ effective tokens

/-- Shows every separator behind something that wakes it and puts the others to sleep. -/
def settle (awake : Bool) : List Token → List Token
  | [] => []
  | separator s :: rest => separator { s with active := awake } :: settle awake rest
  | token :: rest => token :: settle (awake || token.wakes) rest

/-- Puts a token in front of a sequence, as one with the first token there where that is possible.
-/
def attach (token : Token) (rest : List Token) : List Token :=
  match token, rest with
  | excerpt a, excerpt b :: tail =>
    if h : a.span.Adjacent b.span then excerpt (a.append b h) :: tail else token :: rest
  | gap a, gap b :: tail => gap (a.append b) :: tail
  | _, _ => token :: rest

/-- Makes one token of all neighbours that can be one. -/
def fuse (tokens : List Token) : List Token := tokens.foldr attach []

/-- The canonical form of a token sequence. -/
def normalize (tokens : List Token) : List Token := fuse (settle false (anchored tokens))

/-- Of two gaps that are idle as one, the first is idle. -/
theorem isIdle_append {a b : Gap} (h : (gap (a.append b)).isIdle = true) :
    (gap a).isIdle = true := by
  have hA := a.anchor.ordered
  have hB := b.anchor.ordered
  simp only [isIdle, Gap.append, Span.hull, Range.isCaret, Bool.and_eq_true, Bool.not_eq_true',
    Bool.or_eq_false_iff, beq_iff_eq] at h ⊢
  exact ⟨h.1.1, by omega⟩

/-- An excerpt with characters has them still when it is continued. -/
theorem isEmptyExcerpt_append {a b : Excerpt} (h : a.span.Adjacent b.span)
    (ha : (excerpt a).isEmptyExcerpt = false) :
    (excerpt (a.append b h)).isEmptyExcerpt = false := by
  simp_all [isEmptyExcerpt, Excerpt.append]

/-- What holds of the tokens of an attached sequence: each is the token, one of the rest, or one
made of the token and the first of the rest. -/
theorem forall_mem_attach {p : Token → Prop} {token : Token} {rest : List Token}
    (hToken : p token) (hRest : ∀ t ∈ rest, p t)
    (hExcerpt : ∀ a b h, p (excerpt a) → p (excerpt b) → p (excerpt (a.append b h)))
    (hGap : ∀ a b, p (gap a) → p (gap b) → p (gap (a.append b))) :
    ∀ t ∈ attach token rest, p t := by
  unfold attach
  split
  · next a b tail =>
    split
    · next h =>
      simp only [List.mem_cons, forall_eq_or_imp] at hRest ⊢
      exact ⟨hExcerpt a b h hToken hRest.1, hRest.2⟩
    · simpa using ⟨hToken, by simpa using hRest⟩
  · next a b tail =>
    simp only [List.mem_cons, forall_eq_or_imp] at hRest ⊢
    exact ⟨hGap a b hToken hRest.1, hRest.2⟩
  · simpa using ⟨hToken, by simpa using hRest⟩

/-- What holds of all tokens, and of two made one, holds after fusing. -/
theorem forall_mem_fuse {p : Token → Prop} {tokens : List Token} (hTokens : ∀ t ∈ tokens, p t)
    (hExcerpt : ∀ a b h, p (excerpt a) → p (excerpt b) → p (excerpt (a.append b h)))
    (hGap : ∀ a b, p (gap a) → p (gap b) → p (gap (a.append b))) :
    ∀ t ∈ fuse tokens, p t := by
  induction tokens with
  | nil => simp [fuse]
  | cons token rest ih =>
    simp only [List.mem_cons, forall_eq_or_imp] at hTokens
    exact forall_mem_attach hTokens.1 (ih hTokens.2) hExcerpt hGap

/-- What may stand in front of a token may stand in front of what it became. -/
theorem separated_attach {token : Token} {rest : List Token} (h : Separated rest) :
    Separated (attach token rest) := by
  unfold attach
  split
  · next a b tail =>
    split
    · next hAdjacent =>
      cases tail with
      | nil => trivial
      | cons next tail =>
        refine ⟨?_, h.2⟩
        have hNext := h.1
        cases next with
        | excerpt c => exact fun hEnd => hNext ⟨hAdjacent.1.symm.trans hEnd.1, hEnd.2⟩
        | gap g => trivial
        | separator s => trivial
    · next hApart => exact ⟨hApart, h⟩
  · next a b tail =>
    cases tail with
    | nil => trivial
    | cons next tail =>
      refine ⟨?_, h.2⟩
      have hNext := h.1
      cases next with
      | excerpt c => trivial
      | gap g => exact hNext
      | separator s => trivial
  · next hExcerpt hGap =>
    cases rest with
    | nil => trivial
    | cons next tail =>
      refine ⟨?_, h⟩
      cases token <;> cases next <;> simp_all [Apart]

/-- Fusing leaves no neighbours that could be one token. -/
theorem separated_fuse (tokens : List Token) : Separated (fuse tokens) := by
  induction tokens with
  | nil => trivial
  | cons token rest ih => exact separated_attach ih

/-- Settling settles. -/
theorem settled_settle (awake : Bool) (tokens : List Token) :
    Settled awake (settle awake tokens) := by
  fun_induction settle awake tokens with
  | case1 => trivial
  | case2 awake s rest ih => exact ⟨rfl, ih⟩
  | case3 awake token rest hToken ih =>
    cases token with
    | separator s => exact absurd rfl (hToken s)
    | excerpt e => exact ih
    | gap g => exact ih

/-- Two tokens made one wake what either of them wakes. -/
theorem settled_attach {awake : Bool} {token : Token} {rest : List Token}
    (h : Settled awake (token :: rest)) : Settled awake (attach token rest) := by
  unfold attach
  split
  · next a b tail =>
    split
    · simpa [Settled, wakes] using h
    · exact h
  · next a b tail => simpa [Settled, wakes, Gap.append, Bool.or_assoc] using h
  · exact h

/-- Fusing keeps the separators settled. -/
theorem settled_fuse {awake : Bool} {tokens : List Token} (h : Settled awake tokens) :
    Settled awake (fuse tokens) := by
  induction tokens generalizing awake with
  | nil => trivial
  | cons token rest ih =>
    refine settled_attach ?_
    cases token with
    | separator s => exact ⟨h.1, ih h.2⟩
    | excerpt e => exact @ih (awake || true) h
    | gap g => exact @ih (awake || g.unknown) h

/-- Settling changes nothing but whether separators are shown. -/
theorem forall_mem_settle {p : Token → Prop} {awake : Bool} {tokens : List Token}
    (hTokens : ∀ t ∈ tokens, p t)
    (hSeparator : ∀ s active, p (separator s) → p (separator { s with active })) :
    ∀ t ∈ settle awake tokens, p t := by
  fun_induction settle awake tokens with
  | case1 => simp
  | case2 awake s rest ih =>
    simp only [List.mem_cons, forall_eq_or_imp] at hTokens ⊢
    exact ⟨hSeparator s awake hTokens.1, ih hTokens.2⟩
  | case3 awake token rest _ ih =>
    simp only [List.mem_cons, forall_eq_or_imp] at hTokens ⊢
    exact ⟨hTokens.1, ih hTokens.2⟩

/-- Separators cannot be made one with what stands behind them. -/
theorem fuse_of_forall_isSeparator {tokens : List Token}
    (h : ∀ token ∈ tokens, token.isSeparator = true) : fuse tokens = tokens := by
  induction tokens with
  | nil => rfl
  | cons token rest ih =>
    simp only [List.mem_cons, forall_eq_or_imp] at h
    cases token with
    | separator s =>
      show attach (separator s) (fuse rest) = _
      rw [ih h.2]
      rfl
    | excerpt e => simp [isSeparator] at h
    | gap g => simp [isSeparator] at h

/-- Tokens with an effect are neither empty nor idle. -/
theorem mem_effective {token : Token} {tokens : List Token} :
    token ∈ effective tokens ↔
      token ∈ tokens ∧ token.isEmptyExcerpt = false ∧ token.isIdle = false := by
  simp [effective]

/-- No empty excerpt is kept. -/
theorem isEmptyExcerpt_of_mem_anchored {token : Token} {tokens : List Token}
    (h : token ∈ anchored tokens) : token.isEmptyExcerpt = false := by
  unfold anchored at h
  split at h
  · exact (mem_effective.1 h).2.1
  · rcases List.mem_append.1 h with hIdle | hEffective
    · have := List.find?_some (Option.mem_toList.1 hIdle)
      cases token <;> simp_all [isIdle, isEmptyExcerpt]
    · exact (mem_effective.1 hEffective).2.1

/-- Either no idle gap is kept, or one is, and all tokens behind it are separators. -/
theorem anchored_cases (tokens : List Token) :
    (∀ token ∈ anchored tokens, token.isIdle = false) ∨
      ∃ idle rest, anchored tokens = idle :: rest ∧ idle.isIdle = true ∧
        ∀ other ∈ rest, other.isSeparator = true := by
  unfold anchored
  split
  · exact .inl fun token h => (mem_effective.1 h).2.2
  · next hNone =>
    cases hFound : tokens.find? isIdle with
    | none => exact .inl fun token h => (mem_effective.1 (by simpa using h)).2.2
    | some idle =>
      refine .inr ⟨idle, effective tokens, rfl, List.find?_some hFound, fun other hOther => ?_⟩
      have hSpan : other.span?.isSome ≠ true := fun hSome =>
        hNone (List.any_eq_true.2 ⟨other, hOther, hSome⟩)
      cases other <;> simp_all [span?, isSeparator]

/-- An idle gap in front of separators stays where it is. -/
theorem fuse_settle_idle {idle : Token} {rest : List Token} (hIdle : idle.isIdle = true)
    (hRest : ∀ other ∈ rest, other.isSeparator = true) :
    fuse (settle false (idle :: rest)) = idle :: settle false rest := by
  cases idle with
  | excerpt e => simp [isIdle] at hIdle
  | separator s => simp [isIdle] at hIdle
  | gap g =>
    simp only [isIdle, Bool.and_eq_true, Bool.not_eq_true'] at hIdle
    have hSettled : ∀ other ∈ settle false rest, other.isSeparator = true :=
      forall_mem_settle hRest (by simp [isSeparator])
    have hSettle : settle false (gap g :: rest) = gap g :: settle false rest := by
      simp [settle, wakes, hIdle.1]
    rw [hSettle]
    show attach (gap g) (fuse (settle false rest)) = _
    rw [fuse_of_forall_isSeparator hSettled]
    cases hTail : settle false rest with
    | nil => rfl
    | cons next tail =>
      have := hSettled next (by simp [hTail])
      cases next <;> simp_all [attach, isSeparator]

/-- The canonical form of every sequence is canonical. -/
theorem canonical_normalize (tokens : List Token) : Canonical (normalize tokens) := by
  refine ⟨?_, separated_fuse _, ?_, settled_fuse (settled_settle _ _)⟩
  · refine forall_mem_fuse
      (forall_mem_settle (fun _ => isEmptyExcerpt_of_mem_anchored) ?_) ?_ ?_
    · simp [isEmptyExcerpt]
    · intro a b h ha _
      exact isEmptyExcerpt_append h ha
    · simp [isEmptyExcerpt]
  · unfold normalize
    rcases anchored_cases tokens with hBusy | ⟨idle, rest, hEq, hIdle, hRest⟩
    · intro token hToken hIdle
      have : token.isIdle = false := by
        refine forall_mem_fuse (forall_mem_settle hBusy ?_) ?_ ?_ token hToken
        · simp [isIdle]
        · simp [isIdle]
        · intro a b ha _
          cases hab : (gap (a.append b)).isIdle with
          | false => rfl
          | true => simp [isIdle_append hab] at ha
      simp [this] at hIdle
    · rw [hEq, fuse_settle_idle hIdle hRest]
      have hSettled : ∀ other ∈ settle false rest, other.isSeparator = true :=
        forall_mem_settle hRest (by simp [isSeparator])
      intro token hToken hTokenIdle
      rcases List.mem_cons.1 hToken with rfl | hTail
      · exact ⟨_, rfl, hSettled⟩
      · have := hSettled token hTail
        cases token <;> simp_all [isIdle, isSeparator]

end SourceView.Token
