import SourceView.View

/-! Laws of the canonical form. Fusing and settling may be done to parts of a sequence before they
are done to the whole, so a canonical part stands for the part it was made from. A sequence is its
own canonical form exactly when it is tidy. -/
namespace SourceView.Token

/-- Of three excerpts that go on from each other, either two may be made one first. -/
theorem attach_append_excerpt {a b : Excerpt} (h : a.span.Adjacent b.span) (rest : List Token) :
    attach (excerpt (a.append b h)) rest = attach (excerpt a) (attach (excerpt b) rest) := by
  cases rest with
  | nil => simp [attach, h]
  | cons next tail =>
      cases next with
      | gap g => simp [attach, h]
      | separator s => simp [attach, h]
      | excerpt c =>
          have hIff : (a.append b h).span.Adjacent c.span ↔ b.span.Adjacent c.span := by
            simp [Span.Adjacent, Excerpt.append, h.1]
          by_cases hNext : b.span.Adjacent c.span
          · have hWhole : a.span.Adjacent (b.append c hNext).span := h
            rw [attach, dif_pos (hIff.2 hNext), attach, dif_pos hNext, attach, dif_pos hWhole]
            simp [Excerpt.append]
          · simp [attach, mt hIff.1 hNext, hNext, h]

/-- Two gaps may be fused first or attached one after the other. -/
theorem attach_append_gap (a b : Gap) (rest : List Token) :
    attach (gap (a.append b)) rest = attach (gap a) (attach (gap b) rest) := by
  cases rest with
  | nil => rfl
  | cons next tail =>
      cases next with
      | gap c => simp [attach, Gap.append, Span.hull_assoc, Bool.or_assoc]
      | excerpt e => rfl
      | separator s => rfl

/-- A token may be attached to the front part before that is attached to the rest. -/
theorem foldr_attach_attach (token : Token) (tokens rest : List Token) :
    (attach token tokens).foldr attach rest = attach token (tokens.foldr attach rest) := by
  unfold attach
  split
  · next a b tail =>
      split
      · next h => exact attach_append_excerpt h _
      · rfl
  · next a b tail => exact attach_append_gap a b _
  · rfl

/-- What stands in front may be fused first. -/
theorem foldr_attach_fuse (tokens rest : List Token) :
    (fuse tokens).foldr attach rest = tokens.foldr attach rest := by
  induction tokens with
  | nil => rfl
  | cons token tokens ih =>
      show (attach token (fuse tokens)).foldr attach rest = attach token (tokens.foldr attach rest)
      rw [foldr_attach_attach, ih]

/-- Fusing a sequence attaches the tokens of its front part to the fused rest. -/
theorem fuse_append (before after : List Token) :
    fuse (before ++ after) = before.foldr attach (fuse after) := by
  simp [fuse, List.foldr_append]

theorem fuse_fuse (tokens : List Token) : fuse (fuse tokens) = fuse tokens :=
  foldr_attach_fuse tokens []

/-- The rest of a sequence may be fused beforehand. -/
theorem fuse_append_fuse (before after : List Token) :
    fuse (before ++ fuse after) = fuse (before ++ after) := by
  rw [fuse_append, fuse_append, fuse_fuse]

/-- Tokens that may stand side by side are not changed by fusing. -/
theorem fuse_of_separated {tokens : List Token} (h : Separated tokens) : fuse tokens = tokens := by
  induction tokens with
  | nil => rfl
  | cons token rest ih =>
      cases rest with
      | nil => cases token <;> rfl
      | cons next tail =>
          obtain ⟨hApart, hRest⟩ := h
          show attach token (fuse (next :: tail)) = _
          rw [ih hRest]
          cases token with
          | separator s => rfl
          | gap g =>
              cases next with
              | gap other => exact hApart.elim
              | excerpt e => rfl
              | separator s => rfl
          | excerpt e =>
              cases next with
              | excerpt other =>
                  have hApart : ¬ e.span.Adjacent other.span := hApart
                  simp [attach, hApart]
              | gap g => rfl
              | separator s => rfl

/-- Whether separators are shown in the second part depends on what stands in the first one. -/
theorem settle_append (awake : Bool) (before after : List Token) :
    settle awake (before ++ after) =
      settle awake before ++ settle (awake || before.any wakes) after := by
  induction before generalizing awake with
  | nil => simp [settle]
  | cons token rest ih =>
      cases token <;> simp [settle, wakes, ih, Bool.or_assoc]

theorem length_settle (awake : Bool) (tokens : List Token) :
    (settle awake tokens).length = tokens.length := by
  induction tokens generalizing awake with
  | nil => rfl
  | cons token rest ih => cases token <;> simp [settle, ih]

/-- Settling forgets how the separators were settled before. -/
theorem settle_settle (awake earlier : Bool) (tokens : List Token) :
    settle awake (settle earlier tokens) = settle awake tokens := by
  induction tokens generalizing awake earlier with
  | nil => rfl
  | cons token rest ih => cases token <;> simp [settle, ih]

theorem Separated.tail {token : Token} {rest : List Token} (h : Separated (token :: rest)) :
    Separated rest := by
  cases rest with
  | nil => trivial
  | cons next tail => exact h.2

theorem Settled.tail {awake : Bool} {token : Token} {rest : List Token}
    (h : Settled awake (token :: rest)) : Settled (awake || token.wakes) rest := by
  cases token with
  | separator s => simpa [wakes] using h.2
  | excerpt e => exact h
  | gap g => exact h

theorem settled_append {awake : Bool} {before after : List Token} :
    Settled awake (before ++ after) ↔
      Settled awake before ∧ Settled (awake || before.any wakes) after := by
  induction before generalizing awake with
  | nil => simp [Settled]
  | cons token rest ih => cases token <;> simp [Settled, wakes, ih, and_assoc, Bool.or_assoc]

theorem settle_of_settled {awake : Bool} {tokens : List Token} (h : Settled awake tokens) :
    settle awake tokens = tokens := by
  induction tokens generalizing awake with
  | nil => rfl
  | cons token rest ih =>
      cases token with
      | separator s =>
          obtain ⟨rfl, hRest⟩ := h
          simp [settle, ih hRest]
      | excerpt e => simp only [settle, ih h.tail]
      | gap g => simp only [settle, ih h.tail]

/-- Settling changes nothing but separators. -/
theorem settle_of_forall_not_isSeparator {awake : Bool} {tokens : List Token}
    (h : ∀ token ∈ tokens, token.isSeparator = false) : settle awake tokens = tokens := by
  induction tokens generalizing awake with
  | nil => rfl
  | cons token rest ih =>
      simp only [List.mem_cons, forall_eq_or_imp] at h
      cases token with
      | separator s => simp [isSeparator] at h
      | excerpt e =>
          rw [settle, ih h.2]
          intro s hs
          cases hs
      | gap g =>
          rw [settle, ih h.2]
          intro s hs
          cases hs

/-- A token made of two wakes the separators behind it when one of the two does. -/
theorem settle_attach (awake : Bool) (token : Token) (rest : List Token) :
    settle awake (attach token rest) =
      (settle awake [token]).foldr attach (settle (awake || token.wakes) rest) := by
  cases token with
  | separator s => simp [attach, settle, wakes]
  | gap g =>
      cases rest with
      | nil => simp [attach, settle]
      | cons next tail =>
          cases next <;> simp [attach, settle, wakes, Gap.append, Bool.or_assoc]
  | excerpt e =>
      cases rest with
      | nil => simp [attach, settle]
      | cons next tail =>
          cases next with
          | gap g => simp [attach, settle, wakes]
          | separator s => simp [attach, settle, wakes]
          | excerpt other =>
              by_cases h : e.span.Adjacent other.span <;> simp [attach, settle, wakes, h]

/-- Fusing does not change which separators are shown, since a fused token wakes them as its parts
did. -/
theorem settle_fuse (awake : Bool) (tokens : List Token) :
    settle awake (fuse tokens) = fuse (settle awake tokens) := by
  induction tokens generalizing awake with
  | nil => rfl
  | cons token rest ih =>
      show settle awake (attach token (fuse rest)) = fuse (settle awake ([token] ++ rest))
      rw [settle_attach, ih, settle_append, fuse_append]
      simp

theorem effective_append (before after : List Token) :
    effective (before ++ after) = effective before ++ effective after :=
  List.filter_append ..

theorem effective_cons (token : Token) (rest : List Token) :
    effective (token :: rest) =
      if !token.isEmptyExcerpt && !token.isIdle then token :: effective rest else effective rest :=
  List.filter_cons ..

theorem effective_eq_self {tokens : List Token}
    (h : ∀ token ∈ tokens, token.isEmptyExcerpt = false ∧ token.isIdle = false) :
    effective tokens = tokens := by
  apply List.filter_eq_self.2
  intro token hToken
  simp [h token hToken]

/-- Fusing and settling tokens with an effect makes no token without one. -/
theorem effective_fuse_settle (awake : Bool) (tokens : List Token) :
    effective (fuse (settle awake (effective tokens))) =
      fuse (settle awake (effective tokens)) := by
  apply effective_eq_self
  refine forall_mem_fuse (forall_mem_settle (fun _ hToken => (mem_effective.1 hToken).2) ?_) ?_ ?_
  · intro s active _
    exact ⟨rfl, rfl⟩
  · intro a b h ha _
    exact ⟨isEmptyExcerpt_append h ha.1, rfl⟩
  · intro a b ha _
    refine ⟨rfl, ?_⟩
    cases hIdle : (gap (a.append b)).isIdle with
    | false => rfl
    | true => exact absurd (isIdle_append hIdle) (by simp [ha.2])

/-- Whether some token that has an effect ties the sequence to its source. -/
def Tied (tokens : List Token) : Prop := ∃ token ∈ effective tokens, token.span?.isSome = true

/-- A sequence is tied to its source by an excerpt with characters or by a gap that hides or marks
something. -/
theorem tied_iff {tokens : List Token} :
    Tied tokens ↔ ∃ token ∈ tokens, token.isEmptyExcerpt = false ∧ token.isIdle = false ∧
      token.span?.isSome = true := by
  simp only [Tied, mem_effective, and_assoc]

theorem tied_append {before after : List Token} :
    Tied (before ++ after) ↔ Tied before ∨ Tied after := by
  simp only [Tied, effective_append, List.mem_append, or_and_right, exists_or]

theorem Tied.append {before : List Token} (h : Tied before) (after : List Token) :
    Tied (before ++ after) := tied_append.2 (.inl h)

/-- No idle gap is kept where another token tells the place in the source. -/
theorem anchored_of_tied {tokens : List Token} (h : Tied tokens) :
    anchored tokens = effective tokens :=
  if_pos (List.any_eq_true.2 h)

/-- The canonical form of a tied sequence is made of the tokens that have an effect. -/
theorem normalize_of_tied {tokens : List Token} (h : Tied tokens) :
    normalize tokens = fuse (settle false (effective tokens)) := by
  rw [normalize, anchored_of_tied h]

/-- Tied sequences with the same tokens of effect have the same canonical form. -/
theorem normalize_congr {first second : List Token} (hTied : Tied first)
    (h : effective second = effective first) : normalize second = normalize first := by
  have hOther : Tied second := by
    unfold Tied
    rwa [h]
  rw [normalize_of_tied hOther, normalize_of_tied hTied, h]

theorem mem_of_mem_anchored {token : Token} {tokens : List Token} (h : token ∈ anchored tokens) :
    token ∈ tokens := by
  unfold anchored at h
  split at h
  · exact (mem_effective.1 h).1
  · rcases List.mem_append.1 h with hIdle | hEffective
    · exact List.mem_of_find?_eq_some (Option.mem_toList.1 hIdle)
    · exact (mem_effective.1 hEffective).1

/-- What holds of all tokens holds in the canonical form, if it does not depend on whether a
separator is shown and holds of two tokens made one. -/
theorem forall_mem_normalize {p : Token → Prop} {tokens : List Token} (hTokens : ∀ t ∈ tokens, p t)
    (hSeparator : ∀ s active, p (separator s) → p (separator { s with active }))
    (hExcerpt : ∀ a b h, p (excerpt a) → p (excerpt b) → p (excerpt (a.append b h)))
    (hGap : ∀ a b, p (gap a) → p (gap b) → p (gap (a.append b))) :
    ∀ t ∈ normalize tokens, p t := by
  refine forall_mem_fuse (forall_mem_settle (fun t ht => ?_) hSeparator) hExcerpt hGap
  exact hTokens t (mem_of_mem_anchored ht)

/-- Behind tokens that tie the sequence to its source, a part may be settled and fused on its own,
whatever its separators take to be in front of them. -/
theorem normalize_append_fuse {before : List Token} (h : Tied before) (awake : Bool)
    (after : List Token) :
    normalize (before ++ fuse (settle awake (effective after))) = normalize (before ++ after) := by
  rw [normalize_of_tied (h.append _), normalize_of_tied (h.append _), effective_append,
    effective_append, effective_fuse_settle, settle_append, settle_append, settle_fuse,
    settle_settle, fuse_append_fuse]

/-- Where nothing with an effect is tied to the source, separators are all that has an effect. -/
theorem isSeparator_of_not_tied {tokens : List Token} (h : ¬ Tied tokens) :
    ∀ token ∈ effective tokens, token.isSeparator = true := by
  intro token hToken
  have hSpan : ¬ token.span?.isSome = true := fun hSome => h ⟨token, hToken, hSome⟩
  cases token with
  | separator s => rfl
  | excerpt e => exact absurd rfl hSpan
  | gap g => exact absurd rfl hSpan

/-- Separators alone are never fused. -/
theorem fuse_settle_of_not_tied {tokens : List Token} (h : ¬ Tied tokens) :
    fuse (settle false (effective tokens)) = settle false (effective tokens) :=
  fuse_of_forall_isSeparator (forall_mem_settle (isSeparator_of_not_tied h) (by simp [isSeparator]))

/-- Where nothing with an effect is tied to the source, the canonical form is the first idle gap in
front of the separators, all of them asleep. -/
theorem normalize_of_not_tied {tokens : List Token} (h : ¬ Tied tokens) :
    normalize tokens = (tokens.find? isIdle).toList ++ settle false (effective tokens) := by
  have hNone : ¬ (effective tokens).any (·.span?.isSome) = true := fun hAny =>
    h (List.any_eq_true.1 hAny)
  rw [normalize, anchored, if_neg hNone]
  cases hFound : tokens.find? isIdle with
  | none => exact fuse_settle_of_not_tied h
  | some idle => exact fuse_settle_idle (List.find?_some hFound) (isSeparator_of_not_tied h)

/-- The canonical form keeps all tokens that have an effect, settled and fused. -/
theorem effective_normalize (tokens : List Token) :
    effective (normalize tokens) = fuse (settle false (effective tokens)) := by
  by_cases h : Tied tokens
  · rw [normalize_of_tied h, effective_fuse_settle]
  · have hIdle : effective (tokens.find? isIdle).toList = [] := by
      refine List.filter_eq_nil_iff.2 fun token hToken => ?_
      simp [List.find?_some (Option.mem_toList.1 hToken)]
    have hKept := effective_fuse_settle false tokens
    rw [fuse_settle_of_not_tied h] at hKept ⊢
    rw [normalize_of_not_tied h, effective_append, hIdle, hKept, List.nil_append]

/-- Behind tokens that tie the sequence to its source, a part may be brought into canonical form. -/
theorem normalize_append_normalize {before : List Token} (h : Tied before) (after : List Token) :
    normalize (before ++ normalize after) = normalize (before ++ after) := by
  rw [← normalize_append_fuse h false after, ← effective_normalize,
    normalize_of_tied (h.append _), normalize_of_tied (h.append _), effective_append,
    effective_append, effective_normalize, effective_fuse_settle]

/-- A canonical sequence is its own canonical form. -/
theorem normalize_of_canonical {tokens : List Token} (h : Canonical tokens) :
    normalize tokens = tokens := by
  have hAnchored : anchored tokens = tokens := by
    cases hFound : tokens.find? isIdle with
    | none =>
        have hEffective : effective tokens = tokens := by
          refine effective_eq_self fun token hToken => ⟨h.shows token hToken, ?_⟩
          simpa using List.find?_eq_none.1 hFound token hToken
        simp [anchored, hEffective, hFound]
    | some idle =>
        have hIdle : idle.isIdle = true := List.find?_some hFound
        obtain ⟨rest, rfl, hRest⟩ := h.idle idle (List.mem_of_find?_eq_some hFound) hIdle
        have hKept : effective rest = rest := by
          apply effective_eq_self
          intro token hToken
          have := hRest token hToken
          cases token <;> simp_all [isSeparator, isEmptyExcerpt, isIdle]
        have hNone : rest.any (·.span?.isSome) = false := by
          apply List.any_eq_false.2
          intro token hToken
          have := hRest token hToken
          cases token <;> simp_all [isSeparator, span?]
        have hEffective : effective (idle :: rest) = rest := by
          rw [← hKept]
          simp [effective, hIdle]
        simp [anchored, hEffective, hNone, hIdle]
  rw [normalize, hAnchored, settle_of_settled h.settled, fuse_of_separated h.separated]

/-- A canonical form is its own canonical form. -/
theorem normalize_normalize (tokens : List Token) :
    normalize (normalize tokens) = normalize tokens :=
  normalize_of_canonical (canonical_normalize tokens)

end SourceView.Token
