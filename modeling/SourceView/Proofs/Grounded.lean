import SourceView.Proofs.Canonical
import SourceView.Proofs.Placed

/-! What a sequence begins with. A grounded sequence has source material, and no separator with
nothing but idle gaps in front of it. Its canonical form is grounded as well, and so are grounded
sequences one behind the other. -/
namespace SourceView.Token

/-- Whether the second token may have been made from the first and what followed it. -/
def Extends : Token → Token → Prop
  | excerpt a, excerpt b => a.span.head = b.span.head
  | gap a, gap b =>
    a.anchor.source = b.anchor.source ∧ b.anchor.start ≤ a.anchor.start ∧
      a.anchor.stop ≤ b.anchor.stop
  | separator _, separator _ => True
  | _, _ => False

theorem Extends.refl (token : Token) : Extends token token := by
  cases token <;> simp [Extends]

theorem Extends.isSeparator_eq {a b : Token} (h : Extends a b) : a.isSeparator = b.isSeparator := by
  cases a <;> cases b <;> simp_all [Extends, isSeparator]

/-- An attached token comes first, fused or not. -/
theorem exists_attach_eq_cons (token : Token) (rest : List Token) :
    ∃ first tail, attach token rest = first :: tail ∧ Extends token first := by
  unfold attach
  split
  · next a b tail =>
      split
      · exact ⟨_, tail, rfl, rfl⟩
      · exact ⟨_, _, rfl, Extends.refl _⟩
  · next a b tail =>
      refine ⟨_, tail, rfl, rfl, ?_, ?_⟩
      · simp only [Gap.append, Span.hull]
        omega
      · simp only [Gap.append, Span.hull]
        omega
  · exact ⟨_, _, rfl, Extends.refl _⟩

/-- The first token of a settled and fused sequence is made from the first one of the sequence. -/
theorem exists_fuse_settle_eq_cons (awake : Bool) (token : Token) (rest : List Token) :
    ∃ first tail, fuse (settle awake (token :: rest)) = first :: tail ∧ Extends token first := by
  cases token with
  | separator s => exact ⟨_, _, rfl, trivial⟩
  | excerpt e => exact exists_attach_eq_cons _ _
  | gap g => exact exists_attach_eq_cons _ _

/-- Whether some token comes from the source. An empty excerpt does not count, since it is dropped. -/
def Rooted (tokens : List Token) : Prop :=
  ∃ token ∈ tokens, token.isEmptyExcerpt = false ∧ token.span?.isSome = true

theorem rooted_append {before after : List Token} :
    Rooted (before ++ after) ↔ Rooted before ∨ Rooted after := by
  simp only [Rooted, List.mem_append, or_and_right, exists_or]

theorem spans_ne_nil_of_rooted {tokens : List Token} (h : Rooted tokens) : spans tokens ≠ [] := by
  obtain ⟨token, hToken, -, hSpan⟩ := h
  obtain ⟨span, hSpan⟩ := Option.isSome_iff_exists.1 hSpan
  exact List.ne_nil_of_mem (List.mem_filterMap.2 ⟨token, hToken, hSpan⟩)

theorem any_span_attach (token : Token) (rest : List Token) :
    (attach token rest).any (·.span?.isSome) = (token :: rest).any (·.span?.isSome) := by
  unfold attach
  split
  · split <;> simp [span?]
  · simp [span?]
  · rfl

/-- Fusing does not change whether there is source material. -/
theorem any_span_fuse (tokens : List Token) :
    (fuse tokens).any (·.span?.isSome) = tokens.any (·.span?.isSome) := by
  induction tokens with
  | nil => rfl
  | cons token rest ih =>
      show (attach token (fuse rest)).any _ = _
      rw [any_span_attach, List.any_cons, ih, List.any_cons]

theorem any_span_settle (awake : Bool) (tokens : List Token) :
    (settle awake tokens).any (·.span?.isSome) = tokens.any (·.span?.isSome) := by
  induction tokens generalizing awake with
  | nil => rfl
  | cons token rest ih =>
      cases token with
      | excerpt e => simp only [settle, List.any_cons, ih]
      | gap g => simp only [settle, List.any_cons, ih]
      | separator s =>
          simp only [settle, List.any_cons, ih]
          rfl

/-- The canonical form keeps some of the source material. -/
theorem Rooted.normalize {tokens : List Token} (h : Rooted tokens) : Rooted (normalize tokens) := by
  have hAnchored : (anchored tokens).any (·.span?.isSome) = true := by
    unfold anchored
    split
    · assumption
    · next hNone =>
        obtain ⟨token, hMem, hShows, hSpan⟩ := h
        cases hFound : tokens.find? isIdle with
        | some idle =>
            have hIdle : idle.isIdle = true := List.find?_some hFound
            cases idle with
            | gap g => rfl
            | excerpt e => simp [isIdle] at hIdle
            | separator s => simp [isIdle] at hIdle
        | none =>
            have hBusy : token.isIdle = false := by
              simpa using List.find?_eq_none.1 hFound token hMem
            exact absurd (List.any_eq_true.2 ⟨token, mem_effective.2 ⟨hMem, hShows, hBusy⟩, hSpan⟩)
              hNone
  have hAny : (Token.normalize tokens).any (·.span?.isSome) = true := by
    rw [Token.normalize, any_span_fuse, any_span_settle, hAnchored]
  obtain ⟨token, hMem, hSpan⟩ := List.any_eq_true.1 hAny
  exact ⟨token, hMem, (canonical_normalize tokens).shows token hMem, hSpan⟩

/-- Whether the first token with an effect, if there is one, is no separator. -/
def Led (tokens : List Token) : Prop :=
  ∀ token rest, effective tokens = token :: rest → token.isSeparator = false

theorem led_of_effective_eq_nil {tokens : List Token} (h : effective tokens = []) : Led tokens := by
  intro token rest hEq
  rw [h] at hEq
  cases hEq

/-- What has an effect in front decides what stands first. -/
theorem Led.append_of_ne_nil {before : List Token} (h : Led before) (hNe : effective before ≠ [])
    (after : List Token) : Led (before ++ after) := by
  intro token rest hEq
  rw [effective_append] at hEq
  cases hBefore : effective before with
  | nil => exact absurd hBefore hNe
  | cons first tail =>
      rw [hBefore] at hEq
      obtain ⟨rfl, -⟩ := List.cons.inj hEq
      exact h _ _ hBefore

/-- Parts that are not led by separators make up a sequence that is not. -/
theorem Led.append {before after : List Token} (hBefore : Led before) (hAfter : Led after) :
    Led (before ++ after) := by
  by_cases h : effective before = []
  · intro token rest hEq
    rw [effective_append, h, List.nil_append] at hEq
    exact hAfter token rest hEq
  · exact hBefore.append_of_ne_nil h after

/-- The canonical form of a sequence is led by a separator only if the sequence is. -/
theorem Led.normalize {tokens : List Token} (h : Led tokens) : Led (normalize tokens) := by
  intro token rest hEq
  rw [effective_normalize] at hEq
  cases hEffective : effective tokens with
  | nil =>
      rw [hEffective] at hEq
      cases hEq
  | cons first tail =>
      obtain ⟨grown, grownTail, hGrown, hExtends⟩ := exists_fuse_settle_eq_cons false first tail
      rw [hEffective, hGrown] at hEq
      obtain ⟨rfl, -⟩ := List.cons.inj hEq
      rw [← hExtends.isSeparator_eq]
      exact h first tail hEffective

/-- Source material, and no separator in front of it. -/
structure Grounded (tokens : List Token) : Prop where
  rooted : Rooted tokens
  led : Led tokens

theorem Grounded.normalize {tokens : List Token} (h : Grounded tokens) :
    Grounded (normalize tokens) := ⟨h.rooted.normalize, h.led.normalize⟩

/-- Separators with nothing to wake them show nothing. -/
theorem totalWidth_of_settled {tokens : List Token} (h : Settled false tokens)
    (hSeparators : ∀ token ∈ tokens, token.isSeparator = true) : totalWidth tokens = 0 := by
  induction tokens with
  | nil => rfl
  | cons token rest ih =>
      simp only [List.mem_cons, forall_eq_or_imp] at hSeparators
      cases token with
      | separator s =>
          obtain ⟨hDormant, hRest⟩ := h
          rw [totalWidth, width_separator, hDormant, ih hRest hSeparators.2]
          rfl
      | excerpt e => simp [isSeparator] at hSeparators
      | gap g => simp [isSeparator] at hSeparators

/-- Either all tokens of a canonical sequence have an effect, or it is an idle gap in front of
separators and shows nothing. -/
theorem Canonical.cases {tokens : List Token} (h : Canonical tokens) :
    effective tokens = tokens ∨ ∃ g rest, tokens = gap g :: rest ∧ (gap g).isIdle = true ∧
      (∀ other ∈ rest, other.isSeparator = true) ∧ totalWidth tokens = 0 := by
  cases hFound : tokens.find? isIdle with
  | none =>
      left
      refine effective_eq_self fun token hToken => ⟨h.shows token hToken, ?_⟩
      simpa using List.find?_eq_none.1 hFound token hToken
  | some idle =>
      right
      have hIdle : idle.isIdle = true := List.find?_some hFound
      obtain ⟨rest, hRest, hSeparators⟩ := h.idle idle (List.mem_of_find?_eq_some hFound) hIdle
      cases idle with
      | excerpt e => simp [isIdle] at hIdle
      | separator s => simp [isIdle] at hIdle
      | gap g =>
          have hKnown : g.unknown = false := by
            simp only [isIdle, Bool.and_eq_true, Bool.not_eq_true'] at hIdle
            exact hIdle.1
          have hSettled : Settled (false || g.unknown) rest := by
            have := h.settled
            rwa [hRest] at this
          refine ⟨g, rest, hRest, hIdle, hSeparators, ?_⟩
          rw [hRest, totalWidth, width_gap,
            totalWidth_of_settled (by simpa [hKnown] using hSettled) hSeparators]

/-- A canonical grounded sequence begins with source material. -/
theorem Canonical.first_of_grounded {tokens : List Token} (h : Canonical tokens)
    (hGrounded : Grounded tokens) :
    ∃ token rest, tokens = token :: rest ∧ token.isSeparator = false := by
  rcases h.cases with hAll | ⟨g, rest, rfl, -⟩
  · cases tokens with
    | nil =>
        obtain ⟨token, hMem, -⟩ := hGrounded.rooted
        cases hMem
    | cons token rest => exact ⟨token, rest, rfl, hGrounded.led token rest hAll⟩
  · exact ⟨gap g, rest, rfl, rfl⟩

end SourceView.Token
