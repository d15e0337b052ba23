import SourceView.Proofs.Regroups

/-! Sequences that follow the source without a break. The canonical form keeps such a sequence
unbroken, and so do exclusions, because a gap takes exactly the place of what it hides and a marker
takes none. -/
namespace SourceView

namespace Token

/-- Whether the spans of the tokens follow each other from one source offset to another. Tokens
without a span do not occur. -/
def Tiles : Nat → List Token → Nat → Prop
  | start, [], stop => start = stop
  | start, token :: rest, stop =>
    ∃ span, token.span? = some span ∧ span.start = start ∧ Tiles span.stop rest stop

theorem tiles_append {start stop : Nat} {before after : List Token} :
    Tiles start (before ++ after) stop ↔
      ∃ middle, Tiles start before middle ∧ Tiles middle after stop := by
  induction before generalizing start with
  | nil => simp [Tiles]
  | cons token rest ih =>
      simp only [List.cons_append, Tiles, ih]
      constructor
      · rintro ⟨span, hSpan, hStart, middle, hRest, hAfter⟩
        exact ⟨middle, ⟨span, hSpan, hStart, hRest⟩, hAfter⟩
      · rintro ⟨middle, ⟨span, hSpan, hStart, hRest⟩, hAfter⟩
        exact ⟨span, hSpan, hStart, middle, hRest, hAfter⟩

theorem Tiles.le {start stop : Nat} {tokens : List Token} (h : Tiles start tokens stop) :
    start ≤ stop := by
  induction tokens generalizing start with
  | nil => exact Nat.le_of_eq h
  | cons token rest ih =>
      obtain ⟨span, -, hStart, hRest⟩ := h
      have hOrdered := span.ordered
      have hLe := ih hRest
      omega

theorem Tiles.span?_isSome {start stop : Nat} {tokens : List Token} (h : Tiles start tokens stop) :
    ∀ token ∈ tokens, token.span?.isSome = true := by
  induction tokens generalizing start with
  | nil => simp
  | cons token rest ih =>
      obtain ⟨span, hSpan, -, hRest⟩ := h
      simp only [List.mem_cons, forall_eq_or_imp]
      exact ⟨by rw [hSpan]; rfl, ih hRest⟩

theorem Tiles.isSeparator {start stop : Nat} {tokens : List Token} (h : Tiles start tokens stop) :
    ∀ token ∈ tokens, token.isSeparator = false := by
  intro token hToken
  have hSpan := h.span?_isSome token hToken
  cases token with
  | excerpt e => rfl
  | gap g => rfl
  | separator s => cases hSpan

/-- Tokens tile a stretch of the source when all of them have spans and each span begins where the
one before it ends. -/
theorem tiles_iff {start stop : Nat} {tokens : List Token} :
    Tiles start tokens stop ↔
      Span.Chained (· = ·) start (spans tokens) stop ∧
        ∀ token ∈ tokens, token.span?.isSome = true := by
  induction tokens generalizing start with
  | nil => simp [Tiles, spans, Span.Chained]
  | cons token rest ih =>
      cases hSpan : token.span? with
      | none => simp [Tiles, hSpan]
      | some span =>
          have hSpans : spans (token :: rest) = span :: spans rest := List.filterMap_cons_some hSpan
          simp only [Tiles, hSpans, Span.Chained, hSpan, ih, List.mem_cons, forall_eq_or_imp,
            Option.isSome_some, true_and, Option.some.injEq, exists_eq_left', and_assoc,
            @eq_comm _ start]

/-- Fusing neighbours and dropping empty spans keeps a stretch unbroken. -/
theorem Tiles.normalize {start stop : Nat} {tokens : List Token} (h : Tiles start tokens stop) :
    Tiles start (normalize tokens) stop := by
  obtain ⟨hChained, hSpans⟩ := tiles_iff.1 h
  refine tiles_iff.2 ⟨(regroups_normalize tokens).chained Span.following_eq hChained, ?_⟩
  exact forall_mem_normalize hSpans (fun _ _ h => h) (fun _ _ _ _ _ => rfl) (fun _ _ _ _ => rfl)

/-- Sequences over stretches that follow each other are a sequence over all of them. -/
theorem tiles_flatMap {views : List View} {bounds : Nat → Nat}
    (h : ∀ i, (hi : i < views.length) → Tiles (bounds i) views[i].tokens (bounds (i + 1))) :
    Tiles (bounds 0) (views.flatMap (·.tokens)) (bounds views.length) := by
  induction views generalizing bounds with
  | nil => rfl
  | cons view rest ih =>
      rw [List.flatMap_cons]
      refine tiles_append.2 ⟨bounds 1, h 0 (Nat.zero_lt_succ _), ?_⟩
      exact @ih (fun i => bounds (i + 1)) fun i hi => h (i + 1) (Nat.succ_lt_succ hi)

end Token

namespace View
open Token

/-- Exclusions leave the extent of a view as it is. -/
theorem tiles_excludeAll {view after : View} {exclusions : List Exclusion} {start stop : Nat}
    (hRooted : Rooted view.tokens) (hTiles : Tiles start view.tokens stop)
    (h : view.excludeAll exclusions = .ok after) :
    Tiles start after.tokens stop := by
  obtain ⟨hChained, hSpans⟩ := tiles_iff.1 hTiles
  refine tiles_iff.2 ⟨(regroups_excludeAll hRooted h).chained Span.following_eq hChained, ?_⟩
  obtain ⟨swept, found, hSwept, -, hFound, -, -, hTokens⟩ :=
    exists_excludeAll hRooted (validate_of_excludeAll h)
  obtain rfl : after = found := Except.ok.inj (h.symm.trans hFound)
  have hAtoms := forall_mem_atomize hSpans (fun _ _ _ => rfl) (fun _ _ _ => rfl)
  have hInherited : Exclusion.Inherited fun _ => True :=
    ⟨fun _ _ _ _ => trivial, fun _ _ => trivial, fun _ _ => trivial⟩
  have hKept : ∀ token ∈ swept, token.span?.isSome = true :=
    hInherited.forall_mem_sweep (fun _ _ => rfl) (fun _ _ _ _ => trivial) hSwept
      fun piece hPiece => hAtoms piece.2 (mem_of_mem_placed hPiece)
  rw [hTokens]
  exact forall_mem_normalize hKept (fun _ _ h => h) (fun _ _ _ _ _ => rfl) (fun _ _ _ _ => rfl)

end View
end SourceView
