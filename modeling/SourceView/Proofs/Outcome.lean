import SourceView.Proofs.Checks
import SourceView.Proofs.Edited

/-! How exclusions are taken. They are all looked at before anything is done, and the first one that
is not within the text, or not behind the one in front of it, decides which fault is returned. When
there is none, nothing on the way can fail, save for one case: where a view has no source material at
all, a marker has no place. -/
namespace SourceView

def Fault.misuse? (fault : Fault) : Option Misuse := fault.report?.map (·.misuse)

namespace Exclusion

/-- What is wrong with the exclusion at a place of a list, for a text of the given length. It is held
against the length first, and then against the one directly in front of it. -/
inductive Flaw (length : Nat) (exclusions : List Exclusion) : Nat → Misuse → Fault → Prop
  | beyond {index : Nat} {e : Exclusion} (hHere : exclusions[index]? = some e)
      (hStop : length < e.stop) :
      Flaw length exclusions index .outOfRange (.exclusionBeyondText e.start e.stop length)
  | overlap {index : Nat} {previous e : Exclusion} (hPrevious : exclusions[index]? = some previous)
      (hHere : exclusions[index + 1]? = some e) (hStop : e.stop ≤ length)
      (hStart : e.start < previous.stop) :
      Flaw length exclusions (index + 1) .invalidArgument
        (.exclusionsOverlap previous.start previous.stop e.start e.stop)

def FirstFlaw (length : Nat) (exclusions : List Exclusion) (misuse : Misuse) (fault : Fault) : Prop :=
  ∃ index, Flaw length exclusions index misuse fault ∧
    ∀ earlier < index, ∀ misuse fault, ¬ Flaw length exclusions earlier misuse fault

variable {length index : Nat} {exclusions : List Exclusion} {misuse : Misuse} {fault : Fault}

/-- The fault for a flaw reports the sort of misuse that the flaw is. -/
theorem Flaw.misuse?_eq (h : Flaw length exclusions index misuse fault) :
    fault.misuse? = some misuse := by
  cases h <;> rfl

theorem Flaw.index_lt (h : Flaw length exclusions index misuse fault) : index < exclusions.length := by
  cases h with
  | beyond hHere hStop => exact (List.getElem?_eq_some_iff.1 hHere).1
  | overlap hPrevious hHere hStop hStart => exact (List.getElem?_eq_some_iff.1 hHere).1

/-- The exclusion behind others has a flaw exactly when the check stops there. -/
theorem flaw_iff {front later : List Exclusion} {e : Exclusion} :
    Flaw length (front ++ e :: later) front.length misuse fault ↔
      (length < e.stop ∧ misuse = .outOfRange ∧
        fault = .exclusionBeyondText e.start e.stop length) ∨
      (e.stop ≤ length ∧ ∃ previous, front.getLast? = some previous ∧ e.start < previous.stop ∧
        misuse = .invalidArgument ∧
          fault = .exclusionsOverlap previous.start previous.stop e.start e.stop) := by
  have hHere : (front ++ e :: later)[front.length]? = some e := by simp
  constructor
  · intro h
    generalize hIndex : front.length = index at h hHere
    cases h with
    | beyond hSame hStop =>
        obtain rfl := Option.some.inj (hHere.symm.trans hSame)
        exact .inl ⟨hStop, rfl, rfl⟩
    | @overlap before previous _ hPrevious hSame hStop hStart =>
        obtain rfl := Option.some.inj (hHere.symm.trans hSame)
        refine .inr ⟨hStop, previous, ?_, hStart, rfl, rfl⟩
        rw [List.getElem?_append_left (by omega)] at hPrevious
        rw [List.getLast?_eq_getElem?, hIndex]
        exact hPrevious
  · rintro (⟨hStop, rfl, rfl⟩ | ⟨hStop, previous, hPrevious, hStart, rfl, rfl⟩)
    · exact .beyond hHere hStop
    · obtain ⟨before, rfl⟩ := List.getLast?_eq_some_iff.1 hPrevious
      rw [List.length_append, List.length_singleton] at hHere ⊢
      exact .overlap (by simp) hHere hStop hStart

/-- An exclusion has at most one flaw, since overlaps are looked for only within the text. -/
theorem Flaw.unique {other : Misuse} {another : Fault} (h : Flaw length exclusions index misuse fault)
    (hOther : Flaw length exclusions index other another) : fault = another := by
  cases h with
  | beyond hHere hStop =>
      cases hOther with
      | beyond hSame hBeyond =>
          obtain rfl := Option.some.inj (hHere.symm.trans hSame)
          rfl
      | overlap hPrevious hSame hWithin hStart =>
          obtain rfl := Option.some.inj (hHere.symm.trans hSame)
          omega
  | overlap hPrevious hHere hStop hStart =>
      cases hOther with
      | beyond hSame hBeyond =>
          obtain rfl := Option.some.inj (hHere.symm.trans hSame)
          omega
      | overlap hBefore hSame hWithin hOverlap =>
          obtain rfl := Option.some.inj (hPrevious.symm.trans hBefore)
          obtain rfl := Option.some.inj (hHere.symm.trans hSame)
          rfl

/-- The check of one exclusion stops at its flaw, or else goes on with the next. -/
theorem validateFrom_cons (front later : List Exclusion) (e : Exclusion) :
    (∃ misuse fault, Flaw length (front ++ e :: later) front.length misuse fault ∧
      validateFrom length front.getLast? (e :: later) = .error fault) ∨
    ((∀ misuse fault, ¬ Flaw length (front ++ e :: later) front.length misuse fault) ∧
      validateFrom length front.getLast? (e :: later) = validateFrom length (some e) later) := by
  simp only [flaw_iff, validateFrom]
  by_cases hBeyond : length < e.stop
  · refine .inl ⟨_, _, .inl ⟨hBeyond, rfl, rfl⟩, ?_⟩
    rw [if_pos (Int.ofNat_lt.2 hBeyond)]
  · have hWithin : ¬ (length : Int) < e.stop := by omega
    rw [if_neg hWithin]
    cases hLast : front.getLast? with
    | none => exact .inr ⟨by simp [hBeyond], rfl⟩
    | some previous =>
        by_cases hOverlap : e.start < previous.stop
        · refine .inl ⟨_, _, .inr ⟨by omega, previous, rfl, hOverlap, rfl, rfl⟩, ?_⟩
          simp only [if_pos hOverlap]
        · refine .inr ⟨?_, by simp only [if_neg hOverlap]⟩
          simp [hBeyond, hOverlap]

/-- The check of exclusions behind flawless ones stops at the first flaw. -/
theorem validateFrom_eq_error_iff {front rest : List Exclusion}
    (hFront : ∀ index < front.length, ∀ misuse fault,
      ¬ Flaw length (front ++ rest) index misuse fault) :
    validateFrom length front.getLast? rest = .error fault ↔
      ∃ misuse, FirstFlaw length (front ++ rest) misuse fault := by
  induction rest generalizing front with
  | nil =>
      refine iff_of_false (fun h => by cases h) ?_
      rintro ⟨misuse, index, hFlaw, -⟩
      have hIndex := hFlaw.index_lt
      rw [List.append_nil] at hIndex
      exact hFront index hIndex _ _ hFlaw
  | cons e later ih =>
      rcases @validateFrom_cons length front later e with
        ⟨misuse, found, hFlaw, hError⟩ | ⟨hNone, hNext⟩
      · rw [hError, Except.error.injEq]
        constructor
        · rintro rfl
          exact ⟨misuse, front.length, hFlaw, hFront⟩
        · rintro ⟨other, index, hOther, hEarlier⟩
          rcases Nat.lt_trichotomy index front.length with hLess | rfl | hGreater
          · exact absurd hOther (hFront index hLess _ _)
          · exact hFlaw.unique hOther
          · exact absurd hFlaw (hEarlier _ hGreater _ _)
      · have hWhole : front ++ [e] ++ later = front ++ e :: later := by simp
        have hRest := @ih (front ++ [e]) (by
          rw [hWhole, List.length_append, List.length_singleton]
          intro index hIndex misuse fault hFlaw
          rcases Nat.lt_or_eq_of_le (Nat.le_of_lt_succ hIndex) with hLess | rfl
          · exact hFront index hLess _ _ hFlaw
          · exact hNone _ _ hFlaw)
        rwa [hWhole, List.getLast?_concat, ← hNext] at hRest

/-- Checking a list returns the fault of the first flaw in it. -/
theorem validate_eq_error_iff :
    validate exclusions length = .error fault ↔ ∃ misuse, FirstFlaw length exclusions misuse fault :=
  @validateFrom_eq_error_iff length fault [] exclusions (fun _ h => absurd h (Nat.not_lt_zero _))

/-- A list is accepted when nothing is wrong with any of its exclusions. -/
theorem validate_eq_ok_iff_no_flaw :
    validate exclusions length = .ok () ↔
      ¬ ∃ misuse fault, FirstFlaw length exclusions misuse fault := by
  cases hValid : validate exclusions length with
  | ok =>
      refine iff_of_true rfl ?_
      rintro ⟨misuse, fault, hFlaw⟩
      rw [validate_eq_error_iff.2 ⟨misuse, hFlaw⟩] at hValid
      cases hValid
  | error fault =>
      obtain ⟨misuse, hFlaw⟩ := validate_eq_error_iff.1 hValid
      exact iff_of_false (fun h => by cases h) fun hNone => hNone ⟨misuse, fault, hFlaw⟩

/-- Some exclusion has a flaw exactly when one ends beyond the text or begins in front of the end of
any other before it. -/
theorem exists_firstFlaw_iff :
    (∃ misuse fault, FirstFlaw length exclusions misuse fault) ↔
      (∃ e ∈ exclusions, length < e.stop) ∨
        ∃ (first last : Nat) (a b : Exclusion), first < last ∧ exclusions[first]? = some a ∧
          exclusions[last]? = some b ∧ b.start < a.stop := by
  have hValid : (∃ misuse fault, FirstFlaw length exclusions misuse fault) ↔
      ¬ (exclusions.Pairwise (fun a b => a.stop ≤ b.start) ∧ ∀ e ∈ exclusions, e.stop ≤ length) := by
    rw [← validate_eq_ok_iff, validate_eq_ok_iff_no_flaw, Classical.not_not]
  rw [hValid, Classical.not_and_iff_not_or_not, or_comm, List.pairwise_iff_getElem]
  refine or_congr (by simp) ?_
  constructor
  · intro hOverlap
    simp only [Classical.not_forall, Nat.not_le] at hOverlap
    obtain ⟨first, last, hFirst, hLast, hOrder, hStart⟩ := hOverlap
    exact ⟨first, last, _, _, hOrder, List.getElem?_eq_getElem hFirst,
      List.getElem?_eq_getElem hLast, hStart⟩
  · rintro ⟨first, last, a, b, hOrder, hFirst, hLast, hStart⟩ hPairs
    obtain ⟨hFirstLt, rfl⟩ := List.getElem?_eq_some_iff.1 hFirst
    obtain ⟨hLastLt, rfl⟩ := List.getElem?_eq_some_iff.1 hLast
    exact Nat.not_le.2 hStart (hPairs first last hFirstLt hLastLt hOrder)

end Exclusion

namespace View
open Token Exclusion

/-- What becomes of a view. No check on the way refuses anything. Some exclusion has a flaw exactly
when one ends beyond the text or begins in front of the end of any other before it, and then the first
flaw is reported. Otherwise there is a view of the same domain and source, unless a marker is asked
for where there is no source material. -/
theorem excludeAll_outcome (view : View) (exclusions : List Exclusion) :
    view.excludeAllChecked exclusions = (view.excludeAll exclusions).map (·.tokens) ∧
    ((∃ misuse fault, FirstFlaw view.length exclusions misuse fault) ↔
      (∃ e ∈ exclusions, view.length < e.stop) ∨
        ∃ (first last : Nat) (a b : Exclusion), first < last ∧ exclusions[first]? = some a ∧
          exclusions[last]? = some b ∧ b.start < a.stop) ∧
    (∀ misuse fault, FirstFlaw view.length exclusions misuse fault →
      view.excludeAll exclusions = .error fault ∧ fault.misuse? = some misuse) ∧
    ((¬ ∃ misuse fault, FirstFlaw view.length exclusions misuse fault) →
      ((∃ token ∈ view.tokens, token.span?.isSome = true) ∨ (∀ e ∈ exclusions, e.unknown = false) →
        ∃ after, view.excludeAll exclusions = .ok after ∧ after.domain = view.domain ∧
          after.source = view.source) ∧
      ((∀ token ∈ view.tokens, token.span? = none) → (∃ e ∈ exclusions, e.unknown = true) →
        view.excludeAll exclusions = .error .noAnchor)) := by
  refine ⟨view.excludeAllChecked_eq exclusions, exists_firstFlaw_iff, ?_, fun hNone => ?_⟩
  · intro misuse fault hFlaw
    have hMisuse : fault.misuse? = some misuse := by
      obtain ⟨index, hHere, -⟩ := hFlaw
      exact hHere.misuse?_eq
    refine ⟨?_, hMisuse⟩
    rw [excludeAll, validate_eq_error_iff.2 ⟨misuse, hFlaw⟩]
    rfl
  · have hValid := validate_eq_ok_iff_no_flaw.2 hNone
    refine ⟨fun hPossible => ?_, excludeAll_of_unrooted hValid⟩
    by_cases hRooted : ∃ token ∈ view.tokens, token.span?.isSome = true
    · obtain ⟨swept, after, -, -, hAfter, hDomain, hSource, -⟩ :=
        exists_excludeAll (rooted_iff.2 hRooted) hValid
      exact ⟨after, hAfter, hDomain, hSource⟩
    · have hInactive := filter_isActive_of_unrooted hValid hRooted (hPossible.resolve_left hRooted)
      exact ⟨view, excludeAll_of_inactive hValid hInactive, rfl, rfl⟩

/-- Two exclusions that overlap are reported before one behind them that ends beyond the text. -/
theorem excludeAll_outcome_of_overlap :
    ∃ view, View.ofSource ⟨"doc", ['a', 'b', 'c']⟩ .plainText = .ok view ∧
      view.excludeAll [⟨⟨1, 2, by decide⟩, false⟩, ⟨⟨0, 3, by decide⟩, false⟩,
        ⟨⟨0, 9, by decide⟩, true⟩] = .error (.exclusionsOverlap 1 2 0 3) := by
  refine ⟨_, rfl, ((excludeAll_outcome _ _).2.2.1 .invalidArgument _ ?_).1⟩
  refine ⟨1, @Flaw.overlap _ _ 0 ⟨⟨1, 2, by decide⟩, false⟩ ⟨⟨0, 3, by decide⟩, false⟩ rfl rfl ?_ ?_, ?_⟩
  · decide
  · decide
  · intro earlier hEarlier misuse fault hFlaw
    obtain rfl : earlier = 0 := by omega
    cases hFlaw with
    | beyond hHere hStop =>
        cases hHere
        exact absurd hStop (by decide)

/-- An empty excerpt names a source but is dropped. What is left is a separator, and a marker in front
of it finds no place although nothing is wrong with the exclusion. -/
theorem no_anchor_in_front_of_separator :
    ∃ view, View.ofTokens .plainText [.excerpt ⟨⟨⟨0, 0, by decide⟩, "doc"⟩, [], rfl⟩,
        .separator ⟨' ', rfl, true⟩] = .ok view ∧
      (¬ ∃ misuse fault, FirstFlaw view.length [⟨⟨0, 0, by decide⟩, true⟩] misuse fault) ∧
      view.excludeAll [⟨⟨0, 0, by decide⟩, true⟩] = .error .noAnchor :=
  ⟨_, rfl, validate_eq_ok_iff_no_flaw.1 rfl, rfl⟩

end View
end SourceView
