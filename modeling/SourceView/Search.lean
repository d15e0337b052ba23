/-! Binary search. The entries of an array are divided by a test that holds of the first ones and
fails from some entry on; the search finds where that is. -/
namespace SourceView.Search

/-- Halves the stretch from `low` to `high` until it is empty. Each step consumes one unit of
`steps`, and each at least removes the middle entry, so as many steps as entries are enough. -/
def divide (test : Nat → Bool) (entries : Array Nat) : (steps low high : Nat) → Nat
  | 0, low, _ => low
  | steps + 1, low, high =>
    if low < high then
      let middle := (low + high) / 2
      match entries[middle]? with
      | some entry =>
        if test entry then divide test entries steps (middle + 1) high
        else divide test entries steps low middle
      | none => divide test entries steps low middle
    else low

/-- The position of the first entry that is not less than `bound`, or the number of entries. -/
def lowerBound (entries : Array Nat) (bound : Nat) : Nat :=
  divide (· < bound) entries entries.size 0 entries.size

/-- The search ends at a position whose left neighbour passes the test and which fails it itself,
if the tests at the ends of the stretch are of that kind. -/
theorem divide_spec {test : Nat → Bool} {entries : Array Nat} {steps low high : Nat}
    (hSteps : high - low ≤ steps) (hOrder : low ≤ high) (hHigh : high ≤ entries.size)
    (hSorted : ∀ i j, (hi : i < entries.size) → (hj : j < entries.size) → i ≤ j →
      test entries[j] = true → test entries[i] = true) :
    low ≤ divide test entries steps low high ∧ divide test entries steps low high ≤ high ∧
      (∀ i, low ≤ i → (hi : i < entries.size) → i < divide test entries steps low high →
        test entries[i] = true) ∧
      (∀ i, divide test entries steps low high ≤ i → i < high → (hi : i < entries.size) →
        test entries[i] = false) := by
  induction steps generalizing low high with
  | zero =>
    have : low = high := by omega
    subst this
    refine ⟨Nat.le_refl _, Nat.le_refl _, ?_, ?_⟩
    · intro i h1 _ h2
      simp only [divide] at h2
      omega
    · intro i h1 h2 _
      simp only [divide] at h1
      omega
  | succ steps ih =>
    by_cases hLt : low < high
    · have hMiddle : (low + high) / 2 < entries.size := by omega
      have hStep : divide test entries (steps + 1) low high =
          if test entries[(low + high) / 2] then
            divide test entries steps ((low + high) / 2 + 1) high
          else divide test entries steps low ((low + high) / 2) := by
        simp [divide, hLt, hMiddle]
      rw [hStep]
      split
      · next hTest =>
        obtain ⟨h1, h2, h3, h4⟩ :=
          @ih ((low + high) / 2 + 1) high (by omega) (by omega) hHigh
        refine ⟨by omega, h2, ?_, h4⟩
        intro i hi1 hi2 hi3
        by_cases hi : (low + high) / 2 + 1 ≤ i
        · exact h3 i hi hi2 hi3
        · exact hSorted i ((low + high) / 2) hi2 hMiddle (by omega) hTest
      · next hTest =>
        obtain ⟨h1, h2, h3, h4⟩ :=
          @ih low ((low + high) / 2) (by omega) (by omega) (by omega)
        refine ⟨h1, by omega, h3, ?_⟩
        intro i hi1 hi2 hi3
        by_cases hi : i < (low + high) / 2
        · exact h4 i hi1 hi hi3
        · cases hEntry : test entries[i] with
          | false => rfl
          | true => exact absurd (hSorted _ i hMiddle hi3 (by omega) hEntry) hTest
    · have hStep : divide test entries (steps + 1) low high = low := by simp [divide, hLt]
      rw [hStep]
      refine ⟨Nat.le_refl _, hOrder, ?_, ?_⟩ <;> intro i <;> omega

/-- In sorted entries, exactly the ones in front of the lower bound are less than the bound. -/
theorem lowerBound_spec {entries : Array Nat} {bound : Nat}
    (hSorted : ∀ i j, (hi : i < entries.size) → (hj : j < entries.size) → i ≤ j →
      entries[i] ≤ entries[j]) :
    lowerBound entries bound ≤ entries.size ∧
      ∀ i, (hi : i < entries.size) → (entries[i] < bound ↔ i < lowerBound entries bound) := by
  obtain ⟨_, h2, h3, h4⟩ := @divide_spec (· < bound) entries entries.size 0 entries.size
    (by omega) (by omega) (by omega)
    (by
      intro i j hi hj hij h
      have := hSorted i j hi hj hij
      simp only [decide_eq_true_eq] at h ⊢
      omega)
  refine ⟨h2, fun i hi => ⟨fun h => ?_, fun h => by simpa using h3 i (by omega) hi h⟩⟩
  cases Nat.lt_or_ge i (lowerBound entries bound) with
  | inl hLt => exact hLt
  | inr hGe => simpa [h] using h4 i hGe hi hi

end SourceView.Search
