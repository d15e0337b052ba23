/-! Sorted lists without repetition, built by insertion. -/
namespace SourceView

/-- Puts an item in front of the first one that it precedes, unless it is met before. -/
def insertNew {α : Type} [DecidableEq α] (precedes : α → α → Bool) (item : α) : List α → List α
  | [] => [item]
  | other :: rest =>
    if item = other then other :: rest
    else if precedes item other then item :: other :: rest
    else other :: insertNew precedes item rest

/-- The items in order, each once. -/
def sortNew {α : Type} [DecidableEq α] (precedes : α → α → Bool) (items : List α) : List α :=
  items.foldr (insertNew precedes) []

/-- Inserting adds the item and nothing else. -/
theorem mem_insertNew {α : Type} [DecidableEq α] {precedes : α → α → Bool} {item x : α}
    {items : List α} : x ∈ insertNew precedes item items ↔ x = item ∨ x ∈ items := by
  induction items with
  | nil => simp [insertNew]
  | cons other rest ih =>
    unfold insertNew
    split
    · next h => simp [h]
    · split
      · simp
      · simp only [List.mem_cons, ih]
        exact or_left_comm

/-- Sorting keeps the items. -/
theorem mem_sortNew {α : Type} [DecidableEq α] {precedes : α → α → Bool} {x : α}
    {items : List α} : x ∈ sortNew precedes items ↔ x ∈ items := by
  induction items with
  | nil => simp [sortNew]
  | cons item rest ih =>
    rw [List.mem_cons, ← ih]
    exact mem_insertNew

end SourceView
