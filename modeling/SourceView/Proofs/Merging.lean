import Mathlib.Data.List.Sort
import Mathlib.Logic.Relation
import SourceView.Recipe

/-! Merging. Ranges that share a character are linked, and so are those between which there is a chain
of such ranges. Merging makes one range of all that are linked and keeps those apart that are not,
also where they touch. -/
namespace SourceView

namespace Exclusion

def Covered (ranges : List Exclusion) (position : Nat) : Prop :=
  ∃ a ∈ ranges, a.start ≤ position ∧ position < a.stop

instance (ranges : List Exclusion) (position : Nat) : Decidable (Covered ranges position) :=
  inferInstanceAs (Decidable (∃ a ∈ ranges, _))

/-- Whether two ranges are joined by a chain of ranges of which neighbours share a character. -/
def Linked (ranges : List Exclusion) : Exclusion → Exclusion → Prop :=
  Relation.EqvGen fun a b => a ∈ ranges ∧ b ∈ ranges ∧ a.meets b.toRange = true

theorem Covered.mono {ranges others : List Exclusion} (hSub : ranges ⊆ others) {position : Nat}
    (h : Covered ranges position) : Covered others position := by
  obtain ⟨a, ha, hPosition⟩ := h
  exact ⟨a, hSub ha, hPosition⟩

theorem covered_append_iff {ranges others : List Exclusion} {position : Nat} :
    Covered (ranges ++ others) position ↔ Covered ranges position ∨ Covered others position := by
  simp [Covered, or_and_right, exists_or]

theorem Linked.mono {ranges others : List Exclusion} (hSub : ranges ⊆ others) {a b : Exclusion}
    (h : Linked ranges a b) : Linked others a b :=
  Relation.EqvGen.mono (fun _ _ hMeets => ⟨hSub hMeets.1, hSub hMeets.2.1, hMeets.2.2⟩) _ _ h

theorem linked_of_shared {ranges : List Exclusion} {a b : Exclusion} (ha : a ∈ ranges)
    (hb : b ∈ ranges) {position : Nat} (hHere : a.start ≤ position ∧ position < a.stop)
    (hThere : b.start ≤ position ∧ position < b.stop) : Linked ranges a b :=
  .rel a b ⟨ha, hb, Range.meets_iff.2 ⟨position, hHere.1, hHere.2, hThere.1, hThere.2⟩⟩

/-- A range made of others: it lies exactly over them, begins with one of them, is unknown when one of
them is, and all of them are linked. -/
structure Gathers (members : List Exclusion) (e : Exclusion) : Prop where
  inside : ∀ a ∈ members, e.start ≤ a.start ∧ a.stop ≤ e.stop
  opened : ∃ a ∈ members, a.start = e.start
  filled : ∀ position, e.start ≤ position → position < e.stop → Covered members position
  linked : ∀ a ∈ members, ∀ b ∈ members, Linked members a b
  unknown_iff : e.unknown = true ↔ ∃ a ∈ members, a.unknown = true

theorem gathers_singleton (e : Exclusion) : Gathers [e] e := by
  refine ⟨?_, ⟨e, List.mem_singleton.2 rfl, rfl⟩, ?_, ?_, by simp⟩
  · simp
  · intro position hStart hStop
    exact ⟨e, List.mem_singleton.2 rfl, hStart, hStop⟩
  · simp only [List.mem_singleton, forall_eq]
    exact .refl e

/-- A range that begins inside another one is linked to some of those that it was made of. -/
theorem Gathers.add {members : List Exclusion} {last next : Exclusion} (h : Gathers members last)
    (hStart : last.start ≤ next.start) (hInside : next.start < last.stop)
    (hProper : next.start < next.stop) :
    Gathers (members ++ [next]) (Recipe.unite last next) := by
  have hOld : members ⊆ members ++ [next] := List.subset_append_left _ _
  have hNew : next ∈ members ++ [next] := by simp
  obtain ⟨nearest, hNearest, hHere⟩ := h.filled next.start hStart hInside
  have hLink : Linked (members ++ [next]) next nearest :=
    linked_of_shared hNew (hOld hNearest) ⟨Nat.le_refl _, hProper⟩ hHere
  have hAll (a : Exclusion) (ha : a ∈ members ++ [next]) : Linked (members ++ [next]) nearest a := by
    rcases List.mem_append.1 ha with hMember | hLast
    · exact (h.linked nearest hNearest a hMember).mono hOld
    · obtain rfl := List.mem_singleton.1 hLast
      exact .symm _ _ hLink
  refine ⟨?_, ?_, ?_, fun a ha b hb => .trans _ nearest _ (.symm _ _ (hAll a ha)) (hAll b hb), ?_⟩
  · intro a ha
    rcases List.mem_append.1 ha with hMember | hLast
    · obtain ⟨hFirst, hEnd⟩ := h.inside a hMember
      exact ⟨hFirst, Nat.le_trans hEnd (Nat.le_max_left _ _)⟩
    · obtain rfl := List.mem_singleton.1 hLast
      exact ⟨hStart, Nat.le_max_right _ _⟩
  · obtain ⟨a, ha, hOpens⟩ := h.opened
    exact ⟨a, hOld ha, hOpens⟩
  · intro position hFrom hTo
    by_cases hLast : position < last.stop
    · exact (h.filled position hFrom hLast).mono hOld
    · have hStop : position < max last.stop next.stop := hTo
      exact ⟨next, hNew, by omega, by omega⟩
  · simp [Recipe.unite, h.unknown_iff, or_and_right, exists_or]

/-- What merging makes of ranges: ranges one behind the other, each made of some of them, and each of
them is part of one. -/
structure Merges (ranges merged : List Exclusion) : Prop where
  apart : merged.Pairwise fun a b => a.stop ≤ b.start
  gathered : ∀ e ∈ merged, ∃ members, members ⊆ ranges ∧ Gathers members e
  kept : ∀ a ∈ ranges, ∃ e ∈ merged, ∃ members, a ∈ members ∧ members ⊆ ranges ∧ Gathers members e

/-- What merging makes of ranges depends only on which ranges there are. -/
theorem Merges.congr {ranges others merged : List Exclusion} (h : Merges ranges merged)
    (hSame : ∀ a, a ∈ others ↔ a ∈ ranges) : Merges others merged := by
  refine ⟨h.apart, fun e he => ?_, fun a ha => ?_⟩
  · obtain ⟨members, hSub, hGathers⟩ := h.gathered e he
    exact ⟨members, fun _ hMember => (hSame _).2 (hSub hMember), hGathers⟩
  · obtain ⟨e, he, members, hMember, hSub, hGathers⟩ := h.kept a ((hSame a).1 ha)
    exact ⟨e, he, members, hMember, fun _ hOther => (hSame _).2 (hSub hOther), hGathers⟩

/-- Uniting the first two of sorted ranges leaves them sorted. -/
theorem pairwise_unite {last next : Exclusion} {rest : List Exclusion}
    (hSorted : (last :: next :: rest).Pairwise fun a b => a.start ≤ b.start) :
    (Recipe.unite last next :: rest).Pairwise fun a b => a.start ≤ b.start := by
  obtain ⟨hLast, hRest⟩ := List.pairwise_cons.1 hSorted
  exact List.pairwise_cons.2 ⟨fun b hb => hLast b (List.mem_cons_of_mem _ hb),
    (List.pairwise_cons.1 hRest).2⟩

/-- None of the ranges that result begins in front of the first one. -/
theorem start_le_of_mem_mergeOnto {last e : Exclusion} {rest : List Exclusion}
    (hSorted : (last :: rest).Pairwise fun a b => a.start ≤ b.start)
    (he : e ∈ Recipe.mergeOnto last rest) : last.start ≤ e.start := by
  induction rest generalizing last with
  | nil =>
      obtain rfl := List.mem_singleton.1 he
      exact Nat.le_refl _
  | cons next rest ih =>
      obtain ⟨hLast, hRest⟩ := List.pairwise_cons.1 hSorted
      simp only [List.mem_cons, forall_eq_or_imp] at hLast
      rw [Recipe.mergeOnto] at he
      split at he
      · -- The united range begins where the last one does.
        have hStart := ih (pairwise_unite hSorted) he
        exact hStart
      · rcases List.mem_cons.1 he with rfl | hLater
        · exact Nat.le_refl _
        · exact Nat.le_trans hLast.1 (ih hRest hLater)

/-- Ranges in order are merged onto one that is made of others. -/
theorem merges_mergeOnto {members rest : List Exclusion} {last : Exclusion}
    (hGathers : Gathers members last)
    (hSorted : (last :: rest).Pairwise fun a b => a.start ≤ b.start)
    (hProper : ∀ a ∈ rest, a.start < a.stop) :
    Merges (members ++ rest) (Recipe.mergeOnto last rest) := by
  induction rest generalizing members last with
  | nil =>
      rw [List.append_nil, Recipe.mergeOnto]
      refine ⟨List.pairwise_singleton _ _, ?_, fun a ha => ?_⟩
      · simp only [List.mem_singleton, forall_eq]
        exact ⟨members, List.Subset.refl _, hGathers⟩
      · exact ⟨last, List.mem_singleton.2 rfl, members, ha, List.Subset.refl _, hGathers⟩
  | cons next rest ih =>
      obtain ⟨hLast, hRest⟩ := List.pairwise_cons.1 hSorted
      simp only [List.mem_cons, forall_eq_or_imp] at hLast hProper
      rw [Recipe.mergeOnto]
      split
      · next hInside =>
          have hMerged :=
            ih (hGathers.add hLast.1 hInside hProper.1) (pairwise_unite hSorted) hProper.2
          rwa [List.append_assoc] at hMerged
      · next hApart =>
          have hMerged := ih (gathers_singleton next) hRest hProper.2
          have hMembers : members ⊆ members ++ next :: rest := List.subset_append_left _ _
          have hOthers : [next] ++ rest ⊆ members ++ next :: rest := List.subset_append_right _ _
          refine ⟨List.pairwise_cons.2 ⟨fun e he => ?_, hMerged.apart⟩, ?_, fun a ha => ?_⟩
          · have hStart := start_le_of_mem_mergeOnto hRest he
            omega
          · simp only [List.mem_cons, forall_eq_or_imp]
            refine ⟨⟨members, hMembers, hGathers⟩, fun e he => ?_⟩
            obtain ⟨others, hSub, hOther⟩ := hMerged.gathered e he
            exact ⟨others, List.Subset.trans hSub hOthers, hOther⟩
          · rcases List.mem_append.1 ha with hMember | hLater
            · exact ⟨last, List.mem_cons_self, members, hMember, hMembers, hGathers⟩
            · obtain ⟨e, he, others, hOther, hSub, hMade⟩ := hMerged.kept a hLater
              exact ⟨e, List.mem_cons_of_mem _ he, others, hOther, List.Subset.trans hSub hOthers,
                hMade⟩

/-- Ranges are sorted by where they begin, and by where they end if they begin together. -/
theorem comesFirst_iff {a b : Exclusion} :
    Recipe.comesFirst a b = true ↔ a.start < b.start ∨ a.start = b.start ∧ a.stop ≤ b.stop := by
  simp [Recipe.comesFirst]

/-- Sorting brings together what shares a character, so one pass merges all ranges. -/
theorem merges_merge {ranges : List Exclusion} (hProper : ∀ a ∈ ranges, a.start < a.stop) :
    Merges ranges (Recipe.merge ranges) := by
  have hSorted : (ranges.mergeSort Recipe.comesFirst).Pairwise
      fun a b => Recipe.comesFirst a b = true := by
    apply List.pairwise_mergeSort
    · intro a b c
      simp only [comesFirst_iff]
      omega
    · intro a b
      rw [Bool.or_eq_true, comesFirst_iff, comesFirst_iff]
      omega
  have hSame (a : Exclusion) : a ∈ ranges ↔ a ∈ ranges.mergeSort Recipe.comesFirst :=
    List.mem_mergeSort.symm
  unfold Recipe.merge
  cases hRanges : ranges.mergeSort Recipe.comesFirst with
  | nil =>
      rw [hRanges] at hSame
      exact Merges.congr ⟨.nil, by simp, by simp⟩ hSame
  | cons first rest =>
      rw [hRanges] at hSame hSorted
      have hStarts : (first :: rest).Pairwise fun a b => a.start ≤ b.start :=
        hSorted.imp fun hFirst => by
          have := comesFirst_iff.1 hFirst
          omega
      refine Merges.congr (merges_mergeOnto (gathers_singleton first) hStarts ?_) hSame
      intro a ha
      exact hProper a ((hSame a).2 (List.mem_cons_of_mem _ ha))

namespace Merges
variable {ranges merged : List Exclusion}

/-- Merging covers what the ranges cover. -/
theorem covered_iff (h : Merges ranges merged) {position : Nat} :
    Covered merged position ↔ Covered ranges position := by
  constructor
  · rintro ⟨e, he, hStart, hStop⟩
    obtain ⟨members, hSub, hGathers⟩ := h.gathered e he
    exact (hGathers.filled position hStart hStop).mono hSub
  · rintro ⟨a, ha, hStart, hStop⟩
    obtain ⟨e, he, members, hMember, -, hGathers⟩ := h.kept a ha
    obtain ⟨hFirst, hLast⟩ := hGathers.inside a hMember
    exact ⟨e, he, by omega, by omega⟩

/-- Merged ranges are not empty and lie within what the ranges lie within. -/
theorem proper (h : Merges ranges merged) {length : Nat}
    (hRanges : ∀ a ∈ ranges, a.start < a.stop ∧ a.stop ≤ length) :
    ∀ e ∈ merged, e.start < e.stop ∧ e.stop ≤ length := by
  intro e he
  obtain ⟨members, hSub, hGathers⟩ := h.gathered e he
  obtain ⟨opening, hOpening, hOpens⟩ := hGathers.opened
  have hInside := hGathers.inside opening hOpening
  have hProper := hRanges opening (hSub hOpening)
  obtain ⟨last, hLast, -, hStop⟩ := hGathers.filled (e.stop - 1) (by omega) (by omega)
  have hEnd := (hRanges last (hSub hLast)).2
  omega

/-- No two merged ranges hold the same character. -/
theorem eq_of_shared (h : Merges ranges merged) {d e : Exclusion} (hd : d ∈ merged) (he : e ∈ merged)
    {position : Nat} (hHere : d.start ≤ position ∧ position < d.stop)
    (hThere : e.start ≤ position ∧ position < e.stop) : d = e := by
  obtain ⟨before, after, rfl⟩ := List.append_of_mem hd
  obtain ⟨-, hBehind, hAcross⟩ := List.pairwise_append.1 h.apart
  rcases List.mem_append.1 he with hFront | hRest
  · have hOrder := hAcross e hFront d List.mem_cons_self
    omega
  · rcases List.mem_cons.1 hRest with rfl | hAfter
    · rfl
    · have hOrder := (List.pairwise_cons.1 hBehind).1 e hAfter
      omega

/-- All that is linked to a range lies over the merged range that holds it. -/
theorem inside_of_linked (h : Merges ranges merged) {a b e : Exclusion} (he : e ∈ merged)
    (hLinked : Linked ranges a b) :
    (e.start ≤ a.start ∧ a.stop ≤ e.stop) ↔ (e.start ≤ b.start ∧ b.stop ≤ e.stop) := by
  induction hLinked with
  | refl a => rfl
  | symm a b _ ih => exact ih.symm
  | trans a b c _ _ ihFirst ihSecond => exact ihFirst.trans ihSecond
  | rel a b hMeets =>
      obtain ⟨ha, hb, hShared⟩ := hMeets
      obtain ⟨position, hStart, hStop, hOtherStart, hOtherStop⟩ := Range.meets_iff.1 hShared
      have hKept (c : Exclusion) (hc : c ∈ ranges) (hHere : c.start ≤ position ∧ position < c.stop)
          (d : Exclusion) (hThere : d.start ≤ position ∧ position < d.stop)
          (hInside : e.start ≤ d.start ∧ d.stop ≤ e.stop) : e.start ≤ c.start ∧ c.stop ≤ e.stop := by
        obtain ⟨other, hOther, members, hMember, -, hGathers⟩ := h.kept c hc
        have hOver := hGathers.inside c hMember
        obtain rfl := @eq_of_shared _ _ h e other he hOther position (by omega) (by omega)
        exact hOver
      exact ⟨hKept b hb ⟨hOtherStart, hOtherStop⟩ a ⟨hStart, hStop⟩,
        hKept a ha ⟨hStart, hStop⟩ b ⟨hOtherStart, hOtherStop⟩⟩

/-- The starts of the merged ranges that are unknown are those of the linked ranges among which one is
unknown. -/
theorem exists_unknown_iff (h : Merges ranges merged) {p : Nat → Prop} :
    (∃ e ∈ merged, e.unknown = true ∧ p e.start) ↔
      ∃ a ∈ ranges, a.unknown = true ∧ ∃ first ∈ ranges, Linked ranges a first ∧
        (∀ b ∈ ranges, Linked ranges a b → first.start ≤ b.start) ∧ p first.start := by
  constructor
  · rintro ⟨e, he, hUnknown, hStart⟩
    obtain ⟨members, hSub, hGathers⟩ := h.gathered e he
    obtain ⟨a, ha, hMarks⟩ := hGathers.unknown_iff.1 hUnknown
    obtain ⟨first, hFirst, hOpens⟩ := hGathers.opened
    refine ⟨a, hSub ha, hMarks, first, hSub hFirst, (hGathers.linked a ha first hFirst).mono hSub, ?_,
      hOpens ▸ hStart⟩
    intro b hb hLinked
    have hInside := (h.inside_of_linked he hLinked).1 (hGathers.inside a ha)
    omega
  · rintro ⟨a, ha, hMarks, first, hFirst, hLinked, hLeast, hStart⟩
    obtain ⟨e, he, members, hMember, hSub, hGathers⟩ := h.kept a ha
    obtain ⟨opening, hOpening, hOpens⟩ := hGathers.opened
    have hInside := (h.inside_of_linked he hLinked).1 (hGathers.inside a hMember)
    have hOrder := hLeast opening (hSub hOpening)
      ((hGathers.linked a hMember opening hOpening).mono hSub)
    have hSame : e.start = first.start := by omega
    exact ⟨e, he, hGathers.unknown_iff.2 ⟨a, hMember, hMarks⟩, hSame ▸ hStart⟩

/-- Where two ways to merge the same ranges both have a range over one of them, the second reaches as
far as the first and is unknown if it is. -/
theorem inside_of_shared {others : List Exclusion} (hProper : ∀ a ∈ ranges, a.start < a.stop)
    (h : Merges ranges merged) (hOther : Merges ranges others) {a d e : Exclusion} (ha : a ∈ ranges)
    (hd : d ∈ merged) (he : e ∈ others) (hOver : d.start ≤ a.start ∧ a.stop ≤ d.stop)
    (hThere : e.start ≤ a.start ∧ a.stop ≤ e.stop) :
    e.start ≤ d.start ∧ d.stop ≤ e.stop ∧ (d.unknown = true → e.unknown = true) := by
  obtain ⟨members, hSub, hGathers⟩ := h.gathered d hd
  have hLong := hProper a ha
  obtain ⟨near, hNear, hNearHere⟩ := hGathers.filled a.start hOver.1 (by omega)
  have hLink : Linked ranges a near :=
    linked_of_shared ha (hSub hNear) ⟨Nat.le_refl _, hLong⟩ hNearHere
  have hInside (b : Exclusion) (hb : b ∈ members) : e.start ≤ b.start ∧ b.stop ≤ e.stop :=
    (hOther.inside_of_linked he
      (.trans _ near _ hLink ((hGathers.linked near hNear b hb).mono hSub))).1 hThere
  refine ⟨?_, ?_, fun hUnknown => ?_⟩
  · obtain ⟨opening, hOpening, hOpens⟩ := hGathers.opened
    exact hOpens ▸ (hInside opening hOpening).1
  · obtain ⟨last, hLast, -, hStop⟩ := hGathers.filled (d.stop - 1) (by omega) (by omega)
    have hEnd := (hInside last hLast).2
    omega
  · obtain ⟨b, hb, hMarks⟩ := hGathers.unknown_iff.1 hUnknown
    obtain ⟨keeper, hKeeper, kept, hKept, -, hMade⟩ := hOther.kept b (hSub hb)
    have hShort := hProper b (hSub hb)
    have hHere := hInside b hb
    have hHeld := hMade.inside b hKept
    obtain rfl := @eq_of_shared _ _ hOther keeper e hKeeper he b.start (by omega) (by omega)
    exact hMade.unknown_iff.2 ⟨b, hKept, hMarks⟩

/-- A range of one way to merge is also one of any other way. Both are made of all ranges that are
linked to a member of it. -/
theorem mem_of_mem {others : List Exclusion} (hProper : ∀ a ∈ ranges, a.start < a.stop)
    (h : Merges ranges merged) (hOther : Merges ranges others) {d : Exclusion} (hd : d ∈ merged) :
    d ∈ others := by
  obtain ⟨members, hSub, hGathers⟩ := h.gathered d hd
  obtain ⟨a, ha, -⟩ := hGathers.opened
  obtain ⟨e, he, kept, hKept, -, hMade⟩ := hOther.kept a (hSub ha)
  have hOver := hGathers.inside a ha
  have hThere := hMade.inside a hKept
  obtain ⟨hStart, hStop, hUnknown⟩ := inside_of_shared hProper h hOther (hSub ha) hd he hOver hThere
  obtain ⟨hBackStart, hBackStop, hBackUnknown⟩ :=
    inside_of_shared hProper hOther h (hSub ha) he hd hThere hOver
  have hSame : d = e := by
    obtain ⟨⟨start, stop, hOrdered⟩, unknown⟩ := d
    obtain ⟨⟨start', stop', hOrdered'⟩, unknown'⟩ := e
    obtain rfl : start = start' := Nat.le_antisymm hBackStart hStart
    obtain rfl : stop = stop' := Nat.le_antisymm hStop hBackStop
    obtain rfl : unknown = unknown' := Bool.eq_iff_iff.2 ⟨hUnknown, hBackUnknown⟩
    rfl
  exact hSame ▸ he

/-- Merged ranges that have characters begin one behind the other. -/
theorem ascending (hProper : ∀ a ∈ ranges, a.start < a.stop) (h : Merges ranges merged) :
    merged.Pairwise fun a b => a.start < b.start := by
  refine h.apart.imp_of_mem fun {d e} hd _ hApart => ?_
  obtain ⟨members, hSub, hGathers⟩ := h.gathered d hd
  obtain ⟨opening, hOpening, -⟩ := hGathers.opened
  have hInside := hGathers.inside opening hOpening
  have hLong := hProper opening (hSub hOpening)
  omega

/-- Ranges that are not empty can be merged in one way only. -/
theorem unique {others : List Exclusion} (hProper : ∀ a ∈ ranges, a.start < a.stop)
    (h : Merges ranges merged) (hOther : Merges ranges others) : merged = others := by
  have hIrrefl : Std.Irrefl fun a b : Exclusion => a.start < b.start := ⟨fun a => Nat.lt_irrefl _⟩
  exact (h.ascending hProper).eq_of_mem_iff (hOther.ascending hProper) fun _ =>
    ⟨h.mem_of_mem hProper hOther, hOther.mem_of_mem hProper h⟩

end Merges

/-- Merging depends on which ranges there are, not on their order or on how often they occur. -/
theorem merge_congr {ranges others : List Exclusion} (hProper : ∀ a ∈ ranges, a.start < a.stop)
    (hSame : ∀ a, a ∈ others ↔ a ∈ ranges) : Recipe.merge others = Recipe.merge ranges := by
  have hOthers : ∀ a ∈ others, a.start < a.stop := fun a ha => hProper a ((hSame a).1 ha)
  exact Merges.unique hOthers (merges_merge hOthers) ((merges_merge hProper).congr hSame)

end Exclusion
end SourceView
