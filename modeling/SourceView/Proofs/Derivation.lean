import SourceView.Proofs.Batch
import SourceView.View.Join

/-! Views that are built from sources. They are grounded, whatever was joined, hidden or marked on
the way, and a batch of exclusions does to them what the exclusions do one by one from the last to
the first. -/
namespace SourceView

namespace View
open Token

/-- One exclusion on its own: its range is hidden, and marked where the exclusion asks for that. -/
def excludeOne (view : View) (e : Exclusion) : Except Fault View :=
  if e.unknown then view.mark (.range e.toRange) else view.hide (.range e.toRange)

/-- The exclusions one at a time, from the last to the first. -/
def excludeBackwards (view : View) (exclusions : List Exclusion) : Except Fault View :=
  exclusions.foldrM (fun e later => later.excludeOne e) view

/-- A view that is obtained from the text of a source by joining, hiding, marking and trimming. -/
inductive SourceBuilt : View → Prop
  | ofSpan {α : Type} [Provider α] (provider : α) (span : Span) (domain : Domain) {view : View}
      (h : View.ofSpan provider span domain = .ok view) : SourceBuilt view
  | ofSource (source : Source) (domain : Domain) {view : View}
      (h : View.ofSource source domain = .ok view) : SourceBuilt view
  | join {views : List View} {view : View} (hViews : ∀ part ∈ views, SourceBuilt part)
      (h : View.join views = .ok view) : SourceBuilt view
  | joinWithBlank {views : List View} {view : View} (blank : List Char)
      (hViews : ∀ part ∈ views, SourceBuilt part)
      (h : View.joinWithBlank views blank = .ok (some view)) : SourceBuilt view
  | hide {before view : View} (wanted : Loose) (hBefore : SourceBuilt before)
      (h : before.hide wanted = .ok view) : SourceBuilt view
  | mark {before view : View} (wanted : Loose) (hBefore : SourceBuilt before)
      (h : before.mark wanted = .ok view) : SourceBuilt view
  | excludeAll {before view : View} (exclusions : List Exclusion) (hBefore : SourceBuilt before)
      (h : before.excludeAll exclusions = .ok view) : SourceBuilt view
  | trim {before view : View} (hBefore : SourceBuilt before) (h : before.trim = .ok view) :
      SourceBuilt view

theorem excludeOne_eq (view : View) (e : Exclusion) : view.excludeOne e = view.excludeAll [e] := by
  obtain ⟨range, unknown⟩ := e
  cases unknown <;> rfl

/-- Exclusions turn grounded views into grounded ones, since what they hide at the beginning leaves a
gap there. -/
theorem grounded_excludeAll {view after : View} {exclusions : List Exclusion}
    (hGrounded : Grounded view.tokens) (h : view.excludeAll exclusions = .ok after) :
    Grounded after.tokens := by
  have hValid := validate_of_excludeAll h
  obtain ⟨swept, found, hSwept, hRooted, hFound, -, -, hTokens⟩ :=
    exists_excludeAll hGrounded.rooted hValid
  obtain rfl : after = found := Except.ok.inj (h.symm.trans hFound)
  obtain ⟨first, rest, span, hFirst, hSpan, -⟩ := view.canonical.first_atom hGrounded
  have hWithin : ∀ e ∈ exclusions.filter Exclusion.isActive, e.stop ≤ totalWidth view.tokens := by
    intro e he
    rw [← length_shownText]
    exact (Exclusion.validate_eq_ok_iff.1 hValid).2 e (List.mem_filter.1 he).1
  have hBegins := Exclusion.begins_sweep view.canonical hGrounded hWithin hFirst hSpan hSwept
  rw [hTokens]
  exact Grounded.normalize ⟨hRooted, hBegins.led⟩

/-- An exclusion in front of others may be applied to what the others have left. -/
theorem excludeAll_cons {view : View} (hGrounded : Grounded view.tokens) {e : Exclusion}
    {later : List Exclusion} (hValid : Exclusion.validate (e :: later) view.length = .ok ()) :
    ∃ after whole, view.excludeAll later = .ok after ∧ view.excludeAll (e :: later) = .ok whole ∧
      after.excludeAll [e] = .ok whole := by
  have hLength : view.length = totalWidth view.tokens := length_shownText _
  obtain ⟨hOrder, hStops⟩ := Exclusion.validate_eq_ok_iff.1 hValid
  obtain ⟨hFirst, hLaterOrder⟩ := List.pairwise_cons.1 hOrder
  simp only [List.mem_cons, forall_eq_or_imp, hLength] at hStops
  obtain ⟨hStop, hWithin⟩ := hStops
  have hLaterValid : Exclusion.validate later view.length = .ok () :=
    Exclusion.validate_eq_ok_iff.2 ⟨hLaterOrder, by rwa [hLength]⟩
  obtain ⟨swept, after, hSwept, hSweptRooted, hAfter, hAfterDomain, hAfterSource, hAfterTokens⟩ :=
    exists_excludeAll hGrounded.rooted hLaterValid
  obtain ⟨full, whole, hFull, -, hWhole, hWholeDomain, hWholeSource, hWholeTokens⟩ :=
    exists_excludeAll hGrounded.rooted hValid
  have hActiveLater (other : Exclusion) (h : other ∈ later.filter Exclusion.isActive) :
      e.stop ≤ other.start := hFirst other (List.mem_filter.1 h).1
  have hActiveWithin (other : Exclusion) (h : other ∈ later.filter Exclusion.isActive) :
      other.stop ≤ totalWidth view.tokens := hWithin other (List.mem_filter.1 h).1
  have hStepValid : Exclusion.validate [e] after.length = .ok () := by
    refine Exclusion.validate_eq_ok_iff.2 ⟨List.pairwise_singleton _ _, ?_⟩
    simp only [List.mem_singleton, forall_eq]
    rw [show after.length = totalWidth after.tokens from length_shownText _, hAfterTokens]
    exact Exclusion.le_totalWidth_normalize view.canonical hGrounded hStop hActiveLater hSwept
  have hAfterRooted : Rooted after.tokens := by
    rw [hAfterTokens]
    exact hSweptRooted.normalize
  obtain ⟨stepped, last, hStepped, -, hLast, hLastDomain, hLastSource, hLastTokens⟩ :=
    exists_excludeAll hAfterRooted hStepValid
  refine ⟨after, whole, hAfter, hWhole, ?_⟩
  rw [hLast]
  refine congrArg Except.ok (eq_of_parts ?_ ?_ ?_)
  · rw [hLastDomain, hAfterDomain, hWholeDomain]
  · rw [hLastSource, hAfterSource, hWholeSource]
  · rw [hLastTokens, hWholeTokens]
    rw [hAfterTokens] at hStepped
    cases hActive : e.isActive with
    | true =>
        rw [List.filter_cons_of_pos hActive] at hFull hStepped
        exact Exclusion.normalize_step view.canonical hGrounded hStop hActiveLater hActiveWithin
          hSwept hFull hStepped
    | false =>
        have hInactive : ¬ e.isActive = true := by simp [hActive]
        rw [List.filter_cons_of_neg hInactive] at hFull hStepped
        rw [hSwept] at hFull
        cases hFull
        rw [List.filter_nil, Exclusion.sweep, map_snd_placed] at hStepped
        cases hStepped
        rw [normalize_atomize, normalize_normalize]

/-- On a grounded view a batch does what its exclusions do from the last to the first. Each step of
the induction adds an exclusion in front of those that were applied. -/
theorem excludeBackwards_eq_excludeAll {view : View} (hGrounded : Grounded view.tokens)
    {exclusions : List Exclusion}
    (hValid : Exclusion.validate exclusions view.length = .ok ()) :
    ∃ after, view.excludeAll exclusions = .ok after ∧
      view.excludeBackwards exclusions = .ok after := by
  induction exclusions with
  | nil => exact ⟨view, excludeAll_of_inactive hValid rfl, rfl⟩
  | cons e later ih =>
      obtain ⟨after, whole, hAfter, hWhole, hStep⟩ := excludeAll_cons hGrounded hValid
      obtain ⟨same, hSame, hBackwards⟩ := ih (validate_of_excludeAll hAfter)
      obtain rfl : after = same := Except.ok.inj (hAfter.symm.trans hSame)
      refine ⟨whole, hWhole, ?_⟩
      unfold excludeBackwards at hBackwards ⊢
      rw [List.foldrM_cons, hBackwards]
      exact (excludeOne_eq after e).trans hStep

/-- What a view of a span is made of: one token that shows what was read. -/
theorem exists_token_of_ofSpan {α : Type} [Provider α] {provider : α} {span : Span}
    {domain : Domain} {view : View} (h : View.ofSpan provider span domain = .ok view) :
    ∃ token, token.span? = some span ∧ token.isEmptyExcerpt = false ∧
      readChecked provider span = .ok token.shown ∧ view.tokens = normalize [token] := by
  obtain ⟨text, hText, h⟩ := bind_eq_ok_iff.1 h
  obtain ⟨token, hToken, h⟩ := bind_eq_ok_iff.1 h
  have hTokens : view.tokens = normalize [token] := (ofTokens_eq_ok_iff.1 h).2.2
  unfold tokenOfSpan Excerpt.make at hToken
  split at hToken
  · next hNone =>
      cases hToken
      exact ⟨_, rfl, rfl, by rw [hText, List.isEmpty_iff.1 hNone]; rfl, hTokens⟩
  · next hShown =>
      split at hToken <;> cases hToken
      refine ⟨_, rfl, ?_, ?_, hTokens⟩
      · simpa [isEmptyExcerpt] using hShown
      · exact hText

/-- Even an empty span leaves a token with source material. -/
theorem grounded_ofSpan {α : Type} [Provider α] {provider : α} {span : Span} {domain : Domain}
    {view : View} (h : View.ofSpan provider span domain = .ok view) : Grounded view.tokens := by
  obtain ⟨token, hSpan, hShows, -, hTokens⟩ := exists_token_of_ofSpan h
  rw [hTokens]
  refine Grounded.normalize ⟨⟨token, List.mem_singleton.2 rfl, hShows, by rw [hSpan]; rfl⟩, ?_⟩
  intro first rest hEq
  have hFirst : first ∈ effective [token] := hEq ▸ List.mem_cons_self
  obtain rfl := List.mem_singleton.1 (mem_effective.1 hFirst).1
  cases first with
  | excerpt e => rfl
  | gap g => rfl
  | separator s => cases hSpan

/-- A join is one view as it is or the canonical form of several. -/
theorem join_cases {views : List View} {view : View} (h : View.join views = .ok view) :
    views = [view] ∨ view.tokens = normalize (views.flatMap (·.tokens)) := by
  cases views with
  | nil => cases h
  | cons first rest =>
      cases rest with
      | nil =>
          cases h
          exact .inl rfl
      | cons second rest =>
          obtain ⟨domain, -, h⟩ := bind_eq_ok_iff.1 h
          exact .inr (ofTokens_eq_ok_iff.1 h).2.2

/-- A join with separators is one view as it is or the canonical form of several with separators
between them. -/
theorem joinWithBlank_cases {views : List View} {view : View} {blank : List Char}
    (h : View.joinWithBlank views blank = .ok (some view)) :
    views = [view] ∨ ∃ separator, view.tokens = normalize (spacedTokens separator none views) := by
  cases views with
  | nil => cases h
  | cons first rest =>
      cases rest with
      | nil =>
          cases h
          exact .inl rfl
      | cons second rest =>
          obtain ⟨domain, -, h⟩ := bind_eq_ok_iff.1 h
          obtain ⟨separator, -, h⟩ := bind_eq_ok_iff.1 h
          obtain ⟨made, hMade, h⟩ := bind_eq_ok_iff.1 h
          cases h
          exact .inr ⟨separator, (ofTokens_eq_ok_iff.1 hMade).2.2⟩

/-- No separator leads grounded parts that stand one behind the other. -/
theorem led_flatMap {views : List View} (h : ∀ view ∈ views, Grounded view.tokens) :
    Led (views.flatMap (·.tokens)) := by
  induction views with
  | nil => exact led_of_effective_eq_nil rfl
  | cons view rest ih =>
      simp only [List.mem_cons, forall_eq_or_imp] at h
      rw [List.flatMap_cons]
      exact h.1.led.append (ih h.2)

/-- A view that shows something has tokens with an effect. -/
theorem effective_ne_nil_of_text {view : View} (h : view.text ≠ []) :
    effective view.tokens ≠ [] := by
  intro hNil
  rcases view.canonical.cases with hAll | ⟨g, rest, -, -, -, hWidth⟩
  · rw [hNil] at hAll
    exact h (by rw [text, ← hAll]; rfl)
  · refine h (List.length_eq_zero_iff.1 ?_)
    rw [← hWidth]
    exact length_shownText _

/-- A separator is only put behind something that is shown. -/
theorem led_spacedTokens {views : List View} (h : ∀ view ∈ views, Grounded view.tokens)
    (separator : Separator) : Led (spacedTokens separator none views) := by
  induction views with
  | nil => exact led_of_effective_eq_nil rfl
  | cons view rest ih =>
      simp only [List.mem_cons, forall_eq_or_imp] at h
      simp only [spacedTokens, needsSeparator, Bool.false_eq_true, if_false, List.nil_append]
      by_cases hText : view.text = []
      · rw [hText]
        exact h.1.led.append (ih h.2)
      · exact h.1.led.append_of_ne_nil (effective_ne_nil_of_text hText) _

/-- Separators are no source material. -/
theorem rooted_spacedTokens {views : List View} {separator : Separator} {last? : Option Char} :
    Rooted (spacedTokens separator last? views) ↔ Rooted (views.flatMap (·.tokens)) := by
  induction views generalizing last? with
  | nil => rfl
  | cons view rest ih =>
      have hSeparator : ¬ Rooted
          (if needsSeparator last? view.text.head? then [Token.separator separator] else []) := by
        split <;> simp [Rooted, span?]
      rw [spacedTokens, List.flatMap_cons, rooted_append, rooted_append, rooted_append, ih,
        or_iff_right hSeparator]

/-- One grounded part gives source material to the whole. -/
theorem rooted_flatMap {views : List View} (hNe : views ≠ [])
    (hViews : ∀ view ∈ views, Grounded view.tokens) : Rooted (views.flatMap (·.tokens)) := by
  obtain ⟨view, hView⟩ := List.exists_mem_of_ne_nil views hNe
  obtain ⟨token, hToken, hSource⟩ := (hViews view hView).rooted
  exact ⟨token, List.mem_flatMap.2 ⟨view, hView, hToken⟩, hSource⟩

/-- Joining grounded views gives a grounded one. -/
theorem grounded_join {views : List View} {view : View}
    (hViews : ∀ part ∈ views, Grounded part.tokens) (h : View.join views = .ok view) :
    Grounded view.tokens := by
  rcases join_cases h with rfl | hTokens
  · exact hViews view List.mem_cons_self
  · rw [hTokens]
    have hNe : views ≠ [] := by
      rintro rfl
      cases h
    exact Grounded.normalize ⟨rooted_flatMap hNe hViews, led_flatMap hViews⟩

theorem grounded_joinWithBlank {views : List View} {view : View} {blank : List Char}
    (hViews : ∀ part ∈ views, Grounded part.tokens)
    (h : View.joinWithBlank views blank = .ok (some view)) : Grounded view.tokens := by
  rcases joinWithBlank_cases h with rfl | ⟨separator, hTokens⟩
  · exact hViews view List.mem_cons_self
  · rw [hTokens]
    have hNe : views ≠ [] := by
      rintro rfl
      cases h
    exact Grounded.normalize
      ⟨rooted_spacedTokens.2 (rooted_flatMap hNe hViews), led_spacedTokens hViews separator⟩

/-- What holds of all tokens of several views, and of separators, holds with separators between
them. -/
theorem forall_mem_spacedTokens {p : Token → Prop} {views : List View} {separator : Separator}
    (hViews : ∀ view ∈ views, ∀ token ∈ view.tokens, p token) (hSeparator : p (.separator separator))
    (last? : Option Char) : ∀ token ∈ spacedTokens separator last? views, p token := by
  induction views generalizing last? with
  | nil => simp [spacedTokens]
  | cons view rest ih =>
      simp only [List.mem_cons, forall_eq_or_imp] at hViews
      intro token hToken
      rw [spacedTokens, List.mem_append, List.mem_append] at hToken
      rcases hToken with (hBetween | hHere) | hLater
      · split at hBetween
        · obtain rfl := List.mem_singleton.1 hBetween
          exact hSeparator
        · cases hBetween
      · exact hViews.1 token hHere
      · exact ih hViews.2 _ token hLater

/-- What holds of all tokens of several views and is kept by the canonical form holds of their join. -/
theorem forall_mem_join {p : Token → Prop}
    (hNormalize : ∀ tokens, (∀ token ∈ tokens, p token) → ∀ token ∈ normalize tokens, p token)
    {views : List View} (hViews : ∀ part ∈ views, ∀ token ∈ part.tokens, p token) {view : View}
    (h : View.join views = .ok view) : ∀ token ∈ view.tokens, p token := by
  rcases join_cases h with rfl | hTokens
  · exact hViews _ List.mem_cons_self
  · rw [hTokens]
    apply hNormalize
    intro token hToken
    obtain ⟨part, hPart, hToken⟩ := List.mem_flatMap.1 hToken
    exact hViews part hPart token hToken

/-- A range that can be hidden is hidden by a batch of one exclusion. -/
theorem excludeAll_of_hide {view after : View} {wanted : Loose}
    (h : view.hide wanted = .ok after) : ∃ exclusions, view.excludeAll exclusions = .ok after := by
  obtain ⟨e, -, h⟩ := bind_eq_ok_iff.1 h
  exact ⟨[e], h⟩

/-- A range that can be marked is marked by a batch of one exclusion. -/
theorem excludeAll_of_mark {view after : View} {wanted : Loose}
    (h : view.mark wanted = .ok after) : ∃ exclusions, view.excludeAll exclusions = .ok after := by
  obtain ⟨e, -, h⟩ := bind_eq_ok_iff.1 h
  exact ⟨[e], h⟩

/-- Trimming hides the whole text or the blanks at both ends. -/
theorem excludeAll_of_trim {view after : View} (h : view.trim = .ok after) :
    ∃ exclusions, view.excludeAll exclusions = .ok after := by
  unfold View.trim at h
  split at h
  · exact excludeAll_of_hide h
  · exact ⟨_, h⟩

/-- A property of views that every batch of exclusions keeps. -/
def Preserved (p : View → Prop) : Prop :=
  ∀ before after : View, ∀ exclusions, before.excludeAll exclusions = .ok after → p before → p after

namespace Preserved
variable {p : View → Prop} {before after : View} {wanted : Loose}

/-- Hiding a range is a batch of one exclusion. -/
theorem hide (hp : Preserved p) (h : before.hide wanted = .ok after) (hBefore : p before) :
    p after := by
  obtain ⟨exclusions, hExcluded⟩ := excludeAll_of_hide h
  exact hp before after exclusions hExcluded hBefore

/-- Marking a range is a batch of one exclusion. -/
theorem mark (hp : Preserved p) (h : before.mark wanted = .ok after) (hBefore : p before) :
    p after := by
  obtain ⟨exclusions, hExcluded⟩ := excludeAll_of_mark h
  exact hp before after exclusions hExcluded hBefore

/-- Trimming hides everything or is a batch of two exclusions. -/
theorem trim (hp : Preserved p) (h : before.trim = .ok after) (hBefore : p before) : p after := by
  obtain ⟨exclusions, hExcluded⟩ := excludeAll_of_trim h
  exact hp before after exclusions hExcluded hBefore

end Preserved

/-- What comes about by exclusions and joins from spans that are read. `reads` tells which spans may be
read through which provider, `joins` which views may be joined as they are and `spaces` which with
separators between them. The kinds of views that are told by how they are obtained are turned into
this one, so what is proved of them by induction has four cases. -/
inductive Derived (reads : (α : Type) → Provider α → α → Span → Prop)
    (joins spaces : List View → Prop) : View → Prop
  | ofSpan {α : Type} [provides : Provider α] {provider : α} {span : Span} {domain : Domain}
      {view : View} (hReads : reads α provides provider span)
      (h : View.ofSpan provider span domain = .ok view) : Derived reads joins spaces view
  | join {views : List View} {view : View}
      (hViews : ∀ part ∈ views, Derived reads joins spaces part) (hJoins : joins views)
      (h : View.join views = .ok view) : Derived reads joins spaces view
  | joinWithBlank {views : List View} {view : View} {blank : List Char}
      (hViews : ∀ part ∈ views, Derived reads joins spaces part) (hSpaces : spaces views)
      (h : View.joinWithBlank views blank = .ok (some view)) : Derived reads joins spaces view
  | excludeAll {before view : View} {exclusions : List Exclusion}
      (hBefore : Derived reads joins spaces before)
      (h : before.excludeAll exclusions = .ok view) : Derived reads joins spaces view

namespace Derived
variable {reads : (α : Type) → Provider α → α → Span → Prop} {joins spaces : List View → Prop}

/-- Exclusions lead from derived views to derived views. -/
theorem preserved : Preserved (Derived reads joins spaces) :=
  fun _ _ _ h hBefore => .excludeAll hBefore h

/-- The whole text of a source is one of its spans. -/
theorem ofSource {source : Source} {domain : Domain} {view : View}
    (hReads : reads Source inferInstance source source.wholeSpan)
    (h : View.ofSource source domain = .ok view) : Derived reads joins spaces view := by
  unfold View.ofSource at h
  rw [source.span_default] at h
  exact .ofSpan hReads h

/-- Some source material is left with no separator in front of it, whatever was joined, hidden or
marked on the way. -/
theorem grounded {view : View} (h : Derived reads joins spaces view) : Grounded view.tokens := by
  induction h with
  | ofSpan hReads h => exact grounded_ofSpan h
  | join hViews hJoins h ih => exact grounded_join ih h
  | joinWithBlank hViews hSpaces h ih => exact grounded_joinWithBlank ih h
  | excludeAll hBefore h ih => exact grounded_excludeAll ih h

end Derived

/-- A view that is built from sources is derived from any spans by any joins. -/
theorem SourceBuilt.derived {view : View} (h : SourceBuilt view) :
    Derived (fun _ _ _ _ => True) (fun _ => True) (fun _ => True) view := by
  induction h with
  | ofSpan provider span domain h => exact .ofSpan trivial h
  | ofSource source domain h => exact .ofSource trivial h
  | join hViews h ih => exact .join ih trivial h
  | joinWithBlank blank hViews h ih => exact .joinWithBlank ih trivial h
  | hide wanted hBefore h ih => exact Derived.preserved.hide h ih
  | mark wanted hBefore h ih => exact Derived.preserved.mark h ih
  | excludeAll exclusions hBefore h ih => exact .excludeAll ih h
  | trim hBefore h ih => exact Derived.preserved.trim h ih

theorem SourceBuilt.grounded {view : View} (h : SourceBuilt view) : Grounded view.tokens :=
  h.derived.grounded

/-- A batch of valid exclusions turns a view that is built from sources into the same view as the
exclusions do one at a time from the last to the first, and neither way fails. -/
theorem excludeAll_eq_excludeBackwards {view : View} (hView : SourceBuilt view)
    {exclusions : List Exclusion}
    (hValid : Exclusion.validate exclusions view.length = .ok ()) :
    ∃ after, view.excludeAll exclusions = .ok after ∧
      view.excludeBackwards exclusions = .ok after :=
  excludeBackwards_eq_excludeAll hView.grounded hValid

/-- The whole of a text with a marker in front of what is hidden, two ranges that touch. -/
theorem excludeAll_eq_excludeBackwards_touching :
    ∃ view, View.ofSource ⟨"doc", ['a', 'b', 'c']⟩ .plainText = .ok view ∧
      ∃ after, view.excludeAll [⟨⟨0, 1, by decide⟩, true⟩, ⟨⟨1, 2, by decide⟩, false⟩] = .ok after ∧
        view.excludeBackwards [⟨⟨0, 1, by decide⟩, true⟩, ⟨⟨1, 2, by decide⟩, false⟩] = .ok after := by
  refine ⟨_, rfl, ?_⟩
  exact excludeAll_eq_excludeBackwards (.ofSource ⟨"doc", ['a', 'b', 'c']⟩ .plainText rfl) rfl

end View
end SourceView
