import SourceView.Proofs.Derivation

/-! Joining any number of views. The canonical form of several sequences, one behind the other, does
not change when some of them are brought into canonical form first, and so it does not matter in which
groups views are joined. Views of one source and domain can be joined unless none of them has any
source material. -/
namespace SourceView

namespace Token

/-- Settling does not change whether a sequence wakes the separators behind it. -/
theorem any_wakes_settle (awake : Bool) (tokens : List Token) :
    (settle awake tokens).any wakes = tokens.any wakes := by
  induction tokens generalizing awake with
  | nil => rfl
  | cons token rest ih => cases token <;> simp [settle, wakes, ih]

theorem tied_normalize {tokens : List Token} : Tied (normalize tokens) ↔ Tied tokens := by
  unfold Tied
  rw [effective_normalize, ← List.any_eq_true, ← List.any_eq_true, any_span_fuse, any_span_settle]

/-- Without a tie to the source the canonical form keeps the separators. -/
theorem effective_normalize_of_not_tied {tokens : List Token} (h : ¬ Tied tokens) :
    effective (normalize tokens) = settle false (effective tokens) := by
  rw [effective_normalize, fuse_settle_of_not_tied h]

/-- Without a tie to the source the first idle gap is kept. -/
theorem find?_isIdle_normalize {tokens : List Token} (h : ¬ Tied tokens) :
    (normalize tokens).find? isIdle = tokens.find? isIdle := by
  have hNone : (settle false (effective tokens)).find? isIdle = none := by
    refine List.find?_eq_none.2 fun token hToken => ?_
    have hBusy := forall_mem_settle (fun t ht => (mem_effective.1 ht).2.2)
      (fun _ _ _ => rfl) token hToken
    simp [hBusy]
  rw [normalize_of_not_tied h, List.find?_append, hNone, Option.or_none]
  cases hFound : tokens.find? isIdle with
  | none => rfl
  | some idle => simp [List.find?_some hFound]

/-- Both parts of a sequence may be brought into canonical form first. -/
theorem normalize_append (before after : List Token) :
    normalize (normalize before ++ normalize after) = normalize (before ++ after) := by
  by_cases hTied : Tied (before ++ after)
  · have hOther : Tied (normalize before ++ normalize after) := by
      rwa [tied_append, tied_normalize, tied_normalize, ← tied_append]
    have hFused (first second : List Token) :
        fuse (fuse first ++ fuse second) = fuse (first ++ second) := by
      rw [fuse_append_fuse, fuse_append, foldr_attach_fuse, ← fuse_append]
    rw [normalize_of_tied hOther, normalize_of_tied hTied, effective_append, effective_append,
      effective_normalize, effective_normalize, ← settle_fuse, hFused, settle_fuse, settle_append,
      settle_settle, any_wakes_settle, settle_settle, ← settle_append]
  · -- Only separators are left, behind the first idle gap of the two parts.
    have hOther : ¬ Tied (normalize before ++ normalize after) := by
      rwa [tied_append, tied_normalize, tied_normalize, ← tied_append]
    obtain ⟨hBefore, hAfter⟩ := not_or.1 ((not_congr tied_append).1 hTied)
    rw [normalize_of_not_tied hOther, normalize_of_not_tied hTied, List.find?_append,
      List.find?_append, find?_isIdle_normalize hBefore, find?_isIdle_normalize hAfter,
      effective_append, effective_append, effective_normalize_of_not_tied hBefore,
      effective_normalize_of_not_tied hAfter, settle_append, settle_append, settle_settle,
      settle_settle, any_wakes_settle]

/-- All parts of a sequence may be brought into canonical form first. -/
theorem normalize_flatten (parts : List (List Token)) :
    normalize (parts.flatMap normalize) = normalize parts.flatten := by
  induction parts with
  | nil => rfl
  | cons part rest ih =>
      rw [List.flatMap_cons, List.flatten_cons, ← normalize_append, normalize_normalize, ih,
        normalize_append]

theorem rooted_normalize {tokens : List Token} : Rooted (normalize tokens) ↔ Rooted tokens := by
  refine ⟨fun h => ?_, Rooted.normalize⟩
  obtain ⟨token, hToken, -, hSpan⟩ := h
  have hAny : (normalize tokens).any (·.span?.isSome) = true := List.any_eq_true.2 ⟨token, hToken, hSpan⟩
  rw [normalize, any_span_fuse, any_span_settle] at hAny
  obtain ⟨anchor, hAnchor, hSpan⟩ := List.any_eq_true.1 hAny
  exact ⟨anchor, mem_of_mem_anchored hAnchor, isEmptyExcerpt_of_mem_anchored hAnchor, hSpan⟩

/-- Whether tokens may stand in a view of a source: no excerpt is empty, and all spans are of that
source. -/
def StemFrom (source : String) (tokens : List Token) : Prop :=
  ∀ token ∈ tokens, token.isEmptyExcerpt = false ∧
    ∀ span, token.span? = some span → span.source = source

/-- Where no excerpt is empty, every span is source material. -/
theorem spans_eq_nil_of_not_rooted {source : String} {tokens : List Token}
    (hStem : StemFrom source tokens) (h : ¬ Rooted tokens) : spans tokens = [] := by
  refine List.filterMap_eq_nil_iff.2 fun token hToken => ?_
  have hSpan : ¬ token.span?.isSome = true := fun hSome => h ⟨token, hToken, (hStem token hToken).1, hSome⟩
  simpa using hSpan

end Token

namespace View
open Token

/-- Tokens of one source that have source material make a view of that source. -/
theorem exists_ofTokens (domain : Domain) {source : String} {tokens : List Token}
    (hStem : StemFrom source tokens) (hRooted : Rooted tokens) :
    ∃ view, ofTokens domain tokens = .ok view ∧ view.domain = domain ∧ view.source = source ∧
      view.tokens = normalize tokens := by
  have hSourced := fun token hToken => (hStem token hToken).2
  refine ⟨{ domain, source, tokens := normalize tokens, canonical := canonical_normalize tokens,
            sourced := source_of_mem_normalize hSourced }, ?_, rfl, rfl, rfl⟩
  exact ofTokens_eq_ok_iff.2 ⟨sources_eq_singleton hRooted hSourced, rfl, rfl⟩

/-- Tokens without source material make no view. -/
theorem ofTokens_of_spans_eq_nil (domain : Domain) {tokens : List Token} (h : spans tokens = []) :
    ofTokens domain tokens = .error (.notOneSource []) := by
  have hNone : sources tokens = [] := by
    rw [sources, h]
    rfl
  unfold ofTokens
  split
  · next source hOne =>
      rw [hNone] at hOne
      cases hOne
  · rw [hNone]

/-- Tokens of one source make the same view as others with the same canonical form. -/
theorem ofTokens_congr (domain : Domain) {source : String} {first second : List Token}
    (hFirst : StemFrom source first) (hSecond : StemFrom source second)
    (h : normalize first = normalize second) : ofTokens domain first = ofTokens domain second := by
  have hBoth : Rooted first ↔ Rooted second := by rw [← rooted_normalize, h, rooted_normalize]
  by_cases hRooted : Rooted first
  · obtain ⟨a, hA, hADomain, hASource, hATokens⟩ := exists_ofTokens domain hFirst hRooted
    obtain ⟨b, hB, hBDomain, hBSource, hBTokens⟩ := exists_ofTokens domain hSecond (hBoth.1 hRooted)
    rw [hA, hB]
    refine congrArg Except.ok (eq_of_parts ?_ ?_ ?_)
    · rw [hADomain, hBDomain]
    · rw [hASource, hBSource]
    · rw [hATokens, hBTokens, h]
  · have hOther : ¬ Rooted second := (not_congr hBoth).1 hRooted
    rw [ofTokens_of_spans_eq_nil domain (spans_eq_nil_of_not_rooted hFirst hRooted),
      ofTokens_of_spans_eq_nil domain (spans_eq_nil_of_not_rooted hSecond hOther)]

def Alike (domain : Domain) (source : String) (views : List View) : Prop :=
  ∀ view ∈ views, view.domain = domain ∧ view.source = source

variable {domain : Domain} {source : String} {views : List View}

theorem Alike.domain_eq (h : Alike domain source views) : ∀ view ∈ views, view.domain = domain :=
  fun view hView => (h view hView).1

theorem commonDomain_eq (h : ∀ view ∈ views, view.domain = domain) (hNe : views ≠ []) :
    commonDomain views = .ok domain := by
  have hAny (other : Domain) : (views.any (·.domain == other)) = (domain == other) := by
    rw [Bool.eq_iff_iff, List.any_eq_true]
    constructor
    · rintro ⟨view, hView, hOther⟩
      rwa [h view hView] at hOther
    · obtain ⟨view, hView⟩ := List.exists_mem_of_ne_nil views hNe
      exact fun hOther => ⟨view, hView, by rwa [h view hView]⟩
  unfold commonDomain
  simp only [hAny]
  cases domain <;> rfl

theorem stemFrom_flatMap (h : Alike domain source views) :
    StemFrom source (views.flatMap (·.tokens)) := by
  intro token hToken
  obtain ⟨view, hView, hToken⟩ := List.mem_flatMap.1 hToken
  exact ⟨view.canonical.shows token hToken, fun span hSpan => (h view hView).2 ▸
    view.sourced token hToken span hSpan⟩

/-- Several views of one domain are joined by making a view of all their tokens. -/
theorem join_eq_ofTokens (h : ∀ view ∈ views, view.domain = domain) (hLength : 1 < views.length) :
    View.join views = ofTokens domain (views.flatMap (·.tokens)) := by
  match views with
  | first :: second :: rest =>
      simp only [View.join, commonDomain_eq h (List.cons_ne_nil _ _), bind, Except.bind]

/-- Views of one source and domain can be joined if there is one of them only or some source
material among them. -/
theorem exists_join (h : Alike domain source views) (hNe : views ≠ [])
    (hJoins : views.length = 1 ∨ Rooted (views.flatMap (·.tokens))) :
    ∃ joined, View.join views = .ok joined ∧ joined.domain = domain ∧ joined.source = source ∧
      joined.tokens = normalize (views.flatMap (·.tokens)) := by
  match views with
  | [view] =>
      obtain ⟨hDomain, hSource⟩ := h view List.mem_cons_self
      refine ⟨view, rfl, hDomain, hSource, ?_⟩
      rw [List.flatMap_singleton, normalize_of_canonical view.canonical]
  | first :: second :: rest =>
      have hRooted := hJoins.resolve_left (by simp)
      rw [join_eq_ofTokens h.domain_eq (by simp)]
      exact exists_ofTokens domain (stemFrom_flatMap h) hRooted

/-- Views without any source material cannot be joined. -/
theorem join_of_not_rooted (h : Alike domain source views) (hLength : 1 < views.length)
    (hNone : ¬ Rooted (views.flatMap (·.tokens))) : View.join views = .error (.notOneSource []) := by
  rw [join_eq_ofTokens h.domain_eq hLength]
  exact ofTokens_of_spans_eq_nil domain (spans_eq_nil_of_not_rooted (stemFrom_flatMap h) hNone)

/-- The views that the groups are joined to have the canonical forms of the groups. -/
theorem exists_mapM_join {groups : List (List View)}
    (hGroups : ∀ group ∈ groups, Alike domain source group ∧ group ≠ [] ∧
      (group.length = 1 ∨ Rooted (group.flatMap (·.tokens)))) :
    ∃ parts, groups.mapM View.join = .ok parts ∧ Alike domain source parts ∧
      parts.length = groups.length ∧
      parts.flatMap (·.tokens) =
        (groups.map fun group => group.flatMap (·.tokens)).flatMap normalize := by
  induction groups with
  | nil => exact ⟨[], rfl, by simp [Alike], rfl, rfl⟩
  | cons group rest ih =>
      simp only [List.mem_cons, forall_eq_or_imp] at hGroups
      obtain ⟨⟨hAlike, hNe, hJoins⟩, hRest⟩ := hGroups
      obtain ⟨part, hPart, hDomain, hSource, hTokens⟩ := exists_join hAlike hNe hJoins
      obtain ⟨parts, hParts, hPartsAlike, hLength, hPartsTokens⟩ := ih hRest
      refine ⟨part :: parts, ?_, ?_, ?_, ?_⟩
      · simp only [List.mapM_cons, hPart, hParts, bind, Except.bind, pure, Except.pure]
      · simpa [Alike] using ⟨⟨hDomain, hSource⟩, hPartsAlike⟩
      · rw [List.length_cons, List.length_cons, hLength]
      · rw [List.flatMap_cons, hTokens, hPartsTokens, List.map_cons, List.flatMap_cons]

/-- One group that cannot be joined is enough for the joining of groups to fail. -/
theorem mapM_join_of_not_rooted {groups : List (List View)} {group : List View}
    (hGroups : ∀ group ∈ groups, Alike domain source group ∧ group ≠ [])
    (hGroup : group ∈ groups) (hLength : 1 < group.length)
    (hNone : ¬ Rooted (group.flatMap (·.tokens))) :
    groups.mapM View.join = .error (.notOneSource []) := by
  induction groups with
  | nil => cases hGroup
  | cons first rest ih =>
      simp only [List.mem_cons, forall_eq_or_imp] at hGroups
      obtain ⟨⟨hAlike, hNe⟩, hRest⟩ := hGroups
      by_cases hJoins : first.length = 1 ∨ Rooted (first.flatMap (·.tokens))
      · have hLater : group ∈ rest := by
          refine (List.mem_cons.1 hGroup).resolve_left ?_
          rintro rfl
          exact hJoins.elim (by omega) hNone
        obtain ⟨part, hPart, -⟩ := exists_join hAlike hNe hJoins
        simp only [List.mapM_cons, hPart, ih hRest hLater, bind, Except.bind]
      · obtain ⟨hSeveral, hUnrooted⟩ := not_or.1 hJoins
        have hPositive := List.length_pos_iff.2 hNe
        have hFirst := join_of_not_rooted hAlike (by omega) hUnrooted
        simp only [List.mapM_cons, hFirst, bind, Except.bind]

/-- It does not matter in which groups views of one source and domain are joined: the groups first
and then what they are joined to, or all views at once. Only a group of several views without any
source material cannot be joined on its own, even if there is some in another group. -/
theorem join_groups {groups : List (List View)} (hNe : groups ≠ [])
    (hGroups : ∀ group ∈ groups, Alike domain source group ∧ group ≠ []) :
    ((∀ group ∈ groups, group.length = 1 ∨ Rooted (group.flatMap (·.tokens))) →
      ∃ parts, groups.mapM View.join = .ok parts ∧ View.join parts = View.join groups.flatten) ∧
    (groups.flatten.length = 1 ∨ Rooted (groups.flatten.flatMap (·.tokens)) →
      ∃ joined, View.join groups.flatten = .ok joined) ∧
    ((∃ group ∈ groups, 1 < group.length ∧ ¬ Rooted (group.flatMap (·.tokens))) →
      groups.mapM View.join = .error (.notOneSource [])) := by
  have hWhole : Alike domain source groups.flatten := by
    intro view hView
    obtain ⟨group, hGroup, hView⟩ := List.mem_flatten.1 hView
    exact (hGroups group hGroup).1 view hView
  refine ⟨fun hJoins => ?_, fun hJoins => ?_, ?_⟩
  · obtain ⟨parts, hParts, hAlike, hLength, hTokens⟩ := exists_mapM_join fun group hGroup =>
      ⟨(hGroups group hGroup).1, (hGroups group hGroup).2, hJoins group hGroup⟩
    refine ⟨parts, hParts, ?_⟩
    match groups with
    | [group] =>
        obtain ⟨part, hPart, -⟩ := exists_join (hGroups group List.mem_cons_self).1
          (hGroups group List.mem_cons_self).2 (hJoins group List.mem_cons_self)
        simp only [List.mapM_cons, List.mapM_nil, hPart, bind, Except.bind, pure, Except.pure] at hParts
        cases hParts
        rw [List.flatten_singleton, hPart]
        rfl
    | first :: second :: rest =>
        have hSeveral : 1 < (first :: second :: rest).flatten.length := by
          have hFirst := List.length_pos_iff.2 (hGroups first (by simp)).2
          have hSecond := List.length_pos_iff.2 (hGroups second (by simp)).2
          simp only [List.flatten_cons, List.length_append]
          omega
        rw [join_eq_ofTokens hAlike.domain_eq (by rw [hLength]; simp),
          join_eq_ofTokens hWhole.domain_eq hSeveral]
        refine ofTokens_congr domain (stemFrom_flatMap hAlike) (stemFrom_flatMap hWhole) ?_
        rw [hTokens, normalize_flatten, ← List.flatMap_def, List.flatten_eq_flatMap, List.flatMap_assoc]
        rfl
  · obtain ⟨group, hGroup⟩ := List.exists_mem_of_ne_nil groups hNe
    obtain ⟨view, hView⟩ := List.exists_mem_of_ne_nil group (hGroups group hGroup).2
    have hSome : groups.flatten ≠ [] := List.ne_nil_of_mem (List.mem_flatten.2 ⟨group, hGroup, hView⟩)
    obtain ⟨joined, hJoined, -⟩ := exists_join hWhole hSome hJoins
    exact ⟨joined, hJoined⟩
  · rintro ⟨group, hGroup, hLength, hNone⟩
    exact mapM_join_of_not_rooted hGroups hGroup hLength hNone

/-- A text twice and the same with a separator put to sleep, in two groups. -/
theorem join_groups_of_dormant :
    ∃ part pair dormant, View.ofSource ⟨"doc", ['a']⟩ .plainText = .ok part ∧
      View.joinWithBlank [part, part] = .ok (some pair) ∧
      pair.hide (.range ⟨0, 1, by decide⟩) = .ok dormant ∧
      ∃ parts, [[part, dormant], [dormant, part]].mapM View.join = .ok parts ∧
        View.join parts = View.join [part, dormant, dormant, part] := by
  refine ⟨_, _, _, rfl, rfl, rfl, ?_⟩
  refine (@join_groups .plainText "doc" [[_, _], [_, _]] ?hNe ?hGroups).1 ?hJoins
  case hNe => simp
  case hGroups => simp [Alike]
  case hJoins =>
      simp only [List.mem_cons, forall_eq_or_imp, List.not_mem_nil, false_implies, implies_true, and_true]
      exact ⟨.inr ⟨_, List.mem_cons_self, rfl, rfl⟩, .inr ⟨_, List.mem_cons_self, rfl, rfl⟩⟩

/-- Two views of empty excerpts cannot be joined on their own, though they can with a third one. -/
theorem no_join_of_group :
    ∃ x y whole, View.ofTokens .plainText [.excerpt ⟨⟨⟨0, 0, by decide⟩, "doc"⟩, [], rfl⟩] = .ok x ∧
      View.ofSource ⟨"doc", ['a']⟩ .plainText = .ok y ∧
      (∀ group ∈ [[x, x], [y]], Alike .plainText "doc" group ∧ group ≠ []) ∧
      View.join [x, x, y] = .ok whole ∧
      [[x, x], [y]].mapM View.join = .error (.notOneSource []) :=
  ⟨_, _, _, rfl, rfl, by simp [Alike], rfl, rfl⟩

end View
end SourceView
