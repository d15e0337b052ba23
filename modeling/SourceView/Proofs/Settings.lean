import SourceView.Proofs.Building

/-! The parts of a recipe as sets. What a recipe hides depends on which patterns and which characters
it names, but not on the order in which they were added, on how the characters were divided among the
calls, or on what was added more than once. Of a pattern only its matches count, so whatever finds them
may be put in place of the search. -/
namespace SourceView

namespace Recipe
open Exclusion

/-- Two recipes that name the same patterns and the same characters for the same purposes. -/
structure SameParts (first second : Recipe) : Prop where
  excluded : ∀ pattern, pattern ∈ first.excluded ↔ pattern ∈ second.excluded
  unknown : ∀ pattern, pattern ∈ first.unknown ↔ pattern ∈ second.unknown
  indentChars : ∀ c, c ∈ first.indentChars ↔ c ∈ second.indentChars
  suffixChars : ∀ c, c ∈ first.suffixChars ↔ c ∈ second.suffixChars

variable {first second : Recipe} {finds : Pattern.Finder} {text : List Char}

/-- Recipes with the same parts find the same. -/
theorem SameParts.mem_foundBy_iff (h : SameParts first second) (a : Exclusion) :
    a ∈ first.foundBy finds text ↔ a ∈ second.foundBy finds text := by
  simp only [Recipe.mem_foundBy_iff, FoundFor, IndentRun, SuffixRun, h.excluded, h.unknown,
    h.indentChars, h.suffixChars]

/-- Recipes with the same parts merge what they find to the same exclusions. -/
theorem SameParts.merge_eq (h : SameParts first second) :
    merge (first.foundBy finds text) = merge (second.foundBy finds text) :=
  merge_congr (fun _ ha => (proper_of_mem_foundBy ha).1) h.mem_foundBy_iff

inductive Setting
  | excluding (pattern : Pattern)
  | withUnknown (pattern : Pattern)
  | removingIndents (chars : List Char)
  | removingSuffixes (chars : List Char)

def set (recipe : Recipe) : Setting → Recipe
  | .excluding pattern => recipe.excluding pattern
  | .withUnknown pattern => recipe.withUnknown pattern
  | .removingIndents chars => recipe.removingIndents chars
  | .removingSuffixes chars => recipe.removingSuffixes chars

def configured (settings : List Setting) : Recipe := settings.foldl set {}

/-- What a recipe has after some calls is what it had and what the calls add. -/
theorem mem_foldl_set {settings : List Setting} (recipe : Recipe) :
    (∀ pattern, pattern ∈ (settings.foldl set recipe).excluded ↔
      pattern ∈ recipe.excluded ∨ .excluding pattern ∈ settings) ∧
    (∀ pattern, pattern ∈ (settings.foldl set recipe).unknown ↔
      pattern ∈ recipe.unknown ∨ .withUnknown pattern ∈ settings) ∧
    (∀ c, c ∈ (settings.foldl set recipe).indentChars ↔
      c ∈ recipe.indentChars ∨ ∃ chars, .removingIndents chars ∈ settings ∧ c ∈ chars) ∧
    ∀ c, c ∈ (settings.foldl set recipe).suffixChars ↔
      c ∈ recipe.suffixChars ∨ ∃ chars, .removingSuffixes chars ∈ settings ∧ c ∈ chars := by
  induction settings generalizing recipe with
  | nil => simp
  | cons setting rest ih =>
      obtain ⟨hExcluded, hUnknown, hIndent, hSuffix⟩ := ih (recipe.set setting)
      simp only [List.foldl_cons, hExcluded, hUnknown, hIndent, hSuffix]
      cases setting <;>
        simp [set, excluding, withUnknown, removingIndents, removingSuffixes, or_assoc, or_and_right,
          exists_or]

/-- It does not matter in which order the calls are made, how the characters are divided among them,
or whether a call is repeated. -/
theorem sameParts_configured {settings others : List Setting}
    (hExcluded : ∀ pattern, .excluding pattern ∈ settings ↔ .excluding pattern ∈ others)
    (hUnknown : ∀ pattern, .withUnknown pattern ∈ settings ↔ .withUnknown pattern ∈ others)
    (hIndent : ∀ c, (∃ chars, .removingIndents chars ∈ settings ∧ c ∈ chars) ↔
      ∃ chars, .removingIndents chars ∈ others ∧ c ∈ chars)
    (hSuffix : ∀ c, (∃ chars, .removingSuffixes chars ∈ settings ∧ c ∈ chars) ↔
      ∃ chars, .removingSuffixes chars ∈ others ∧ c ∈ chars) :
    SameParts (configured settings) (configured others) := by
  obtain ⟨hFirst, hSecond, hThird, hFourth⟩ := @mem_foldl_set settings {}
  obtain ⟨hOtherFirst, hOtherSecond, hOtherThird, hOtherFourth⟩ := @mem_foldl_set others {}
  refine ⟨fun pattern => ?_, fun pattern => ?_, fun c => ?_, fun c => ?_⟩
  · rw [configured, configured, hFirst, hOtherFirst, hExcluded]
  · rw [configured, configured, hSecond, hOtherSecond, hUnknown]
  · rw [configured, configured, hThird, hOtherThird, hIndent]
  · rw [configured, configured, hFourth, hOtherFourth, hSuffix]

/-- Recipes with the same parts have the same outcome for whatever provides the text. -/
theorem SameParts.buildBy_eq (h : SameParts first second) (finds : Pattern.Finder) {α : Type}
    [Provider α] (provider : α) (span? : Option Span) (domain : Domain) :
    first.buildBy finds provider span? domain = second.buildBy finds provider span? domain := by
  unfold buildBy
  simp only [h.merge_eq]

/-- A recipe can be followed for every span of every source, whatever its search finds. -/
theorem exists_buildBy (finds : Pattern.Finder) (recipe : Recipe) (source : Source)
    (span? : Option Span)
    (hSpan : ∀ span ∈ span?, span.source = source.id ∧ span.stop ≤ source.text.length)
    (domain : Domain) : ∃ view, recipe.buildBy finds source span? domain = .ok view := by
  obtain ⟨whole, -, -, hMerged, hBuild⟩ := View.exists_whole source span? hSpan domain
  obtain ⟨view, hView, -⟩ :=
    hMerged (recipe.foundBy finds whole.text) fun _ ha => proper_of_mem_foundBy ha
  exact ⟨view, (hBuild finds recipe).trans hView⟩

/-- Recipes with the same parts give the same view of every span of every source, and the same outcome
for whatever provides the text. This holds for any search that is told only the pattern and the text,
the one that recipes make among them. What is found differs in order and repetition only, and merging
looks at neither. -/
theorem build_congr (hSame : SameParts first second) :
    (∀ ranges others : List Exclusion, (∀ a ∈ ranges, a.start < a.stop) →
      (∀ a, a ∈ others ↔ a ∈ ranges) → merge others = merge ranges) ∧
    (∀ (source : Source) (span? : Option Span) (domain : Domain),
      (∀ span ∈ span?, span.source = source.id ∧ span.stop ≤ source.text.length) →
      ∃ view, first.build source span? domain = .ok view ∧
        second.build source span? domain = .ok view) ∧
    ∀ finds : Pattern.Finder,
      (∀ text, merge (first.foundBy finds text) = merge (second.foundBy finds text)) ∧
      (∀ (source : Source) (span? : Option Span) (domain : Domain),
        (∀ span ∈ span?, span.source = source.id ∧ span.stop ≤ source.text.length) →
        ∃ view, first.buildBy finds source span? domain = .ok view ∧
          second.buildBy finds source span? domain = .ok view) ∧
      ∀ {α : Type} [Provider α] (provider : α) (span? : Option Span) (domain : Domain),
        first.buildBy finds provider span? domain = second.buildBy finds provider span? domain := by
  have hBuilt (finds : Pattern.Finder) (source : Source) (span? : Option Span) (domain : Domain)
      (hSpan : ∀ span ∈ span?, span.source = source.id ∧ span.stop ≤ source.text.length) :
      ∃ view, first.buildBy finds source span? domain = .ok view ∧
        second.buildBy finds source span? domain = .ok view := by
    obtain ⟨view, hView⟩ := exists_buildBy finds first source span? hSpan domain
    exact ⟨view, hView, (hSame.buildBy_eq finds source span? domain).symm.trans hView⟩
  refine ⟨fun ranges others hProper hMembers => merge_congr hProper hMembers, ?_,
    fun finds => ⟨fun text => hSame.merge_eq, hBuilt finds, hSame.buildBy_eq finds⟩⟩
  intro source span? domain hSpan
  simp only [build_eq_buildBy]
  exact hBuilt Pattern.matchesIn source span? domain hSpan

/-- The same pattern to be hidden and to be marked, and characters for indents given together or one by
one and twice. -/
theorem build_congr_configured :
    ∃ pattern, Pattern.compile ['a', 'b'] = .ok pattern ∧
      ∃ view,
        (configured [.excluding pattern, .withUnknown pattern, .removingIndents [' ', '*']]).build
          (⟨"doc", [' ', '*', 'a', 'b', 'c']⟩ : Source) = .ok view ∧
        (configured [.removingIndents ['*'], .withUnknown pattern, .removingIndents [' ', '*'],
          .excluding pattern, .withUnknown pattern]).build
          (⟨"doc", [' ', '*', 'a', 'b', 'c']⟩ : Source) = .ok view := by
  have hPattern : ∃ pattern, Pattern.compile ['a', 'b'] = .ok pattern := ⟨_, rfl⟩
  obtain ⟨pattern, hPattern⟩ := hPattern
  refine ⟨pattern, hPattern, (build_congr ?_).2.1 _ none .plainText (by simp)⟩
  apply sameParts_configured <;> simp

end Recipe
end SourceView
