import SourceView.Proofs.Joining
import SourceView.Proofs.LineRuns
import SourceView.Proofs.Uncovered

/-! Building views by recipes. Everything that a recipe finds lies within the text, so the exclusions
that it is merged to can always be applied. What they leave is told from the ranges themselves: no
character of theirs is shown, and a marker stands for each group of linked ranges that has to be
marked. -/
namespace SourceView

/-- A way to find the stretches of a text that a pattern describes. -/
abbrev Pattern.Finder := Pattern → (text : List Char) → List (Match text.length)

namespace Recipe
open Exclusion

def matchExclusionsBy (finds : Pattern.Finder) (text : List Char) (unknown : Bool)
    (pattern : Pattern) : List Exclusion :=
  (finds pattern text).filterMap fun found =>
    if found.isCaret then none else some { toRange := found.toRange, unknown }

def foundBy (finds : Pattern.Finder) (recipe : Recipe) (text : List Char) : List Exclusion :=
  recipe.excluded.flatMap (matchExclusionsBy finds text false)
    ++ recipe.unknown.flatMap (matchExclusionsBy finds text true)
    ++ indentRuns recipe.indentChars text
    ++ suffixRuns recipe.suffixChars text

def buildBy {α : Type} [Provider α] (finds : Pattern.Finder) (recipe : Recipe) (provider : α)
    (span? : Option Span) (domain : Domain) : Except Fault View := do
  let view ← View.ofSpan provider (← chosenSpan provider span?) domain
  view.excludeAll (merge (recipe.foundBy finds view.text))

/-- Recipes search by matching. -/
theorem build_eq_buildBy {α : Type} [Provider α] (recipe : Recipe) (provider : α)
    (span? : Option Span) (domain : Domain) :
    recipe.build provider span? domain = recipe.buildBy Pattern.matchesIn provider span? domain := rfl

/-- Whether a range is one that some of the patterns match and that is not empty. -/
def MatchOf (patterns : List Pattern) (text : List Char) (range : Range) : Prop :=
  ∃ pattern ∈ patterns, ∃ found ∈ pattern.matchesIn text,
    found.start < found.stop ∧ found.toRange = range

/-- Whether a range is one that a search finds for some of the patterns and that is not empty. -/
def FoundFor (finds : Pattern.Finder) (patterns : List Pattern) (text : List Char) (range : Range) :
    Prop :=
  ∃ pattern ∈ patterns, ∃ found ∈ finds pattern text,
    found.start < found.stop ∧ found.toRange = range

variable {finds : Pattern.Finder} {patterns : List Pattern} {recipe : Recipe} {text : List Char}

/-- Matches that are not empty become exclusions of their ranges, all of one kind. -/
theorem mem_proper_iff {length : Nat} {matched : List (Match length)} {unknown : Bool}
    {a : Exclusion} :
    (a ∈ matched.filterMap fun found : Match length =>
      if found.isCaret then none else some { toRange := found.toRange, unknown }) ↔
      a.unknown = unknown ∧
        ∃ found ∈ matched, found.start < found.stop ∧ found.toRange = a.toRange := by
  obtain ⟨range, marked⟩ := a
  rw [List.mem_filterMap]
  constructor
  · rintro ⟨found, hFound, hSome⟩
    split at hSome
    · cases hSome
    · next hNotCaret =>
        obtain ⟨rfl, rfl⟩ := Exclusion.mk.inj (Option.some.inj hSome)
        exact ⟨rfl, found, hFound, Range.not_isCaret_iff.1 (Bool.eq_false_iff.2 hNotCaret), rfl⟩
  · rintro ⟨rfl, found, hFound, hProper, rfl⟩
    exact ⟨found, hFound, by simp [Range.not_isCaret_iff.2 hProper]⟩

/-- The exclusions for some patterns are the ranges that are found for them. -/
theorem mem_matchExclusionsBy_iff {unknown : Bool} {a : Exclusion} :
    a ∈ patterns.flatMap (matchExclusionsBy finds text unknown) ↔
      a.unknown = unknown ∧ FoundFor finds patterns text a.toRange := by
  simp only [List.mem_flatMap, matchExclusionsBy, mem_proper_iff, FoundFor]
  constructor
  · rintro ⟨pattern, hPattern, hUnknown, hMatch⟩
    exact ⟨hUnknown, pattern, hPattern, hMatch⟩
  · rintro ⟨hUnknown, pattern, hPattern, hMatch⟩
    exact ⟨pattern, hPattern, hUnknown, hMatch⟩

/-- What a recipe finds by a search: matches of its patterns and runs at the beginnings and ends of
lines. Only matches of certain patterns are to be marked. -/
theorem mem_foundBy_iff {a : Exclusion} :
    a ∈ recipe.foundBy finds text ↔
      (a.unknown = false ∧ (FoundFor finds recipe.excluded text a.toRange ∨
        IndentRun recipe.indentChars text a.toRange ∨ SuffixRun recipe.suffixChars text a.toRange)) ∨
      (a.unknown = true ∧ FoundFor finds recipe.unknown text a.toRange) := by
  simp only [foundBy, List.mem_append, mem_matchExclusionsBy_iff, mem_indentRuns_iff,
    mem_suffixRuns_iff]
  grind

theorem FoundFor.proper {range : Range} (h : FoundFor finds patterns text range) :
    range.start < range.stop ∧ range.stop ≤ text.length := by
  obtain ⟨pattern, -, found, -, hProper, rfl⟩ := h
  exact ⟨hProper, found.bounded⟩

/-- Whatever is found is not empty and lies within the text. -/
theorem proper_of_mem_foundBy {a : Exclusion} (h : a ∈ recipe.foundBy finds text) :
    a.start < a.stop ∧ a.stop ≤ text.length := by
  rcases mem_foundBy_iff.1 h with ⟨-, hMatch | hIndent | hSuffix⟩ | ⟨-, hMatch⟩
  · exact hMatch.proper
  · exact hIndent.proper
  · exact hSuffix.proper
  · exact hMatch.proper

end Recipe

namespace Token

/-- A single token with source material is canonical. -/
theorem normalize_singleton {token : Token} (hShows : token.isEmptyExcerpt = false)
    (hSpan : token.span?.isSome = true) : normalize [token] = [token] := by
  refine normalize_of_canonical ⟨?_, trivial, ?_, ?_⟩
  · simpa using hShows
  · simp
  · cases token with
    | separator s => cases hSpan
    | excerpt e => trivial
    | gap g => trivial

end Token

namespace View
open Token Exclusion

/-- A text as long as a span gives one token that shows all of it. -/
theorem exists_tokenOfSpan {span : Span} {text : List Char} (hFits : text.length = span.length) :
    ∃ token, tokenOfSpan span text = .ok token ∧ token.span? = some span ∧
      token.isEmptyExcerpt = false ∧ token.shown = text ∧
      cellsAt (0, token) = charCells span.start 0 text := by
  cases text with
  | nil => exact ⟨.gap ⟨span, false⟩, rfl, rfl, rfl, rfl, rfl⟩
  | cons c rest =>
      refine ⟨.excerpt ⟨span, c :: rest, hFits⟩, ?_, rfl, rfl, rfl, cellsAt_excerpt 0 _⟩
      simp [tokenOfSpan, Excerpt.make, hFits, bind, Except.bind, pure, Except.pure]

/-- A span of a source gives a view of all its characters. -/
theorem exists_ofSpan (source : Source) {span : Span} (hSource : span.source = source.id)
    (hStop : span.stop ≤ source.text.length) (domain : Domain) :
    ∃ view, View.ofSpan source span domain = .ok view ∧ view.domain = domain ∧
      view.source = source.id ∧ view.text = (source.text.take span.stop).drop span.start ∧
      Rooted view.tokens ∧ placedCells view.tokens = charCells span.start 0 view.text := by
  have hRead := Source.readChecked_eq_ok_iff.2 ⟨hSource, hStop, rfl⟩
  have hFits : ((source.text.take span.stop).drop span.start).length = span.length := by
    rw [List.length_drop, List.length_take, Nat.min_eq_left hStop]
    rfl
  obtain ⟨token, hToken, hSpan, hShows, hShown, hCells⟩ := exists_tokenOfSpan hFits
  have hSome : token.span?.isSome = true := by rw [hSpan]; rfl
  have hStem : StemFrom source.id [token] := by
    intro other hOther
    obtain rfl := List.mem_singleton.1 hOther
    refine ⟨hShows, fun found hFound => ?_⟩
    obtain rfl := Option.some.inj (hSpan.symm.trans hFound)
    exact hSource
  have hRooted : Rooted [token] := ⟨token, List.mem_singleton.2 rfl, hShows, hSome⟩
  obtain ⟨view, hView, hDomain, hName, hTokens⟩ := exists_ofTokens domain hStem hRooted
  rw [normalize_singleton hShows hSome] at hTokens
  have hText : view.text = (source.text.take span.stop).drop span.start := by
    rw [text, hTokens, shownText, List.flatMap_singleton, hShown]
  refine ⟨view, ?_, hDomain, hName, hText, hTokens ▸ hRooted, ?_⟩
  · simp only [View.ofSpan, hRead, hToken, hView, bind, Except.bind]
  · rw [hText, hTokens, ← hCells]
    exact List.flatMap_singleton cellsAt (0, token)

/-- For every span of a source there is a view to begin with that shows all of it. Merged ranges can be
hidden from that view, and following a recipe hides from it what the recipe finds. -/
theorem exists_whole (source : Source) (span? : Option Span)
    (hSpan : ∀ span ∈ span?, span.source = source.id ∧ span.stop ≤ source.text.length)
    (domain : Domain) :
    ∃ whole, View.ofSpan source (span?.getD source.wholeSpan) domain = .ok whole ∧
      whole.text = (source.text.take (span?.getD source.wholeSpan).stop).drop
        (span?.getD source.wholeSpan).start ∧
      (∀ ranges, (∀ a ∈ ranges, a.start < a.stop ∧ a.stop ≤ whole.length) →
        ∃ after, whole.excludeAll (Recipe.merge ranges) = .ok after ∧ after.domain = domain ∧
          after.source = source.id ∧ Hides ranges whole.text after) ∧
      ∀ (finds : Pattern.Finder) (recipe : Recipe), recipe.buildBy finds source span? domain =
        whole.excludeAll (Recipe.merge (recipe.foundBy finds whole.text)) := by
  have hChosen : Recipe.chosenSpan source span? = .ok (span?.getD source.wholeSpan) := by
    cases span? <;> rfl
  have hWithin : (span?.getD source.wholeSpan).source = source.id ∧
      (span?.getD source.wholeSpan).stop ≤ source.text.length := by
    cases span? with
    | none => exact ⟨rfl, Nat.le_refl _⟩
    | some span => exact hSpan span rfl
  obtain ⟨whole, hWhole, hDomain, hSource, hText, hRooted, hCells⟩ :=
    exists_ofSpan source hWithin.1 hWithin.2 domain
  refine ⟨whole, hWhole, hText, fun ranges hRanges => ?_, fun finds recipe => ?_⟩
  · obtain ⟨after, hAfter, hAfterDomain, hAfterSource, hHides⟩ :=
      exists_excludeAll_merge hRooted hCells hRanges
    exact ⟨after, hAfter, hAfterDomain.trans hDomain, hAfterSource.trans hSource, hHides⟩
  · simp only [Recipe.buildBy, hChosen, hWhole, bind, Except.bind]

/-- A recipe can be followed for every span of every source. Whatever non-empty ranges of the text are
given, merging them and hiding what results leaves just what no range covers and a marker for each
group of linked ranges of which one is unknown. A view that is built shows this for the matches and
the runs of its recipe, and it does so for any search in place of matching, whatever it finds. -/
theorem build_hides (recipe : Recipe) (source : Source) (span? : Option Span)
    (hSpan : ∀ span ∈ span?, span.source = source.id ∧ span.stop ≤ source.text.length)
    (domain : Domain) :
    ∃ whole view, View.ofSpan source (span?.getD source.wholeSpan) domain = .ok whole ∧
      whole.text = (source.text.take (span?.getD source.wholeSpan).stop).drop
        (span?.getD source.wholeSpan).start ∧
      (∀ ranges, (∀ a ∈ ranges, a.start < a.stop ∧ a.stop ≤ whole.length) →
        ∃ after, whole.excludeAll (Recipe.merge ranges) = .ok after ∧
          Hides ranges whole.text after) ∧
      recipe.build source span? domain = .ok view ∧ view.domain = domain ∧
      view.source = source.id ∧ Hides (recipe.found whole.text) whole.text view ∧
      (∀ a, a ∈ recipe.found whole.text ↔
        (a.unknown = false ∧ (Recipe.MatchOf recipe.excluded whole.text a.toRange ∨
          Recipe.IndentRun recipe.indentChars whole.text a.toRange ∨
          Recipe.SuffixRun recipe.suffixChars whole.text a.toRange)) ∨
        (a.unknown = true ∧ Recipe.MatchOf recipe.unknown whole.text a.toRange)) ∧
      ∀ finds : Pattern.Finder,
        (∃ built, recipe.buildBy finds source span? domain = .ok built ∧ built.domain = domain ∧
          built.source = source.id ∧ Hides (recipe.foundBy finds whole.text) whole.text built) ∧
        ∀ a, a ∈ recipe.foundBy finds whole.text ↔
          (a.unknown = false ∧ (Recipe.FoundFor finds recipe.excluded whole.text a.toRange ∨
            Recipe.IndentRun recipe.indentChars whole.text a.toRange ∨
            Recipe.SuffixRun recipe.suffixChars whole.text a.toRange)) ∨
          (a.unknown = true ∧ Recipe.FoundFor finds recipe.unknown whole.text a.toRange) := by
  obtain ⟨whole, hWhole, hText, hMerged, hBuild⟩ := exists_whole source span? hSpan domain
  have hBuilt (finds : Pattern.Finder) : ∃ built,
      recipe.buildBy finds source span? domain = .ok built ∧ built.domain = domain ∧
        built.source = source.id ∧ Hides (recipe.foundBy finds whole.text) whole.text built := by
    rw [hBuild finds recipe]
    exact hMerged _ fun _ ha => Recipe.proper_of_mem_foundBy ha
  -- Recipes search by matching, so what holds of every search holds of them.
  obtain ⟨view, hView, hDomain, hSource, hHides⟩ := hBuilt Pattern.matchesIn
  refine ⟨whole, view, hWhole, hText, fun ranges hRanges => ?_, hView, hDomain, hSource, hHides,
    fun _ => @Recipe.mem_foundBy_iff Pattern.matchesIn recipe whole.text _,
    fun finds => ⟨hBuilt finds, fun _ => Recipe.mem_foundBy_iff⟩⟩
  obtain ⟨after, hAfter, -, -, hHidden⟩ := hMerged ranges hRanges
  exact ⟨after, hAfter, hHidden⟩

/-- Two patterns whose matches share a character, one of them to be marked, and a blank behind them at
the end of the line. -/
theorem build_hides_overlapping :
    ∃ excluded marked view, Pattern.compile ['a', 'b'] = .ok excluded ∧
      Pattern.compile ['b', 'c'] = .ok marked ∧
      Recipe.build { excluded := [excluded], unknown := [marked], suffixChars := [' '] }
        (⟨"doc", ['x', 'a', 'b', 'c', ' ']⟩ : Source) = .ok view ∧
      view.text = ['x'] ∧ 1 ∈ view.unknownOffsets := by
  have hPatterns : ∃ excluded marked, Pattern.compile ['a', 'b'] = .ok excluded ∧
      Pattern.compile ['b', 'c'] = .ok marked ∧
      Recipe.found { excluded := [excluded], unknown := [marked], suffixChars := [' '] }
        ['x', 'a', 'b', 'c', ' '] = [⟨⟨1, 3, by decide⟩, false⟩, ⟨⟨2, 4, by decide⟩, true⟩,
          ⟨⟨4, 5, by decide⟩, false⟩] := ⟨_, _, rfl, rfl, rfl⟩
  obtain ⟨excluded, marked, hExcluded, hMarked, hFound⟩ := hPatterns
  obtain ⟨whole, view, -, hText, -, hView, -, -, hHides, -⟩ :=
    build_hides { excluded := [excluded], unknown := [marked], suffixChars := [' '] }
      ⟨"doc", ['x', 'a', 'b', 'c', ' ']⟩ none (by simp) .plainText
  have hWhole : whole.text = ['x', 'a', 'b', 'c', ' '] := hText
  rw [hWhole, hFound] at hHides
  refine ⟨excluded, marked, view, hExcluded, hMarked, hView, hHides.text_eq.trans rfl, ?_⟩
  refine (hHides.mem_unknownOffsets 1).2 ⟨⟨⟨2, 4, by decide⟩, true⟩, by simp, rfl,
    ⟨⟨1, 3, by decide⟩, false⟩, by simp, .rel _ _ ⟨by simp, by simp, rfl⟩, ?_, rfl⟩
  simp

end View
end SourceView
