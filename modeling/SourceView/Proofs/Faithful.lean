import SourceView.Proofs.Derivation
import SourceView.Proofs.Offset

/-! Views and the text they come from. A token is faithful to a source when it lies within it and
shows what stands there. Cutting, fusing and hiding keep tokens faithful, so whatever was done to a
view, each shown character is still the one at its own place in the source. -/
namespace SourceView

/-- The items up to a position and those from there on to another one. -/
theorem slice_append_slice {α : Type} {items : List α} {first middle last : Nat}
    (hFirst : first ≤ middle) (hLast : middle ≤ last) (hMiddle : middle ≤ items.length) :
    (items.take middle).drop first ++ (items.take last).drop middle =
      (items.take last).drop first := by
  have hFront : (items.take last).take middle = items.take middle := by
    rw [List.take_take, Nat.min_eq_left hLast]
  have hLength : first ≤ (items.take middle).length := by
    rw [List.length_take]
    omega
  rw [← List.drop_append_of_le_length hLength, ← hFront, List.take_append_drop]

def Span.Within (span : Span) (source : Source) : Prop :=
  span.source = source.id ∧ span.stop ≤ source.text.length

namespace Token

/-- Whether a token lies within a source and shows the characters that stand there. -/
def Faithful (source : Source) : Token → Prop
  | excerpt e =>
    e.span.Within source ∧ e.text = (source.text.take e.span.stop).drop e.span.start
  | gap g => g.anchor.Within source
  | separator _ => True

variable {source : Source}

theorem Faithful.within {token : Token} {span : Span} (h : Faithful source token)
    (hSpan : token.span? = some span) : span.Within source := by
  cases token with
  | separator s => cases hSpan
  | gap g =>
      cases hSpan
      exact h
  | excerpt e =>
      cases hSpan
      exact h.1

/-- Two faithful excerpts that touch show together what stands over both of their spans. -/
theorem faithful_append {a b : Excerpt} (h : a.span.Adjacent b.span)
    (ha : Faithful source (excerpt a)) (hb : Faithful source (excerpt b)) :
    Faithful source (excerpt (a.append b h)) := by
  obtain ⟨⟨hSource, hStop⟩, hFirst⟩ := ha
  obtain ⟨⟨-, hEnd⟩, hSecond⟩ := hb
  refine ⟨⟨hSource, hEnd⟩, ?_⟩
  have hBetween := h.2
  show a.text ++ b.text = (source.text.take b.span.stop).drop a.span.start
  rw [hFirst, hSecond, ← hBetween]
  exact slice_append_slice a.span.ordered (hBetween ▸ b.span.ordered) hStop

theorem faithful_take {e : Excerpt} (h : Faithful source (excerpt e)) (n : Nat) :
    Faithful source (excerpt (e.take n)) := by
  obtain ⟨⟨hSource, hStop⟩, hText⟩ := h
  refine ⟨⟨hSource, Nat.le_trans (Nat.min_le_right _ _) hStop⟩, ?_⟩
  show e.text.take n = (source.text.take (min (e.span.start + n) e.span.stop)).drop e.span.start
  rw [hText, List.take_drop, List.take_take]

theorem faithful_drop {e : Excerpt} (h : Faithful source (excerpt e)) (n : Nat) :
    Faithful source (excerpt (e.drop n)) := by
  obtain ⟨⟨hSource, hStop⟩, hText⟩ := h
  refine ⟨⟨hSource, hStop⟩, ?_⟩
  show e.text.drop n = (source.text.take e.span.stop).drop (min (e.span.start + n) e.span.stop)
  rw [hText, List.drop_drop]
  rcases Nat.le_total (e.span.start + n) e.span.stop with hInside | hBeyond
  · rw [Nat.min_eq_left hInside]
  · have hLength : (source.text.take e.span.stop).length ≤ e.span.stop := List.length_take_le _ _
    rw [Nat.min_eq_right hBeyond, List.drop_of_length_le hLength,
      List.drop_of_length_le (Nat.le_trans hLength hBeyond)]

/-- The canonical form keeps faithful tokens faithful, since it only fuses them. -/
theorem faithful_normalize {tokens : List Token} (h : ∀ token ∈ tokens, Faithful source token) :
    ∀ token ∈ normalize tokens, Faithful source token := by
  refine forall_mem_normalize h (fun _ _ _ => trivial) (fun _ _ => faithful_append) ?_
  intro a b ha hb
  exact ⟨ha.1, Nat.max_le.2 ⟨ha.2, hb.2⟩⟩

theorem faithful_atomize {tokens : List Token} (h : ∀ token ∈ tokens, Faithful source token) :
    ∀ token ∈ atomize tokens, Faithful source token :=
  forall_mem_atomize h (fun _ n he => faithful_take he n) (fun _ n he => faithful_drop he n)

/-- Hulls and end points of spans within a source lie within it. -/
theorem inherited_within (source : Source) : Exclusion.Inherited (·.Within source) := by
  refine ⟨fun a b ha hb => ⟨ha.1, Nat.max_le.2 ⟨ha.2, hb.2⟩⟩, fun a ha => ⟨ha.1, ?_⟩, fun _ ha => ha⟩
  exact Nat.le_trans a.ordered ha.2

end Token

/-- Whether a provider gives out the text of a source under its name. -/
def Serves {α : Type} [Provider α] (provider : α) (source : Source) : Prop :=
  ∀ span text, span.source = source.id → readChecked provider span = .ok text →
    readChecked source span = .ok text

theorem Source.serves (source : Source) : Serves source source := fun _ _ _ h => h

/-- A shelf gives out the texts of the sources that stand on it. -/
theorem Shelf.serves {shelf : Shelf} {source : Source} (h : shelf.get source.id = .ok source) :
    Serves shelf source := by
  intro span text hName hRead
  simpa [readChecked, Provider.sourceLength, Provider.readBetween, Source.checked, hName, h, bind,
    Except.bind, pure, Except.pure] using hRead

namespace View
open Token

/-- A view that is obtained from the text of one source by joining, hiding, marking and trimming. The
text may be read through any provider that gives it out. -/
inductive BuiltFrom (source : Source) : View → Prop
  | ofSpan {α : Type} [Provider α] (provider : α) (hServes : Serves provider source) (span : Span)
      (hSpan : span.source = source.id) (domain : Domain) {view : View}
      (h : View.ofSpan provider span domain = .ok view) : BuiltFrom source view
  | ofSource (domain : Domain) {view : View} (h : View.ofSource source domain = .ok view) :
      BuiltFrom source view
  | join {views : List View} {view : View} (hViews : ∀ part ∈ views, BuiltFrom source part)
      (h : View.join views = .ok view) : BuiltFrom source view
  | joinWithBlank {views : List View} {view : View} (blank : List Char)
      (hViews : ∀ part ∈ views, BuiltFrom source part)
      (h : View.joinWithBlank views blank = .ok (some view)) : BuiltFrom source view
  | hide {before view : View} (wanted : Loose) (hBefore : BuiltFrom source before)
      (h : before.hide wanted = .ok view) : BuiltFrom source view
  | mark {before view : View} (wanted : Loose) (hBefore : BuiltFrom source before)
      (h : before.mark wanted = .ok view) : BuiltFrom source view
  | excludeAll {before view : View} (exclusions : List Exclusion) (hBefore : BuiltFrom source before)
      (h : before.excludeAll exclusions = .ok view) : BuiltFrom source view
  | trim {before view : View} (hBefore : BuiltFrom source before) (h : before.trim = .ok view) :
      BuiltFrom source view

variable {source : Source}

/-- Every span of a source may be read through every provider that gives out its text. -/
theorem BuiltFrom.derived {view : View} (h : BuiltFrom source view) :
    Derived (fun _ _ provider span => Serves provider source ∧ span.source = source.id)
      (fun _ => True) (fun _ => True) view := by
  induction h with
  | ofSpan provider hServes span hSpan domain h => exact .ofSpan ⟨hServes, hSpan⟩ h
  | ofSource domain h => exact .ofSource ⟨source.serves, rfl⟩ h
  | join hViews h ih => exact .join ih trivial h
  | joinWithBlank blank hViews h ih => exact .joinWithBlank ih trivial h
  | hide wanted hBefore h ih => exact Derived.preserved.hide h ih
  | mark wanted hBefore h ih => exact Derived.preserved.mark h ih
  | excludeAll exclusions hBefore h ih => exact .excludeAll ih h
  | trim hBefore h ih => exact Derived.preserved.trim h ih

theorem BuiltFrom.grounded {view : View} (h : BuiltFrom source view) : Grounded view.tokens :=
  h.derived.grounded

/-- The view of a span shows what was read, and that is the text of the source. -/
theorem faithful_ofSpan {α : Type} [Provider α] {provider : α} {span : Span} {domain : Domain}
    {view : View} (hServes : Serves provider source) (hSource : span.source = source.id)
    (h : View.ofSpan provider span domain = .ok view) :
    ∀ token ∈ view.tokens, Faithful source token := by
  obtain ⟨token, hSpan, -, hRead, hTokens⟩ := exists_token_of_ofSpan h
  obtain ⟨hName, hStop, hText⟩ :=
    Source.readChecked_eq_ok_iff.1 (hServes span token.shown hSource hRead)
  rw [hTokens]
  apply faithful_normalize
  simp only [List.mem_singleton, forall_eq]
  cases token with
  | separator s => trivial
  | gap g =>
      cases hSpan
      exact ⟨hName, hStop⟩
  | excerpt e =>
      cases hSpan
      exact ⟨⟨hName, hStop⟩, hText⟩

/-- Exclusions cut excerpts and put gaps over spans of the view, and both stay faithful. -/
theorem faithful_excludeAll {view after : View} {exclusions : List Exclusion}
    (hRooted : Rooted view.tokens) (hTokens : ∀ token ∈ view.tokens, Faithful source token)
    (h : view.excludeAll exclusions = .ok after) : ∀ token ∈ after.tokens, Faithful source token := by
  obtain ⟨swept, found, hSwept, -, hFound, -, -, hAfter⟩ :=
    exists_excludeAll hRooted (validate_of_excludeAll h)
  obtain rfl : after = found := Except.ok.inj (h.symm.trans hFound)
  rw [hAfter]
  apply faithful_normalize
  refine (inherited_within source).forall_mem_sweep (fun _ hWithin => hWithin)
    (fun _ _ hToken hSpan => hToken.within hSpan) hSwept ?_
  intro piece hPiece
  exact faithful_atomize hTokens piece.2 (mem_of_mem_placed hPiece)

/-- All that is derived from readings of one source is faithful to it. -/
theorem Derived.faithful {joins spaces : List View → Prop} {view : View}
    (h : Derived (fun _ _ provider span => Serves provider source ∧ span.source = source.id)
      joins spaces view) : ∀ token ∈ view.tokens, Faithful source token := by
  induction h with
  | ofSpan hReads h => exact faithful_ofSpan hReads.1 hReads.2 h
  | join hViews hJoins h ih => exact forall_mem_join (fun _ hAll => faithful_normalize hAll) ih h
  | joinWithBlank hViews hSpaces h ih =>
      rcases joinWithBlank_cases h with rfl | ⟨separator, hTokens⟩
      · exact ih _ List.mem_cons_self
      · rw [hTokens]
        exact faithful_normalize (forall_mem_spacedTokens ih trivial none)
  | excludeAll hBefore h ih => exact faithful_excludeAll hBefore.grounded.rooted ih h

theorem BuiltFrom.faithful {view : View} (h : BuiltFrom source view) :
    ∀ token ∈ view.tokens, Faithful source token := h.derived.faithful

/-- What a view shows of a source, and where: all its material is that of the source; each shown
character is an active separator or the character of the source at its own source offset; and no
source offset lies outside of the source. -/
structure Shows (view : View) (source : Source) : Prop where
  excerpts : ∀ e, Token.excerpt e ∈ view.tokens →
    e.text = (source.text.take e.span.stop).drop e.span.start
  spans : ∀ token ∈ view.tokens, ∀ span, token.span? = some span →
    span.source = source.id ∧ span.stop ≤ source.text.length
  characters : ∀ offset < view.length,
    (∃ left s right, view.tokens = left ++ .separator s :: right ∧ s.active = true ∧
      totalWidth left = offset ∧ view.text[offset]? = some s.char) ∨
    ∃ position c, view.sourceOffset offset .behind = .ok position ∧ view.text[offset]? = some c ∧
      source.text[position]? = some c ∧
      view.sourceOffset (offset + 1 : Nat) .before = .ok (position + 1)
  offsets : ∀ offset ≤ view.length, ∀ side, ∃ position ≤ source.text.length,
    view.sourceOffset offset side = .ok position

/-- A character of a token stands in the text behind what the tokens in front show. -/
theorem getElem?_text {view : View} {left right : List Token} {token : Token} {i : Nat}
    (hTokens : view.tokens = left ++ token :: right) (hi : i < token.width) :
    view.text[totalWidth left + i]? = token.shown[i]? := by
  have hText : view.text = shownText left ++ (token.shown ++ shownText right) := by
    rw [text, hTokens, shownText, List.flatMap_append, List.flatMap_cons]
    rfl
  rw [hText, ← length_shownText, List.getElem?_append_right (Nat.le_add_right _ _),
    Nat.add_sub_cancel_left, List.getElem?_append_left hi]

/-- A shown character of a faithful view is the one at its place in the source. -/
theorem getElem?_of_showsAt {view : View} {offset position : Nat}
    (hFaithful : ∀ token ∈ view.tokens, Faithful source token) (h : ShowsAt view offset position) :
    ∃ c, view.text[offset]? = some c ∧ source.text[position]? = some c := by
  obtain ⟨left, e, right, i, hTokens, hi, rfl, rfl⟩ := h
  have hStop := e.stop_eq
  have hText : view.text[totalWidth left + i]? = e.text[i]? := getElem?_text hTokens hi
  have hSource : source.text[e.span.start + i]? = e.text[i]? := by
    rw [(hFaithful (.excerpt e) (by simp [hTokens])).2, List.getElem?_drop,
      List.getElem?_take_of_lt (by omega)]
  have hChar : e.text[i]? = some e.text[i] := List.getElem?_eq_getElem hi
  exact ⟨e.text[i], hText.trans hChar, hSource.trans hChar⟩

/-- A view that is built from a source shows what stands in the source, whatever was joined, hidden,
marked and trimmed on the way. -/
theorem shows_of_builtFrom {view : View} (hView : BuiltFrom source view) : Shows view source := by
  have hFaithful := hView.faithful
  have hSpans := spans_ne_nil_of_rooted hView.grounded.rooted
  refine ⟨fun e he => (hFaithful _ he).2,
    fun token hToken span hSpan => (hFaithful token hToken).within hSpan, ?_, ?_⟩
  · intro offset hOffset
    rcases exists_showsAt_or_separator hOffset with
      ⟨position, hShown⟩ | ⟨left, s, right, hTokens, hActive, rfl⟩
    · obtain ⟨c, hText, hSource⟩ := getElem?_of_showsAt hFaithful hShown
      exact .inr ⟨position, c, hShown.sourceOffset_behind, hText, hSource, hShown.sourceOffset_before⟩
    · refine .inl ⟨left, s, right, hTokens, hActive, rfl, ?_⟩
      have hWidth : 0 < (Token.separator s).width := by simp [width_separator, hActive]
      have hText := getElem?_text hTokens hWidth
      rw [Nat.add_zero] at hText
      simp [hText, Token.shown, hActive]
  · intro offset hOffset side
    obtain ⟨position, hPosition, span, hSpan, -, hStop⟩ := exists_sourceOffset hSpans hOffset side
    obtain ⟨token, hToken, hSpan⟩ := List.mem_filterMap.1 hSpan
    exact ⟨position, Nat.le_trans hStop ((hFaithful token hToken).within hSpan).2, hPosition⟩

/-- A text with its first character marked, behind a part of itself and a separator. -/
theorem shows_of_builtFrom_joined :
    ∃ whole part marked view,
      View.ofSource ⟨"doc", ['a', 'b', 'c']⟩ = .ok whole ∧
      View.ofSpan (⟨"doc", ['a', 'b', 'c']⟩ : Source) ⟨⟨1, 3, by decide⟩, "doc"⟩ = .ok part ∧
      whole.mark (.range ⟨0, 1, by decide⟩) = .ok marked ∧
      View.joinWithBlank [part, marked] = .ok (some view) ∧
      Shows view ⟨"doc", ['a', 'b', 'c']⟩ := by
  have hParts : ∃ whole part marked view,
      View.ofSource ⟨"doc", ['a', 'b', 'c']⟩ = .ok whole ∧
      View.ofSpan (⟨"doc", ['a', 'b', 'c']⟩ : Source) ⟨⟨1, 3, by decide⟩, "doc"⟩ = .ok part ∧
      whole.mark (.range ⟨0, 1, by decide⟩) = .ok marked ∧
      View.joinWithBlank [part, marked] = .ok (some view) := ⟨_, _, _, _, rfl, rfl, rfl, rfl⟩
  obtain ⟨whole, part, marked, view, hWhole, hPart, hMarked, hView⟩ := hParts
  refine ⟨whole, part, marked, view, hWhole, hPart, hMarked, hView, ?_⟩
  apply shows_of_builtFrom
  refine .joinWithBlank [' '] ?_ hView
  simp only [List.mem_cons, forall_eq_or_imp]
  refine ⟨.ofSpan _ (Source.serves _) _ rfl _ hPart, .mark _ (.ofSource _ hWhole) hMarked, ?_⟩
  simp

end View
end SourceView
