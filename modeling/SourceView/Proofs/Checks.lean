import SourceView.Proofs.Atoms
import SourceView.View.Hide

/-! Checks on the way. What the engine makes of spans and excerpts carries the proof that it is well
formed. Here every span, excerpt and separator is made of plain numbers and texts instead, through
the check that refuses what is not well formed. Nothing is ever refused: both engines return the same
tokens and fail with the same faults. -/
namespace SourceView

namespace Excerpt

/-- A slice within an excerpt is never refused. -/
theorem slice_eq_ok (e : Excerpt) {start stop : Nat} (hOrdered : start ≤ stop)
    (hStop : stop ≤ e.text.length) : e.slice start stop = .ok ((e.drop start).take (stop - start)) := by
  have hEnd := e.stop_eq
  have hSpan : e.span.slice start stop = .ok ((e.drop start).take (stop - start)).span := by
    have hInside : ¬ ((start : Int) < 0 ∨ (e.span.length : Int) < stop ∨ (stop : Int) < start) := by
      rw [← e.fits]
      omega
    rw [Span.slice, if_neg hInside, Span.make_eq_ok_iff]
    simp only [take, drop, Span.take, Span.drop]
    refine ⟨trivial, ?_, ?_⟩ <;> omega
  have hText : (e.text.take stop).drop start = ((e.drop start).take (stop - start)).text :=
    List.drop_take
  have hFits := ((e.drop start).take (stop - start)).fits
  simp only [slice, hSpan, bind, Except.bind, Int.toNat_natCast, hText, make, dif_pos hFits]

def dropChecked (e : Excerpt) (n : Nat) : Except Fault Excerpt :=
  if n = 0 then .ok e else e.slice n e.text.length

/-- The pieces of an excerpt that begins at `start`, cut as `cut` does it. The first `done`
characters have been cut off already. -/
def cutChecked (start done : Nat) (e : Excerpt) : List Nat → Except Fault (List Piece)
  | [] => do
    let last ← e.dropChecked done
    return [(start + done, .excerpt last)]
  | offset :: offsets =>
    if start + done < offset ∧ offset < start + e.text.length then do
      let front ← e.slice done (offset - start : Nat)
      let pieces ← cutChecked start (offset - start) e offsets
      return (start + done, .excerpt front) :: pieces
    else cutChecked start done e offsets

theorem dropChecked_eq (e : Excerpt) {n : Nat} (h : n ≤ e.text.length) :
    e.dropChecked n = .ok (e.drop n) := by
  unfold dropChecked
  split
  · next hNone => rw [hNone, drop_zero]
  · rw [slice_eq_ok e h (Nat.le_refl _), take_of_length_le]
    simp [drop]

/-- Cutting by checked slices is never refused and gives the pieces that cutting gives. In the
induction the cuts so far have removed the first `done` characters. -/
theorem cutChecked_eq (start : Nat) (e : Excerpt) {done : Nat} (hDone : done ≤ e.text.length)
    (offsets : List Nat) :
    e.cutChecked start done offsets = .ok ((e.drop done).cut (start + done) offsets) := by
  induction offsets generalizing done with
  | nil =>
      rw [cutChecked, dropChecked_eq e hDone]
      rfl
  | cons offset offsets ih =>
      have hLength : (e.drop done).text.length = e.text.length - done := List.length_drop
      rw [cutChecked, cut, hLength]
      by_cases hInside : start + done < offset ∧ offset < start + e.text.length
      · have hCut : start + done < offset ∧ offset < start + done + (e.text.length - done) := by omega
        have hRest : done + (offset - (start + done)) = offset - start := by omega
        have hFront : offset - start - done = offset - (start + done) := by omega
        have hNext : start + (offset - start) = offset := by omega
        rw [if_pos hInside, if_pos hCut, slice_eq_ok e (by omega) (by omega), ih (by omega), drop_drop,
          hRest, hFront, hNext]
        rfl
      · have hUncut : ¬ (start + done < offset ∧ offset < start + done + (e.text.length - done)) := by
          omega
        rw [if_neg hInside, if_neg hUncut, ih hDone]

end Excerpt

namespace Span

def hullAllChecked? : List Span → Except Fault (Option Span)
  | [] => .ok none
  | first :: rest => do
    let whole ← make first.source ((rest.map (·.start)).foldl min first.start : Nat)
      ((rest.map (·.stop)).foldl max first.stop : Nat)
    return some whole

/-- A hull of spans reaches from the least start to the greatest end. -/
theorem foldl_hull_eq (first : Span) (rest : List Span) :
    (rest.foldl hull first).source = first.source ∧
      (rest.foldl hull first).start = (rest.map (·.start)).foldl min first.start ∧
      (rest.foldl hull first).stop = (rest.map (·.stop)).foldl max first.stop := by
  induction rest generalizing first with
  | nil => exact ⟨rfl, rfl, rfl⟩
  | cons span rest ih => exact ih (first.hull span)

/-- The least start of some spans is never behind their greatest end, so their hull is never
refused. -/
theorem hullAllChecked?_eq (spans : List Span) : hullAllChecked? spans = .ok (hullAll? spans) := by
  cases spans with
  | nil => rfl
  | cons first rest =>
      obtain ⟨hSource, hStart, hStop⟩ := foldl_hull_eq first rest
      have hMade : make first.source ((rest.map (·.start)).foldl min first.start : Nat)
          ((rest.map (·.stop)).foldl max first.stop : Nat) = .ok (rest.foldl hull first) :=
        make_eq_ok_iff.2 ⟨hSource.symm, by rw [hStart], by rw [hStop]⟩
      rw [hullAllChecked?, hMade]
      rfl

theorem point_stop (span : Span) : span.point span.stop = .ok span.tail :=
  make_eq_ok_iff.2 ⟨rfl, rfl, rfl⟩

theorem point_start (span : Span) : span.point span.start = .ok span.head :=
  make_eq_ok_iff.2 ⟨rfl, rfl, rfl⟩

end Span

namespace Token

def splitChecked (offsets : List Nat) (tokens : List Token) : Except Fault (List Piece) := do
  let pieces ← (placed 0 tokens).mapM fun (start, token) =>
    match token with
    | excerpt e => e.cutChecked start 0 offsets
    | other => .ok [(start, other)]
  return pieces.flatten

def settleChecked (awake : Bool) : List Token → Except Fault (List Token)
  | [] => .ok []
  | separator s :: rest => do
    let made ← Separator.make [s.char] awake
    return separator made :: (← settleChecked awake rest)
  | token :: rest => do return token :: (← settleChecked (awake || token.wakes) rest)

def attachChecked (token : Token) (rest : List Token) : Except Fault (List Token) :=
  match token, rest with
  | excerpt a, excerpt b :: tail =>
    if a.span.Adjacent b.span then do
      let span ← Span.make a.span.source a.span.start b.span.stop
      let whole ← Excerpt.make span (a.text ++ b.text)
      return excerpt whole :: tail
    else .ok (token :: rest)
  | gap a, gap b :: tail => do
    let anchor ← Span.make a.anchor.source (min a.anchor.start b.anchor.start : Nat)
      (max a.anchor.stop b.anchor.stop : Nat)
    return gap ⟨anchor, a.unknown || b.unknown⟩ :: tail
  | _, _ => .ok (token :: rest)

def fuseChecked : List Token → Except Fault (List Token)
  | [] => .ok []
  | token :: rest => do attachChecked token (← fuseChecked rest)

def normalizeChecked (tokens : List Token) : Except Fault (List Token) := do
  fuseChecked (← settleChecked false (anchored tokens))

/-- No slice is refused when a sequence is cut. -/
theorem splitChecked_eq (offsets : List Nat) (tokens : List Token) :
    splitChecked offsets tokens = .ok (split offsets tokens) := by
  have hPieces (pieces : List Piece) : (pieces.mapM fun (start, token) =>
      match token with
      | excerpt e => e.cutChecked start 0 offsets
      | other => Except.ok [(start, other)]) =
        Except.ok (pieces.map fun (start, token) =>
          match token with
          | excerpt e => e.cut start offsets
          | other => [(start, other)]) := by
    induction pieces with
    | nil => rfl
    | cons piece rest ih =>
        obtain ⟨start, token⟩ := piece
        rw [List.mapM_cons, ih]
        cases token with
        | excerpt e =>
            simp only [Excerpt.cutChecked_eq start e (Nat.zero_le _), Excerpt.drop_zero]
            rfl
        | gap g => rfl
        | separator s => rfl
  rw [splitChecked, hPieces, split, List.flatMap_def]
  rfl

/-- The character of a separator is a blank, so the separator can be made anew. -/
theorem settleChecked_eq (awake : Bool) (tokens : List Token) :
    settleChecked awake tokens = .ok (settle awake tokens) := by
  fun_induction settle awake tokens with
  | case1 => rfl
  | case2 awake s rest ih =>
      simp only [settleChecked, Separator.make, dif_pos s.blank, ih]
      rfl
  | case3 awake token rest hToken ih =>
      rw [settleChecked, ih]
      · rfl
      · exact hToken

/-- Excerpts that touch are as long together as the span that they are made one over. -/
theorem attachChecked_excerpt (a b : Excerpt) (tail : List Token) :
    attachChecked (excerpt a) (excerpt b :: tail) = .ok (attach (excerpt a) (excerpt b :: tail)) := by
  by_cases hAdjacent : a.span.Adjacent b.span
  · have hSpan : Span.make a.span.source a.span.start b.span.stop = .ok (a.append b hAdjacent).span :=
      Span.make_eq_ok_iff.2 ⟨rfl, rfl, rfl⟩
    have hText : Excerpt.make (a.append b hAdjacent).span (a.text ++ b.text) =
        .ok (a.append b hAdjacent) := dif_pos (a.append b hAdjacent).fits
    simp only [attachChecked, attach, if_pos hAdjacent, dif_pos hAdjacent, hSpan, hText, bind,
      Except.bind, pure, Except.pure]
  · simp only [attachChecked, attach, if_neg hAdjacent, dif_neg hAdjacent]

theorem attachChecked_gap (a b : Gap) (tail : List Token) :
    attachChecked (gap a) (gap b :: tail) = .ok (attach (gap a) (gap b :: tail)) := by
  have hSpan : Span.make a.anchor.source (min a.anchor.start b.anchor.start : Nat)
      (max a.anchor.stop b.anchor.stop : Nat) = .ok (a.anchor.hull b.anchor) :=
    Span.make_eq_ok_iff.2 ⟨rfl, rfl, rfl⟩
  simp only [attachChecked, hSpan]
  rfl

/-- What becomes one token is never refused. -/
theorem attachChecked_eq (token : Token) (rest : List Token) :
    attachChecked token rest = .ok (attach token rest) := by
  cases rest with
  | nil => cases token <;> rfl
  | cons next tail =>
      cases token with
      | separator s => rfl
      | excerpt a =>
          cases next with
          | excerpt b => exact attachChecked_excerpt a b tail
          | gap g => rfl
          | separator s => rfl
      | gap a =>
          cases next with
          | gap b => exact attachChecked_gap a b tail
          | excerpt e => rfl
          | separator s => rfl

theorem fuseChecked_eq (tokens : List Token) : fuseChecked tokens = .ok (fuse tokens) := by
  induction tokens with
  | nil => rfl
  | cons token rest ih =>
      rw [fuseChecked, ih]
      exact attachChecked_eq token (fuse rest)

theorem normalizeChecked_eq (tokens : List Token) : normalizeChecked tokens = .ok (normalize tokens) := by
  rw [normalizeChecked, settleChecked_eq]
  exact fuseChecked_eq _

end Token

namespace Exclusion

def markerAnchorChecked (left right : List Piece) : Except Fault Span :=
  match left.findSome? (·.2.span?) with
  | some span => span.point span.stop
  | none =>
    match right.findSome? (·.2.span?) with
    | some span => span.point span.start
    | none => .error .noAnchor

def replacementChecked (unknown : Bool) (left removed right : List Piece) :
    Except Fault (List Token) := do
  match ← Span.hullAllChecked? (removed.filterMap (·.2.span?)) with
  | some anchor => return [.gap ⟨anchor, unknown || removed.any (·.2.isMarker)⟩]
  | none =>
    if unknown then return [.gap ⟨← markerAnchorChecked left (removed ++ right), true⟩]
    else return []

def sweepChecked (passed rest : List Piece) : List Exclusion → Except Fault (List Token)
  | [] => .ok (rest.map (·.2))
  | exclusion :: exclusions =>
    let keepHidden := !exclusion.isCaret
    let kept := rest.takeWhile (isBefore exclusion.start keepHidden)
    let passed := kept.reverse ++ passed
    let rest := rest.dropWhile (isBefore exclusion.start keepHidden)
    if exclusion.isCaret then do
      let anchor ← markerAnchorChecked passed rest
      let after ← sweepChecked passed rest exclusions
      return kept.map (·.2) ++ .gap ⟨anchor, true⟩ :: after
    else do
      let removed := rest.takeWhile (·.1 < exclusion.stop)
      let right := rest.dropWhile (·.1 < exclusion.stop)
      let gap ← replacementChecked exclusion.unknown passed removed right
      let after ← sweepChecked (removed.reverse ++ passed) right exclusions
      return kept.map (·.2) ++ gap ++ after

def applyAllChecked (tokens : List Token) (exclusions : List Exclusion) : Except Fault (List Token) :=
  let active := exclusions.filter isActive
  if active.isEmpty then .ok tokens
  else do
    let pieces ← Token.splitChecked (cuts active) tokens
    Token.normalizeChecked (← sweepChecked [] pieces active)

theorem markerAnchorChecked_eq (left right : List Piece) :
    markerAnchorChecked left right = markerAnchor left right := by
  unfold markerAnchorChecked markerAnchor
  cases left.findSome? (·.2.span?) with
  | some span => exact Span.point_stop span
  | none =>
      cases right.findSome? (·.2.span?) with
      | some span => exact Span.point_start span
      | none => rfl

/-- No gap is refused that replaces hidden pieces. -/
theorem replacementChecked_eq (unknown : Bool) (left removed right : List Piece) :
    replacementChecked unknown left removed right = replacement unknown left removed right := by
  unfold replacementChecked replacement
  rw [Span.hullAllChecked?_eq]
  cases Span.hullAll? (removed.filterMap (·.2.span?)) with
  | some anchor => rfl
  | none =>
      rw [← markerAnchorChecked_eq]
      rfl

/-- Exclusions fail by a missing anchor or not at all, whether spans are checked or not. -/
theorem sweepChecked_eq (passed rest : List Piece) (exclusions : List Exclusion) :
    sweepChecked passed rest exclusions = sweep passed rest exclusions := by
  induction exclusions generalizing passed rest with
  | nil => rfl
  | cons e later ih => simp only [sweepChecked, sweep, markerAnchorChecked_eq, replacementChecked_eq, ih]

theorem applyAllChecked_eq (tokens : List Token) (exclusions : List Exclusion) :
    applyAllChecked tokens exclusions = applyAll tokens exclusions := by
  simp only [applyAllChecked, applyAll, Token.splitChecked_eq, sweepChecked_eq,
    Token.normalizeChecked_eq, bind, Except.bind, pure, Except.pure]

end Exclusion

namespace View

def excludeAllChecked (view : View) (exclusions : List Exclusion) : Except Fault (List Token) := do
  Exclusion.validate exclusions view.length
  let tokens ← Exclusion.applyAllChecked view.tokens exclusions
  if tokens = view.tokens then return view.tokens
  match Token.sources tokens with
  | [_] => Token.normalizeChecked tokens
  | sources => .error (.notOneSource sources)

/-- No check on the way refuses anything. -/
theorem excludeAllChecked_eq (view : View) (exclusions : List Exclusion) :
    view.excludeAllChecked exclusions = (view.excludeAll exclusions).map (·.tokens) := by
  unfold excludeAllChecked excludeAll
  rw [Exclusion.applyAllChecked_eq]
  cases Exclusion.validate exclusions view.length with
  | error fault => rfl
  | ok =>
      cases Exclusion.applyAll view.tokens exclusions with
      | error fault => rfl
      | ok tokens =>
          simp only [bind, Except.bind, pure, Except.pure, Token.normalizeChecked_eq]
          split
          · rfl
          · unfold ofTokens
            split
            · next source hOne =>
                split
                · rfl
                · next hSeveral => exact absurd hOne (hSeveral source)
            · next hSeveral =>
                split
                · next source hOne => exact absurd hOne (hSeveral source)
                · rfl

end View
end SourceView
