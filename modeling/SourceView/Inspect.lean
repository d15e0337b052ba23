import SourceView.Document
import SourceView.Inspect.OffsetTable
import SourceView.Inspect.Options
import SourceView.Journal
import SourceView.Recipe
import SourceView.View.Unknown

/-! Inspections. An inspection shows a text with parts of it hidden and its unknown offsets marked,
followed by the offset table if that is wanted. What it does on the way goes to the journal. -/
namespace SourceView.Inspect

inductive Ending
  /-- Its arguments were not those of an inspection. -/
  | usage (code : Nat)
  /-- It came to its end and put out a text. -/
  | finished (code : Nat) (output : String)
  deriving DecidableEq

/-- The text that is to be inspected, if there is any: the one among the options, or else that of a
file, or else the input. Only the loading of a file is noted. -/
def load (options : Options) (host : Host) (input : List Char) :
    Except Fault (Option Source × List Record) := do
  if !options.text.isEmpty then return (some ⟨"<text>", options.text.toList⟩, [])
  match options.file? with
  | none => return (if input.isEmpty then none else some ⟨"<stdin>", input⟩, [])
  | some text =>
    let path := Path.ofText text
    let source ← Document.source path.text (← host.storage.read path)
    let message := "Loaded source " ++ path.text ++ " (" ++ toString source.text.length ++ " chars)"
    return (some source, [.debug "textcontent.core.spans" message])

/-- The files and folders that decide how a run goes, apart from those on the way to them. -/
def paths (options : Options) (host : Host) : List Path :=
  let log? := if options.verbose then (Journal.folder host {}).toOption else none
  (options.file?.map Path.ofText).toList ++ (log?.map (·.child Journal.fileName)).toList

def readsInput (options : Options) : Bool := options.text.isEmpty && options.file?.isNone

/-- What the options hide and mark. -/
def recipe (options : Options) : Except Fault Recipe := do
  let excluded ← options.excluded.mapM fun pattern => Pattern.compile pattern.toList
  let unknown ← options.unknown.mapM fun pattern => Pattern.compile pattern.toList
  return { excluded, unknown, indentChars := options.indentChars.toList }

/-- What is noted when exclusions are applied to a view of a whole source. -/
def exclusionRecords (source : Source) (base : View) (exclusions : List Exclusion) : List Record :=
  let count := toString exclusions.length ++ " exclusions "
  if exclusions.isEmpty then []
  else
    [.debug "textcontent.content.builder"
        ("Builder produced " ++ count ++ "for " ++ source.wholeSpan.describe),
      .debug "textcontent.content.exclusions"
        ("Applied " ++ count ++ "over " ++ toString base.tokens.length ++ " tokens")]

/-- The view that a recipe makes of a source, and what is noted on the way. -/
def build (recipe : Recipe) (source : Source) : Except Fault (View × List Record) := do
  let base ← View.ofSource source
  let exclusions := recipe.exclusions base.text
  return (← base.excludeAll exclusions, exclusionRecords source base exclusions)

/-- The view is the one that the recipe builds. -/
theorem map_fst_build (recipe : Recipe) (source : Source) :
    (·.1) <$> build recipe source = recipe.build source := by
  simp only [build, Recipe.build, Recipe.chosenSpan, Provider.whole?, View.ofSource,
    Source.span_default, Option.or, bind, Except.bind, pure, Except.pure]
  cases View.ofSpan source source.wholeSpan with
  | error fault => rfl
  | ok base =>
    cases h : base.excludeAll (recipe.exclusions base.text) <;>
      simp [h, Functor.map, Except.map]

/-- What is put out for a view. -/
def report (options : Options) (view : View) : Except Fault String := do
  let shown := String.ofList (view.render options.marker.toList)
  let table ← if options.offsets then offsetTable view else pure []
  return String.join ((shown :: table).map (· ++ "\n"))

/-- Inspects a source. Misuse that has a report is told to people and makes the run fail. -/
def examine (options : Options) (journal : Journal) (host : Host) (source : Source) :
    Host × Except Fault Ending :=
  match recipe options >>= (build · source) with
  | .ok (view, records) =>
    (journal.noteAll host records, Ending.finished 0 <$> report options view)
  | .error fault =>
    if fault.report?.isSome then (host.complain ("error: " ++ fault.line), .ok (.finished 2 ""))
    else (host, .error fault)

def perform (options : Options) (journal : Journal) (host : Host) (input : List Char) :
    Host × Except Fault Ending :=
  match load options host input with
  | .error fault => (host, .error fault)
  | .ok (source?, records) =>
    let host := journal.noteAll host records
    match source?.filter (!·.text.isEmpty) with
    | some source => examine options journal host source
    | none => (host.complain "No input text provided.", .ok (.finished 1 ""))

/-- Sets the journal up where all that is noted is to be seen. -/
def prepare (options : Options) (journal : Journal) (host : Host) :
    Journal × Host × Except Fault Unit :=
  if options.verbose then
    let (journal, host, path?) := journal.setUp host { level := Record.debugLevel }
    (journal, host, path?.map fun _ => ())
  else (journal, host, .ok ())

def run (journal : Journal) (host : Host) (arguments : List String) (input : List Char) :
    Journal × Host × Except Fault Ending :=
  match Options.read arguments with
  | .help => (journal, host, .ok (.usage 0))
  | .misuse => (journal, host, .ok (.usage 2))
  | .inspection options =>
    match prepare options journal host with
    | (journal, host, .error fault) => (journal, host, .error fault)
    | (journal, host, .ok ()) => (journal, perform options journal host input)

end SourceView.Inspect
