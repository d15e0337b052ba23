import SourceView.Host
import SourceView.Journal.Record

/-! The journal: where records go. Handlers take the records of the program, the journal's own ones
as well as those that others have attached. Setting the journal up replaces its own handlers by one
for a file and, if wanted, one for the error stream, and leaves those of others alone. A call that
does not insist finds a journal that is already set up and changes nothing. -/
namespace SourceView

/-- What a handler does with a record: it adds a line to a file or prints one on a stream. -/
inductive Sink
  | file (path : Path)
  | stream (number : Nat)
  deriving DecidableEq

/-- A handler lets those records pass that have at least its level. No two handlers of a journal
have the same number. -/
structure Handler where
  number : Nat
  sink : Sink
  level : Int
  deriving DecidableEq

/-- How the journal is to be set up. An empty folder stands for none. -/
structure Setup where
  level : Int := Record.infoLevel
  folder : String := ""
  console : Bool := true
  force : Bool := false

/-- All handlers of the program, and what the journal knows of its own. A level of zero is that of
the surroundings. -/
structure Journal where
  level : Int := 0
  attached : List Handler := []
  installed : List Handler := []
  path? : Option Path := none
  /-- The number of the next handler. -/
  next : Nat := 0

namespace Journal

def fileName : String := "textcontent.log"

/-- The steps from the home folder to the folder for logs that is used when no other one is named.
-/
def homeSteps : List String := [".textcontent", "logs"]

/-- Attaches a handler that is not the journal's own. -/
def attach (journal : Journal) (sink : Sink) (level : Int) : Journal :=
  { journal with
    attached := journal.attached ++ [⟨journal.next, sink, level⟩]
    next := journal.next + 1 }

/-- Adds a line for a record where a handler writes. -/
def deliver (record : Record) (host : Host) (handler : Handler) : Host :=
  match handler.sink with
  | .file path => host.write path (record.line host.time)
  | .stream number => host.print number (record.line host.time)

/-- The least level at which records under a name are taken. -/
def levelFor (journal : Journal) (name : String) : Int :=
  if Record.isOwnName name && journal.level != 0 then journal.level else Record.warningLevel

/-- The handlers for records under a name. -/
def handlersFor (journal : Journal) (name : String) : List Handler :=
  if Record.isOwnName name then journal.attached else []

/-- Takes a record. Without any handler for it the bare message of a warning, or of something
graver, goes to the error stream in use. -/
def note (journal : Journal) (host : Host) (record : Record) : Host :=
  if record.level ≤ 0 ∨ record.level < journal.levelFor record.name then host
  else
    match journal.handlersFor record.name with
    | [] => if record.level < Record.warningLevel then host else host.complain record.message
    | handlers => (handlers.filter (·.level ≤ record.level)).foldl (deliver record) host

def noteAll (journal : Journal) (host : Host) (records : List Record) : Host :=
  records.foldl journal.note host

/-- The folder for logs: the one that is asked for, or else the one of the environment, or else one
in the home folder. -/
def folder (host : Host) (setup : Setup) : Except Fault Path :=
  match [setup.folder, host.logFolder].find? (!·.isEmpty) with
  | some text => (Path.ofText text).expand host.home
  | none => .ok (host.home.append homeSteps)

/-- Makes the folder and the file for logs, as far as they are missing. -/
def prepare (host : Host) (setup : Setup) : Host × Except Fault Path :=
  match folder host setup with
  | .error fault => (host, .error fault)
  | .ok folder =>
    match host.storage.makeFolder folder with
    | (storage, .error fault) => ({ host with storage }, .error fault)
    | (storage, .ok ()) =>
      match storage.append (folder.child fileName) [] with
      | .error fault => ({ host with storage }, .error fault)
      | .ok storage => ({ host with storage }, .ok (folder.child fileName))

def withdraw (journal : Journal) : Journal :=
  { journal with
    attached := journal.attached.filter fun handler =>
      !journal.installed.any (·.number == handler.number)
    installed := [] }

def install (journal : Journal) (level : Int) (sinks : List Sink) : Journal :=
  let handlers := (sinks.zipIdx journal.next).map fun (sink, number) => ⟨number, sink, level⟩
  { journal with
    attached := journal.attached ++ handlers
    installed := journal.installed ++ handlers
    next := journal.next + sinks.length }

/-- Where the journal writes after a setup. -/
def sinks (host : Host) (setup : Setup) (path : Path) : List Sink :=
  .file path :: if setup.console then [.stream host.stream] else []

/-- The log file of a journal that a setup leaves as it is. -/
def kept? (journal : Journal) (setup : Setup) : Option Path :=
  if journal.installed.isEmpty || setup.force then none else journal.path?

/-- Sets the journal up and answers its log file. The journal's own handlers are taken away before
the file is made, so a setup that fails leaves the journal without any. -/
def setUp (journal : Journal) (host : Host) (setup : Setup) :
    Journal × Host × Except Fault Path :=
  match journal.kept? setup with
  | some path => (journal, host, .ok path)
  | none =>
    match prepare host setup with
    | (host, .error fault) => (journal.withdraw, host, .error fault)
    | (host, .ok path) =>
      let journal := journal.withdraw.install setup.level (sinks host setup path)
      let journal := { journal with level := setup.level, path? := some path }
      let record := Record.debug Record.packageName ("Logging to " ++ path.text)
      (journal, journal.note host record, .ok path)

end Journal
end SourceView
