import SourceView.Inspect
import Std.Time.Format

/-! The command itself. It looks at those files and folders that decide how the run goes, lets the
run take place on what it found, and then does to the computer what the run did to its host. -/
namespace SourceView.Command

/-- What really stands at a path. -/
def look (path : Path) : IO (Option Item) := do
  try
    let found ← IO.FS.realPath path.text
    if ← found.isDir then return some .folder
    return some (.file (← IO.FS.readBinFile found).toList)
  catch _ => return none

/-- The storage with what really stands on some steps from a folder. -/
def survey (storage : Storage) (here : Path) : List String → IO Storage
  | [] => return storage
  | step :: rest => do
    if step == Path.backStep then survey storage here.back rest
    else
      match ← look (here.child step) with
      | some item => survey (storage.put (here.child step) item) (here.child step) rest
      | none => return storage

/-- Makes a folder, or adds to a file what it has more than before. -/
def carryOut (before : Storage) (place : Path) : Item → IO Unit
  | .folder => IO.FS.createDirAll place.text
  | .file bytes => do
    let old := match before.item? place with
      | some (.file old) => old.length
      | _ => 0
    let handle ← IO.FS.Handle.mk place.text .append
    handle.write ⟨(bytes.drop old).toArray⟩

/-- Carries out what was put into a storage, the latest being in front. -/
def carryOutAll (before : Storage) : List (Path × Item) → IO Unit
  | [] => return
  | (place, item) :: earlier => do
    carryOutAll before earlier
    carryOut ⟨earlier ++ before.entries⟩ place item

/-- Everything that is left of a stream. -/
partial def readRest (stream : IO.FS.Stream) (text : String) : IO String := do
  let line ← stream.getLine
  if line.isEmpty then return text
  readRest stream (text ++ line)

def readInput : IO (List Char) := do
  return LineEnd.normalize (← readRest (← IO.getStdin) "").toList

/-- The host that the computer is before a run. -/
def currentHost : IO Host := do
  let home := (← IO.getEnv "HOME").getD ""
  let logFolder := (← IO.getEnv "TEXTCONTENT_LOG_DIR").getD ""
  let time := (← Std.Time.PlainDateTime.now).format "uuuu-MM-dd HH:mm:ss"
  return { home := Path.ofText home, logFolder, time }

/-- Shows how a run ended and answers its exit code. -/
def conclude (ending : Except Fault Inspect.Ending) : IO UInt32 := do
  match ending with
  | .error fault =>
    IO.eprintln fault.line
    return 1
  | .ok (.finished code output) =>
    IO.print output
    return code.toUInt32
  | .ok (.usage code) =>
    if code = 0 then IO.println Inspect.Options.usage else IO.eprintln Inspect.Options.usage
    return code.toUInt32

def run (arguments : List String) : IO UInt32 := do
  let host ← currentHost
  let (paths, readsInput) := match Inspect.Options.read arguments with
    | .inspection options => (Inspect.paths options host, Inspect.readsInput options)
    | _ => ([], false)
  let storage ← paths.foldlM
    (fun storage path => survey storage { rooted := path.rooted } path.steps) host.storage
  let input ← if readsInput then readInput else pure []
  let (_, after, ending) := Inspect.run {} { host with storage } arguments input
  carryOutAll storage (after.storage.entries.take
    (after.storage.entries.length - storage.entries.length))
  for (_, line) in after.printed do
    IO.eprintln line
  conclude ending

end SourceView.Command

def main (arguments : List String) : IO UInt32 := SourceView.Command.run arguments
