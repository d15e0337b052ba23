import SourceView.Path

/-! Storage: which folders and files there are. The root and the folder in which the program runs
are always there. Everything else is kept under a path without steps back. -/
namespace SourceView

inductive Item
  | folder
  | file (bytes : List UInt8)
  deriving DecidableEq

/-- Folders and files by path. Of several entries for a path the first one counts. -/
structure Storage where
  entries : List (Path × Item) := []

namespace Storage

/-- What stands at a path without steps back. -/
def item? (storage : Storage) (place : Path) : Option Item :=
  if place.steps.isEmpty then some .folder else storage.entries.lookup place

def put (storage : Storage) (place : Path) (item : Item) : Storage :=
  ⟨(place, item) :: storage.entries⟩

/-- What was put at a path is found there, unless it leads nowhere. -/
theorem item?_put {storage : Storage} {place : Path} {item : Item} (h : place.steps ≠ []) :
    (storage.put place item).item? place = some item := by
  simp [item?, put, h]

/-- The path without steps back to where the given steps lead from a folder. All but the last of
them have to lead to folders. -/
def follow (storage : Storage) (path here : Path) : List String → Except Fault Path
  | [] => .ok here
  | step :: rest =>
    if step == Path.backStep then follow storage path here.back rest
    else if rest.isEmpty then .ok (here.child step)
    else
      match storage.item? (here.child step) with
      | some .folder => follow storage path (here.child step) rest
      | some (.file _) => .error (.fileOnTheWay path.text)
      | none => .error (.fileMissing path.text)

/-- The path without steps back that leads where a path leads. -/
def place (storage : Storage) (path : Path) : Except Fault Path :=
  storage.follow path { rooted := path.rooted } path.steps

def read (storage : Storage) (path : Path) : Except Fault (List UInt8) := do
  match storage.item? (← storage.place path) with
  | some (.file bytes) => return bytes
  | some .folder => throw (.folderInPlace path.text)
  | none => throw (.fileMissing path.text)

/-- Makes those folders that are missing on the given steps from a folder. Where a file is in the
way, the folders that were made in front of it stay. -/
def makeSteps (storage : Storage) (path here : Path) :
    List String → Storage × Except Fault Unit
  | [] => (storage, .ok ())
  | step :: rest =>
    if step == Path.backStep then makeSteps storage path here.back rest
    else
      match storage.item? (here.child step) with
      | some .folder => makeSteps storage path (here.child step) rest
      | some (.file _) =>
        (storage, .error (if rest.isEmpty then .fileInPlace path.text else .fileOnTheWay path.text))
      | none => makeSteps (storage.put (here.child step) .folder) path (here.child step) rest

/-- Makes a folder and those around it, as far as they are missing. -/
def makeFolder (storage : Storage) (path : Path) : Storage × Except Fault Unit :=
  storage.makeSteps path { rooted := path.rooted } path.steps

def append (storage : Storage) (path : Path) (bytes : List UInt8) : Except Fault Storage := do
  let place ← storage.place path
  match storage.item? place with
  | some (.file old) => return storage.put place (.file (old ++ bytes))
  | some .folder => throw (.folderInPlace path.text)
  | none => return storage.put place (.file bytes)

end Storage
end SourceView
