import SourceView.Fault

/-! Paths: ways to files and folders, step by step. A path starts at the root or at the folder in
which the program runs. Steps that lead nowhere, the empty one and the single dot, are not kept. -/
namespace SourceView

/-- A way to a file or folder. -/
structure Path where
  rooted : Bool := false
  steps : List String := []
  deriving DecidableEq

namespace Path

/-- The step that leads back to the folder around. -/
def backStep : String := ".."

def ofText (text : String) : Path where
  rooted := text.toList.head? == some '/'
  steps := (text.splitOn "/").filter fun step => !(step.isEmpty || step == ".")

/-- A path as it is written. The one without steps is a dot or a slash. -/
def text (path : Path) : String :=
  if path.rooted then "/" ++ "/".intercalate path.steps
  else if path.steps.isEmpty then "."
  else "/".intercalate path.steps

def child (path : Path) (name : String) : Path := { path with steps := path.steps ++ [name] }

def append (path : Path) (steps : List String) : Path := { path with steps := path.steps ++ steps }

/-- The path to the folder around. There is none around the root; a path that already leads out of
the folder in which the program runs leads one step further out. -/
def back (path : Path) : Path :=
  match path.steps.getLast? with
  | none => if path.rooted then path else path.child backStep
  | some step =>
    if step == backStep then path.child backStep else { path with steps := path.steps.dropLast }

/-- Takes a tilde as the first step for the home folder. The homes of other people, whose names
would follow the tilde, are not known. -/
def expand (path home : Path) : Except Fault Path :=
  match path.rooted, path.steps with
  | false, first :: rest =>
    if first == "~" then .ok (home.append rest)
    else if first.startsWith "~" then .error (.homeUnknown first)
    else .ok path
  | _, _ => .ok path

end Path
end SourceView
