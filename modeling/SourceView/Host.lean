import SourceView.Encoding.Utf8
import SourceView.Storage

/-! Hosts: what a run sees of the computer, and the lines that it leaves there. Messages go to the
error stream in use. A stream that is no longer in use keeps its number, so that whoever holds on to
it still writes to the same one. -/
namespace SourceView

/-- The surroundings of a run. -/
structure Host where
  home : Path
  /-- The folder for logs that the environment names, empty when it names none. -/
  logFolder : String := ""
  /-- The time that is written in front of records. -/
  time : String := ""
  storage : Storage := {}
  /-- The number of the error stream in use. -/
  stream : Nat := 0
  /-- All lines printed so far, the first one first, each with its stream. -/
  printed : List (Nat × String) := []

namespace Host

def print (host : Host) (stream : Nat) (line : String) : Host :=
  { host with printed := host.printed ++ [(stream, line)] }

def complain (host : Host) (line : String) : Host := host.print host.stream line

def said (host : Host) (stream : Nat) : String :=
  String.join ((host.printed.filter (·.1 == stream)).map (·.2 ++ "\n"))

/-- A line that was printed is at the end of its stream. -/
theorem said_print (host : Host) (stream : Nat) (line : String) :
    (host.print stream line).said stream = host.said stream ++ line ++ "\n" := by
  simp [said, print, String.join, List.foldl_append, String.append_assoc]

/-- Adds a line at the end of a file. A line for which the file cannot be used is lost. -/
def write (host : Host) (path : Path) (line : String) : Host :=
  match host.storage.append path (Encoding.Utf8.encode (line ++ "\n").toList) with
  | .ok storage => { host with storage }
  | .error _ => host

def useStream (host : Host) (stream : Nat) : Host := { host with stream }

end Host
end SourceView
