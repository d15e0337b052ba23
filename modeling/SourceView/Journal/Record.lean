import SourceView.Text.Aligned

/-! Records: what the program notes about its own work, each under the name of the part that notes
it and with a level that says how grave it is. Names are read from the left, a dot dividing them. -/
namespace SourceView

/-- A note of some part of the program. -/
structure Record where
  name : String
  level : Int
  message : String
  deriving DecidableEq

namespace Record

/-- The level of notes that are of use only while looking for a mistake. -/
def debugLevel : Int := 10

/-- The level of notes on the usual course of things. -/
def infoLevel : Int := 20

/-- The level of notes on what should not have happened. -/
def warningLevel : Int := 30

def levelNames : List (Int × String) :=
  [(0, "NOTSET"), (debugLevel, "DEBUG"), (infoLevel, "INFO"), (warningLevel, "WARNING"),
    (40, "ERROR"), (50, "CRITICAL")]

def levelText (level : Int) : String :=
  (levelNames.lookup level).getD ("Level " ++ toString level)

/-- A note for those who look for a mistake. -/
def debug (name message : String) : Record := ⟨name, debugLevel, message⟩

/-- The line for a record: the time, the level in a column of eight, the name, and the message. -/
def line (time : String) (record : Record) : String :=
  time ++ " | " ++ Text.alignedLeft 8 (levelText record.level) ++ " | " ++ record.name ++ " | "
    ++ record.message

def packageName : String := "textcontent"

/-- Whether a part with this name belongs to the program. -/
def isOwnName (name : String) : Bool :=
  name == packageName || name.startsWith (packageName ++ ".")

example : levelText 25 = "Level 25" := by decide
example : isOwnName "textcontents" = false := by decide +kernel

end Record
end SourceView
