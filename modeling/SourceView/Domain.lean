import SourceView.Fault

/-! The domains that texts are extracted from. Views of different domains are not joined. -/
namespace SourceView

/-- The kind of text that a view shows. -/
inductive Domain
  | comments
  | documentation
  | literals
  | plainText
  deriving DecidableEq

namespace Domain

def all : List Domain := [comments, documentation, literals, plainText]

/-- The name by which a domain is chosen. -/
def name : Domain → String
  | comments => "comments"
  | documentation => "documentation"
  | literals => "literals"
  | plainText => "plain_text"

/-- The name of a domain as messages write it. -/
def label : Domain → String
  | comments => "COMMENTS"
  | documentation => "DOCUMENTATION"
  | literals => "LITERALS"
  | plainText => "PLAIN_TEXT"

def ofName (name : String) : Except Fault Domain :=
  match all.find? (·.name == name) with
  | some domain => .ok domain
  | none => .error (.unknownDomain name)

/-- Every domain is found under its name. -/
theorem ofName_name (domain : Domain) : ofName domain.name = .ok domain := by
  cases domain <;> rfl

end Domain
end SourceView
