import SourceView.View

/-! Joining views of one source and one domain, with or without separators between them. -/
namespace SourceView.View

def commonDomain (views : List View) : Except Fault Domain :=
  match Domain.all.filter fun domain => views.any (·.domain == domain) with
  | [domain] => .ok domain
  | domains => .error (.mixedDomains (domains.map (·.name)))

/-- The views one behind the other. A single view is returned as it is. -/
def join (views : List View) : Except Fault View :=
  match views with
  | [] => .error .nothingToJoin
  | [view] => .ok view
  | _ => do ofTokens (← commonDomain views) (views.flatMap (·.tokens))

/-- Whether a separator belongs between two texts: both show something, and neither of the
characters that face each other is a blank. -/
def needsSeparator (last? first? : Option Char) : Bool :=
  match last?, first? with
  | some last, some first => !Text.isBlank last && !Text.isBlank first
  | _, _ => false

/-- The tokens of the views with separators between them. `last?` is the last character that the
views in front show. -/
def spacedTokens (separator : Separator) (last? : Option Char) : List View → List Token
  | [] => []
  | view :: rest =>
    (if needsSeparator last? view.text.head? then [.separator separator] else [])
      ++ view.tokens ++ spacedTokens separator (view.text.getLast?.or last?) rest

/-- The views one behind the other, with a separator wherever none of the two texts that meet has a
blank there. There is no view when there is nothing to join, and a single view is returned as it
is, whatever the separator. -/
def joinWithBlank (views : List View) (blank : List Char := [' ']) :
    Except Fault (Option View) :=
  match views with
  | [] => .ok none
  | [view] => .ok (some view)
  | _ => do
    let domain ← commonDomain views
    let separator ← Separator.make blank
    return some (← ofTokens domain (spacedTokens separator none views))

end SourceView.View
