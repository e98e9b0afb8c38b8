import SourceMend.Finding
import SourceMend.RuleSet.Basic

/-!
Validation: the patterns of all rules over a finished text. A match that its rule could fix but
did not is a failed fix; other matches in code are residual. Matches in literals do not count, nor
do matches of a detecting rule outside its guard.
-/
namespace SourceMend

namespace Rule

def classify (r : Rule) (p : Placement) : Option (FindingClass × Severity) :=
  match p, r.isFix with
  | .literal, _ => none
  | .admitted, true => some (.fixFailed, .error)
  | .outOfScope, true => some (.residual, r.severity)
  | .admitted, false => some (.residual, r.severity)
  | .outOfScope, false => none

def findingMessage (r : Rule) (c : FindingClass) : Option String :=
  match c with
  | .fixFailed => some s!"`{r.id}` still matches inside its {r.guard.name} scope"
  | .residual => r.description

end Rule

def excerptLimit : Nat := 80

/-- The first line without its line end. -/
def firstLine (t : Text) : Text :=
  let line := t.takeWhile (· ≠ '\n')
  if t.contains '\n' ∧ line.getLast? = some '\r' then line.dropLast else line

/-- A short text is quoted whole; otherwise the start of its first line and an ellipsis. -/
def excerpt (t : Text) : Text :=
  let line := firstLine t
  if line.length ≤ excerptLimit ∧ line.length = t.length then line
  else line.take excerptLimit ++ ['…']

namespace RuleSet

def siteFinding? (path : String) (text : Text) (r : Rule) (site : MatchSite) : Option Finding :=
  (r.classify site.placement).map fun (cls, severity) =>
    { path
      ruleId := r.id
      category := r.category
      kind := cls
      severity
      location := Location.after (Text.takeBytes site.start text)
      excerpt := String.ofList
        (excerpt (Text.takeBytes (site.stop - site.start) (Text.dropBytes site.start text)))
      message := r.findingMessage cls }

/-- The findings of one file, by place and then by rule. A rule that matches nowhere is passed
over. -/
def validate (s : RuleSet) (path : String) (text : Text) (d : Dialect) : List Finding :=
  let scope := ScopeMap.scan text d
  let found := s.rules.flatMap fun r =>
    if r.pattern.isMatch text then (r.matchSites text scope).filterMap (siteFinding? path text r)
    else []
  found.mergeSort Finding.notAfter

end RuleSet
end SourceMend
