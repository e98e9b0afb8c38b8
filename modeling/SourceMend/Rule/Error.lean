import SourceMend.Glob
import SourceMend.Pattern.Flags
import SourceMend.Text.Quoted

/-! What can be wrong with a rule, a rule set or a rule file. -/
namespace SourceMend

inductive RuleError where
  | invalidPattern (rule : String) (cause : Pattern.Error)
  | unknownCapture (rule reference : String)
  | selfMatchingReplacement (rule replacement : String)
  | exampleMismatch (rule : String) (index : Nat) (expected actual : Text)
  | notIdempotent (rule : String) (index : Nat) (actual : Text)
  | duplicateRule (rule : String)
  | unknownRule (rule context : String)
  | invalidGlob (rule glob : String) (cause : Glob.Error)
  | cyclicTrigger (cycle : List String)
  | unreadable (path cause : String)
  | malformed (origin : String)
  deriving DecidableEq, Repr, Inhabited

namespace RuleError

def message : RuleError → String
  | .invalidPattern rule _ => s!"rule `{rule}`: invalid pattern"
  | .unknownCapture rule reference =>
    s!"rule `{rule}`: replacement references capture `{reference}` " ++
      "which the pattern does not define"
  | .selfMatchingReplacement rule replacement =>
    s!"rule `{rule}`: literal replacement `{replacement}` is matched by the rule's own pattern"
  | .exampleMismatch rule index expected actual =>
    s!"rule `{rule}`: example {index} produced {actual.quoted}, expected {expected.quoted}"
  | .notIdempotent rule index actual =>
    s!"rule `{rule}`: output of example {index} " ++
      s!"is rewritten again by the same rule ({actual.quoted})"
  | .duplicateRule rule => s!"rule `{rule}` is declared twice with different definitions"
  | .unknownRule rule context => s!"unknown rule `{rule}` referenced by {context}"
  | .invalidGlob rule glob cause =>
    s!"rule `{rule}`: invalid override path glob `{glob}`: {cause.message}"
  | .cyclicTrigger cycle => "rules re-enable each other: " ++ String.intercalate " -> " cycle
  | .unreadable path cause => s!"read rules {path}: {cause}"
  | .malformed origin => s!"parse rules {origin}"

/-- The offending rule, when the error concerns a single one. -/
def rule? : RuleError → Option String
  | .invalidPattern rule _ | .unknownCapture rule _ | .selfMatchingReplacement rule _
  | .exampleMismatch rule _ _ _ | .notIdempotent rule _ _ | .duplicateRule rule
  | .unknownRule rule _ | .invalidGlob rule _ _ => some rule
  | .cyclicTrigger _ | .unreadable _ _ | .malformed _ => none

end RuleError
end SourceMend
