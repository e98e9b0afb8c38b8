import SourceMend.Rule.Spec

/-!
The written form of a rule file. Patterns and replacements stand in single quotes, because they
are full of backslashes, everything else in double quotes; what has its default value is left out.
-/
namespace SourceMend

namespace RuleFile

def escapeChar (c : Char) : Text :=
  if c = '"' ∨ c = '\\' then ['\\', c]
  else if c = '\n' then ['\\', 'n']
  else if c = '\t' then ['\\', 't']
  else if c = '\r' then ['\\', 'r']
  else [c]

def basic (s : String) : Text := '"' :: s.toList.flatMap escapeChar ++ ['"']

def verbatim (s : String) : Text := '\'' :: s.toList ++ ['\'']

/-- A line `key = value`. -/
def entry (key : String) (value : Text) : Text := key.toList ++ " = ".toList ++ value ++ ['\n']

def entry? (key : String) (value : Option Text) : Text := (value.map (entry key)).getD []

def falseOnly (b : Bool) : Option Text := if b then none else some "false".toList

def printExample (e : Example) : Text :=
  "\n[[rule.example]]\n".toList ++ entry "input" (basic e.input) ++
    entry "expected" (basic e.expected)

def printOverride (o : OverrideSpec) : Text :=
  "\n[[rule.override]]\n".toList ++ entry? "path" (o.path.map basic) ++
    entry? "capture" (o.capture.map basic) ++ entry? "equals" (o.equals.map basic) ++
    entry "replacement" (verbatim o.replacement)

def printRule (r : RuleSpec) : Text :=
  "\n[[rule]]\n".toList ++ entry "id" (basic r.id) ++ entry "category" (basic r.category) ++
    entry? "description" (r.description.map basic) ++ entry "pattern" (verbatim r.pattern) ++
    entry? "replacement" (r.replacement.map verbatim) ++
    entry? "guard" (if r.guard = .code then none else some (basic r.guard.name)) ++
    entry? "severity" (r.severity.map fun s => basic s.name) ++
    entry? "enabled" (falseOnly r.enabled) ++ entry? "idempotent" (falseOnly r.idempotent) ++
    r.examples.flatMap printExample ++ r.overrides.flatMap printOverride

def print (f : RuleFile) : Text :=
  entry? "schema" (f.schema.map basic) ++
    entry "version" (Nat.toDigits 10 f.version.toNat) ++ f.rules.flatMap printRule

end RuleFile
end SourceMend
