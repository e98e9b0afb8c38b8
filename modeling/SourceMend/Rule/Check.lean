import SourceMend.Rule.Apply
import SourceMend.Rule.Error

/-!
Checks on a single rule: its templates name only groups of its pattern, a template without
references inserts nothing that the pattern matches, and the examples come out as promised.
-/
namespace SourceMend

namespace Template

/-- Checks a template of the rule `id` against its pattern. -/
def check (id : String) (p : Pattern) (template : String) : Except RuleError Unit :=
  let found := refs template.toList
  match found.find? (!·.existsIn p) with
  | some missing => .error (.unknownCapture id missing.display)
  | none =>
    let literal := literalText template.toList
    if found.isEmpty && p.isMatch literal then
      .error (.selfMatchingReplacement id (String.ofList literal))
    else .ok ()

end Template

namespace Rule

/-- Attaches an override behind those already there. -/
def withOverride (r : Rule) (o : Override) : Except RuleError Rule :=
  match o.capture.filter (!·.existsIn r.pattern) with
  | some ref => .error (.unknownCapture r.id ref.display)
  | none => do
    Template.check r.id r.pattern o.replacement
    return { r with overrides := r.overrides ++ [o] }

/-- Tries the example with number `index`. -/
def checkExample (r : Rule) (index : Nat) (e : Example) : Except RuleError Unit :=
  let out := r.apply e.input.toList Context.bare
  let again := r.apply e.expected.toList Context.bare
  if out.text ≠ e.expected.toList then
    .error (.exampleMismatch r.id index e.expected.toList out.text)
  else if r.idempotent && again.changed then .error (.notIdempotent r.id index again.text)
  else .ok ()

def checkExamplesFrom (r : Rule) : Nat → List Example → Except RuleError Unit
  | _, [] => .ok ()
  | i, e :: es => do
    r.checkExample i e
    r.checkExamplesFrom (i + 1) es

/-- Tries all examples; a rule that only detects has nothing to try. -/
def checkExamples (r : Rule) : Except RuleError Unit :=
  if r.isFix then r.checkExamplesFrom 0 r.examples else .ok ()

end Rule
end SourceMend
