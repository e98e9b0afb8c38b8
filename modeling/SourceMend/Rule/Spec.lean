import SourceMend.Rule.Check

/-! Rules as they are written down, before their patterns and globs are read. -/
namespace SourceMend

structure OverrideSpec where
  path : Option String := none
  /-- The name or the number of a group. -/
  capture : Option String := none
  equals : Option String := none
  replacement : String
  deriving DecidableEq, Repr, Inhabited

structure RuleSpec where
  id : String
  category : String
  description : Option String := none
  pattern : String
  /-- Absent for a rule that only detects. -/
  replacement : Option String := none
  guard : ScopeGuard := .code
  severity : Option Severity := none
  enabled : Bool := true
  idempotent : Bool := true
  examples : List Example := []
  overrides : List OverrideSpec := []
  deriving DecidableEq, Repr, Inhabited

/-- A file of rules. -/
structure RuleFile where
  schema : Option String := none
  version : UInt32 := 1
  rules : List RuleSpec := []
  deriving DecidableEq, Repr, Inhabited

namespace OverrideSpec

def compile (s : OverrideSpec) (rule : String) : Except RuleError Override := do
  let path ← match s.path with
    | none => pure none
    | some glob =>
      match Glob.parse glob with
      | .ok g => pure (some g)
      | .error cause => throw (.invalidGlob rule glob cause)
  return {
    path
    capture := s.capture.map fun raw => CaptureRef.parse raw.toList
    equals := s.equals
    replacement := s.replacement }

end OverrideSpec

namespace RuleSpec

/-- Attaches the overrides one after the other. -/
def attach (r : Rule) : List OverrideSpec → Except RuleError Rule
  | [] => .ok r
  | s :: rest => do
    let o ← s.compile r.id
    attach (← r.withOverride o) rest

def compile (s : RuleSpec) : Except RuleError Rule := do
  let pattern ← match Pattern.parse s.pattern with
    | .ok p => pure p
    | .error cause => throw (.invalidPattern s.id cause)
  match s.replacement with
  | some template => Template.check s.id pattern template
  | none => pure ()
  attach
    { id := s.id
      category := s.category
      description := s.description
      pattern
      replacement := s.replacement
      guard := s.guard
      severity := s.severity.getD .warn
      idempotent := s.idempotent
      enabled := s.enabled
      examples := s.examples }
    s.overrides

end RuleSpec

def RuleFile.compile (f : RuleFile) : Except RuleError (List Rule) := f.rules.mapM RuleSpec.compile

end SourceMend
