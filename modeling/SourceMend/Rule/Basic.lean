import SourceMend.Glob
import SourceMend.Rule.Template
import SourceMend.Scope.Map
import SourceMend.Severity

/-!
Rules: a pattern, a replacement template and a scope guard. A rule without a replacement only
detects. An override is a replacement of its own for some files or some captured texts.
-/
namespace SourceMend

/-- Where in code a rule may fire. -/
inductive ScopeGuard where
  /-- Anywhere in code. -/
  | code
  /-- Directly inside the body of an interface, type literal, enum or class. -/
  | typeBody
  /-- Directly inside the parameters of a function or method. -/
  | paramList
  /-- Either of the two. -/
  | signature
  deriving DecidableEq, Repr, Inhabited

namespace ScopeGuard

def name : ScopeGuard → String
  | .code => "code"
  | .typeBody => "type-body"
  | .paramList => "param-list"
  | .signature => "signature"

def ofName? : String → Option ScopeGuard
  | "code" => some .code
  | "type-body" => some .typeBody
  | "param-list" => some .paramList
  | "signature" => some .signature
  | _ => none

def admits (g : ScopeGuard) (frame : Option FrameKind) : Bool :=
  match g with
  | .code => true
  | .typeBody => frame.any FrameKind.isDeclarationBody
  | .paramList => frame = some .paramList
  | .signature => frame.any fun k => k.isDeclarationBody || k = .paramList

end ScopeGuard

/-- A replacement that wins over the rule's own where it holds. -/
structure Override where
  path : Option Glob := none
  capture : Option CaptureRef := none
  equals : Option String := none
  replacement : String
  deriving DecidableEq, Repr, Inhabited

structure Example where
  input : String
  expected : String
  deriving DecidableEq, Repr, Inhabited

structure Rule where
  id : String
  category : String
  description : Option String := none
  pattern : Pattern
  replacement : Option String := none
  guard : ScopeGuard := .code
  severity : Severity := .warn
  idempotent : Bool := true
  enabled : Bool := true
  examples : List Example := []
  overrides : List Override := []
  deriving Repr, Inhabited

/-- The file a text belongs to, as far as rules depend on it. -/
structure Context where
  path : String
  dialect : Dialect
  deriving DecidableEq, Repr, Inhabited

def Context.ofPath (path : String) : Context := ⟨path, Dialect.ofPath path⟩

/-- The context in which examples are tried. -/
def Context.bare : Context := ⟨"", .script⟩

namespace Rule

def isFix (r : Rule) : Bool := r.replacement.isSome

/-- The group whose start is held against the guard in place of the start of the match. -/
def anchorName : String := "at"

def anchor? (r : Rule) : Option Nat := r.pattern.groupNames.findIdx? (· = some anchorName)

/-- The replacements of the rule, its own first. -/
def templates (r : Rule) : List String := r.replacement.toList ++ r.overrides.map (·.replacement)

/-- The texts that the templates without references insert. -/
def literalOutputs (r : Rule) : List Text :=
  ((r.templates.map String.toList).filter fun t => (Template.refs t).isEmpty).map
    Template.literalText

/-- Whether two rules with one id may stand for each other. -/
def sameDefinition (r s : Rule) : Bool :=
  r.id = s.id && r.category = s.category && r.pattern.source = s.pattern.source &&
    r.replacement = s.replacement && r.guard = s.guard && r.severity = s.severity &&
    r.enabled = s.enabled

end Rule
end SourceMend
