import SourceMend.Rule.Spec
import SourceMend.Toml.Fields
import SourceMend.Toml.Reader

/-! Rule files in TOML. -/
namespace SourceMend

open Toml

def Example.ofToml? (v : Toml) : Option Example := do
  let f ← Fields.of? ["input", "expected"] v
  return {
    input := ← f.required "input" asString
    expected := ← f.required "expected" asString }

def OverrideSpec.ofToml? (v : Toml) : Option OverrideSpec := do
  let f ← Fields.of? ["path", "capture", "equals", "replacement"] v
  return {
    path := ← f.optional "path" asString
    capture := ← f.optional "capture" asString
    equals := ← f.optional "equals" asString
    replacement := ← f.required "replacement" asString }

def RuleSpec.ofToml? (v : Toml) : Option RuleSpec := do
  let f ← Fields.of?
    ["id", "category", "description", "pattern", "replacement", "guard", "severity", "enabled",
      "idempotent", "example", "override"] v
  return {
    id := ← f.required "id" asString
    category := ← f.required "category" asString
    description := ← f.optional "description" asString
    pattern := ← f.required "pattern" asString
    replacement := ← f.optional "replacement" asString
    guard := ← f.withDefault "guard" .code (asName ScopeGuard.ofName?)
    severity := ← f.optional "severity" (asName Severity.ofName?)
    enabled := ← f.withDefault "enabled" true asBool
    idempotent := ← f.withDefault "idempotent" true asBool
    examples := ← f.withDefault "example" [] (asList Example.ofToml?)
    overrides := ← f.withDefault "override" [] (asList OverrideSpec.ofToml?) }

namespace RuleFile

def ofToml? (v : Toml) : Option RuleFile := do
  let f ← Fields.of? ["schema", "version", "rule"] v
  return {
    schema := ← f.optional "schema" asString
    version := ← f.withDefault "version" 1 asUInt32
    rules := ← f.withDefault "rule" [] (asList RuleSpec.ofToml?) }

/-- Reads the text of a rule file; `origin` says in an error where it came from. -/
def parse (text : Text) (origin : String) : Except RuleError RuleFile :=
  match (Toml.parse? text).bind ofToml? with
  | some f => .ok f
  | none => .error (.malformed origin)

end RuleFile
end SourceMend
