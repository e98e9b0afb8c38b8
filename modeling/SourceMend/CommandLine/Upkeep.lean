import SourceMend.CommandLine.Options
import SourceMend.CommandLine.Outcome
import SourceMend.Report.Basic
import SourceMend.Settings.Rules

/-!
Commands for those who look after rules: the names of the schemas, the catalog, and a check of
rule files. They exit with 1 when they fail and with 2 when they are misused.
-/
namespace SourceMend.CommandLine.Upkeep

inductive Task where
  | printSchemas
  | printCatalog (out : Option String)
  | checkRules (files : List String) (builtin : Bool)
  deriving DecidableEq, Repr, Inhabited

/-- The arguments of a task behind its name. -/
def Task.read (name : String) (args : List String) : Except Stop Task :=
  match name with
  | "print-schemas" =>
    (parse { options := [], operands := false } args).map fun _ => .printSchemas
  | "print-catalog" =>
    let out : OptionSpec := { name := "out", takes := .oneValue }
    (parse { options := [out], operands := false } args).map fun p => .printCatalog (p.get? "out")
  | "check-rules" =>
    let noBuiltin : OptionSpec := { name := "no-builtin", takes := .nothing }
    (parse { options := [noBuiltin], operands := true } args).map fun p =>
      .checkRules p.operands (!p.has "no-builtin")
  | "help" | "--help" | "-h" => .error .help
  | _ => .error .misuse

def usage : String := "Usage: print-schemas | print-catalog [--out FILE] | " ++
  "check-rules [--no-builtin] [FILES]...\n"

def rulesSchemaName : String := "syntaxfix.rules.v1"

def verify (d : Disk) (files : List String) (builtin : Bool) : Except RuleError String := do
  let rules ← RuleSources.load d { builtin, files }
  return s!"ok: rule set version {rules.version.toNat} ({rules.rules.length} rules, " ++
    s!"{rules.categories.length} categories)\n"

def Task.run (d : Disk) : Task → Outcome
  | .printSchemas => { stdout := s!"{Report.schemaName}\n{rulesSchemaName}\n", disk := d }
  | .printCatalog none => { stdout := String.ofList Catalog.text, disk := d }
  | .printCatalog (some path) =>
    match d.writeFile path (String.ofList Catalog.text).toUTF8 with
    | .ok d' => { stdout := s!"wrote {path}\n", disk := d' }
    | .error _ => { exitCode := 1, problem := some s!"write {path}", disk := d }
  | .checkRules files builtin =>
    match verify d files builtin with
    | .ok stdout => { stdout, disk := d }
    | .error e => { exitCode := 1, problem := some e.message, disk := d }

def run (args : List String) (d : Disk) : Outcome :=
  match args with
  | [] => { exitCode := 2, problem := some usage, disk := d }
  | name :: rest =>
    match Task.read name rest with
    | .ok task => task.run d
    | .error .help => { stdout := usage, disk := d }
    | .error _ => { exitCode := 2, problem := some usage, disk := d }

end SourceMend.CommandLine.Upkeep
