import SourceMend.Disk.Basic
import SourceMend.Settings.Basic
import SourceMend.Toml.Fields
import SourceMend.Toml.Reader

/-!
The configuration file, and how it meets the command line: lists of the command line come behind
those of the file, single values of the command line win.
-/
namespace SourceMend

open Toml

structure RunSection where
  maxPasses : Option UInt32 := none
  extensions : List String := []
  exclude : List String := []
  defaultExcludes : Option Bool := none
  jobs : Option UInt64 := none
  timeoutSecs : Option UInt64 := none
  commitNonConverged : Option Bool := none
  deriving DecidableEq, Repr, Inhabited

structure RulesSection where
  builtin : Option Bool := none
  files : List String := []
  enable : List String := []
  disable : List String := []
  deriving DecidableEq, Repr, Inhabited

structure Config where
  run : RunSection := {}
  rules : RulesSection := {}
  overrides : List OverrideSetting := []
  deriving DecidableEq, Repr, Inhabited

def RunSection.ofToml? (v : Toml) : Option RunSection := do
  let f ← Fields.of?
    ["max_passes", "extensions", "exclude", "default_excludes", "jobs", "timeout_secs",
      "commit_non_converged"] v
  return {
    maxPasses := ← f.optional "max_passes" asUInt32
    extensions := ← f.withDefault "extensions" [] (asList asString)
    exclude := ← f.withDefault "exclude" [] (asList asString)
    defaultExcludes := ← f.optional "default_excludes" asBool
    jobs := ← f.optional "jobs" asUInt64
    timeoutSecs := ← f.optional "timeout_secs" asUInt64
    commitNonConverged := ← f.optional "commit_non_converged" asBool }

def RulesSection.ofToml? (v : Toml) : Option RulesSection := do
  let f ← Fields.of? ["builtin", "files", "enable", "disable"] v
  return {
    builtin := ← f.optional "builtin" asBool
    files := ← f.withDefault "files" [] (asList asString)
    enable := ← f.withDefault "enable" [] (asList asString)
    disable := ← f.withDefault "disable" [] (asList asString) }

def OverrideSetting.ofToml? (v : Toml) : Option OverrideSetting := do
  let f ← Fields.of? ["rule", "path", "capture", "equals", "replacement"] v
  return {
    rule := ← f.required "rule" asString
    spec := {
      path := ← f.optional "path" asString
      capture := ← f.optional "capture" asString
      equals := ← f.optional "equals" asString
      replacement := ← f.required "replacement" asString } }

/-- Why there is no configuration. -/
inductive ConfigError where
  | unreadable (path : String)
  | malformed (path : String)
  deriving DecidableEq, Repr, Inhabited

def ConfigError.message : ConfigError → String
  | .unreadable path => s!"read config file {path}"
  | .malformed path => s!"parse config file {path}"

/-- What the command line says about a run. -/
structure RunArgs where
  roots : List String := []
  maxPasses : Option UInt32 := none
  extensions : List String := []
  exclude : List String := []
  noDefaultExcludes : Bool := false
  dryRun : Bool := false
  jobs : Option UInt64 := none
  timeoutSecs : Option UInt64 := none
  commitNonConverged : Bool := false
  ruleFiles : List String := []
  noBuiltinRules : Bool := false
  enable : List String := []
  disable : List String := []
  deriving DecidableEq, Repr, Inhabited

namespace Config

def ofToml? (v : Toml) : Option Config := do
  let f ← Fields.of? ["run", "rules", "override"] v
  return {
    run := ← f.withDefault "run" {} RunSection.ofToml?
    rules := ← f.withDefault "rules" {} RulesSection.ofToml?
    overrides := ← f.withDefault "override" [] (asList OverrideSetting.ofToml?) }

def parse? (text : Text) : Option Config := (Toml.parse? text).bind ofToml?

def fileName : String := "syntaxfix.toml"

/-- The configuration file of a root: the one in it, or beside it when it is a file. -/
def discover? (d : Disk) (root : String) : Option String :=
  let folder :=
    if d.isFile root then (Path.parent? root.toList).getD ".".toList else root.toList
  let path := String.ofList (Path.join folder fileName.toList)
  if d.isFile path then some path else none

/-- Lets relative rule files start from `folder`. -/
def resolve (c : Config) (folder : Text) : Config :=
  let files := c.rules.files.map fun f => String.ofList (Path.join folder f.toList)
  { c with rules := { c.rules with files } }

def load (d : Disk) (path : String) : Except ConfigError Config :=
  match d.readText path with
  | .error _ => .error (.unreadable path)
  | .ok text =>
    match parse? text with
    | none => .error (.malformed path)
    | some c =>
      match Path.folder? path.toList with
      | some folder => .ok (c.resolve folder)
      | none => .ok c

/-- The given file, or the one that belongs to the root, or nothing but defaults. -/
def loadOrDefault (d : Disk) (explicit : Option String) (root : String) :
    Except ConfigError Config :=
  match explicit.or (discover? d root) with
  | some path => load d path
  | none => .ok {}

/-- Puts the items behind a list that it does not have yet. -/
def extendBy (same : String → String → Bool) (base extra : List String) : List String :=
  extra.foldl (fun done s => if done.any (same s) then done else done ++ [s]) base

def extend (base extra : List String) : List String := extendBy (· = ·) base extra

/-- Paths are the same when their steps are. -/
def extendPaths (base extra : List String) : List String :=
  extendBy (fun a b => Path.steps a.toList = Path.steps b.toList) base extra

def mergeSettings (run : RunSection) (args : RunArgs) : Settings where
  roots := args.roots
  extensions :=
    if !args.extensions.isEmpty then args.extensions
    else if !run.extensions.isEmpty then run.extensions
    else defaultExtensions
  exclude := extend run.exclude args.exclude
  defaultExcludes := !args.noDefaultExcludes && run.defaultExcludes.getD true
  maxPasses := (args.maxPasses.or run.maxPasses).getD defaultMaxPasses
  stalled :=
    if args.commitNonConverged || run.commitNonConverged.getD false then .commitLastPass
    else .discard
  dryRun := args.dryRun
  includePatches := args.dryRun
  jobs := args.jobs.or run.jobs
  timeoutSecs := args.timeoutSecs.or run.timeoutSecs

def mergeSources (c : Config) (args : RunArgs) : RuleSources where
  builtin := !args.noBuiltinRules && c.rules.builtin.getD true
  files := extendPaths c.rules.files args.ruleFiles
  enable := extend c.rules.enable args.enable
  disable := extend c.rules.disable args.disable
  overrides := c.overrides

def merge (c : Config) (args : RunArgs) : Settings × RuleSources :=
  (mergeSettings c.run args, c.mergeSources args)

end Config
end SourceMend
