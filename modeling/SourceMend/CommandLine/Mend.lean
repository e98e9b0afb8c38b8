import SourceMend.CommandLine.Options
import SourceMend.CommandLine.Outcome
import SourceMend.Json.Printer
import SourceMend.RuleSet.Listing
import SourceMend.Run.Artifacts
import SourceMend.Run.Basic
import SourceMend.Settings.Config
import SourceMend.Settings.Rules

/-!
The repair command. It exits with 0 after a clean run, with 1 when a file failed or kept what its
rules should have removed, and with 2 when the run did not start or its report was not written.
-/
namespace SourceMend.CommandLine.Mend

def grammar : Grammar where
  operands := true
  version := true
  options := [
    { name := "max-passes", takes := .oneValue, accepts := isBetween 1 UInt32.size },
    { name := "dry-run", takes := .nothing },
    { name := "extensions", takes := .manyValues },
    { name := "exclude", takes := .manyValues },
    { name := "no-default-excludes", takes := .nothing },
    { name := "rules", takes := .manyValues },
    { name := "no-builtin-rules", takes := .nothing },
    { name := "enable", takes := .manyValues },
    { name := "disable", takes := .manyValues },
    { name := "config", takes := .oneValue },
    { name := "jobs", takes := .oneValue, accepts := isBetween 1 UInt64.size },
    { name := "timeout-secs", takes := .oneValue, accepts := isBetween 0 UInt64.size },
    { name := "commit-non-converged", takes := .nothing },
    { name := "format", takes := .oneValue, accepts := fun s => s = "text" || s = "json" },
    { name := "report", takes := .oneValue },
    { name := "markdown", takes := .oneValue },
    { name := "list-rules", takes := .nothing },
    { name := "verbose", letter := some 'v', takes := .nothing }]

def usage : String :=
  "Repairs mechanically corrupted TypeScript sources by applying declarative rewrite rules " ++
  "to a fixed point.\n\nUsage: syntaxfix [OPTIONS] [PATHS]...\n\nOptions:\n" ++
  String.join (grammar.options.map fun o => s!"  --{o.name}\n") ++
  "  --help\n  --version\n"

def toolName : String := "syntaxfix"

def toolVersion : String := "0.1.0"

def tool : ToolInfo := { name := toolName, version := some toolVersion }

inductive Format where
  | text
  | json
  deriving DecidableEq, Repr, Inhabited

structure Options where
  run : RunArgs := {}
  config : Option String := none
  format : Format := .text
  report : Option String := none
  markdown : Option String := none
  listRules : Bool := false
  verbose : Bool := false
  deriving DecidableEq, Repr, Inhabited

def Options.of (p : Parsed) : Options where
  run := {
    roots := if p.operands.isEmpty then ["."] else p.operands
    maxPasses := ((p.get? "max-passes").bind natural?).map (·.toUInt32)
    extensions := (p.all "extensions").flatMap fun v => (commaParts v.toList).map String.ofList
    exclude := p.all "exclude"
    noDefaultExcludes := p.has "no-default-excludes"
    dryRun := p.has "dry-run"
    jobs := ((p.get? "jobs").bind natural?).map (·.toUInt64)
    timeoutSecs := ((p.get? "timeout-secs").bind natural?).map (·.toUInt64)
    commitNonConverged := p.has "commit-non-converged"
    ruleFiles := p.all "rules"
    noBuiltinRules := p.has "no-builtin-rules"
    enable := p.all "enable"
    disable := p.all "disable" }
  config := p.get? "config"
  format := if p.get? "format" = some "json" then .json else .text
  report := p.get? "report"
  markdown := p.get? "markdown"
  listRules := p.has "list-rules"
  verbose := p.has "verbose"

/-- How far a command has come: it is finished, or a run has to be made. -/
inductive Stage where
  | finished (outcome : Outcome)
  | running (options : Options) (run : Run)

def refuse (d : Disk) (problem : String) : Stage :=
  .finished { exitCode := 2, problem := some problem, disk := d }

def printRules (format : Format) (rules : RuleSet) : String :=
  match format with
  | .text => rules.listing
  | .json => rules.listingJson.toPrettyString ++ "\n"

/-- Everything up to the first file. -/
def prepare (o : Options) (d : Disk) : Stage :=
  let root := o.run.roots.headD "."
  match Config.loadOrDefault d o.config root with
  | .error e => refuse d s!"load syntaxfix.toml config: {e.message}"
  | .ok config =>
    let (settings, sources) := config.merge o.run
    match sources.load d with
    | .error e => refuse d (RunError.rules e).message
    | .ok rules =>
      if o.listRules then .finished { stdout := printRules o.format rules, disk := d }
      else
        match Run.start settings rules d with
        | .error e => refuse d e.message
        | .ok run => .running o run

/-- Reads the arguments and goes up to the first file. -/
def start (args : List String) (d : Disk) : Stage :=
  match parse grammar args with
  | .error .help => .finished { stdout := usage, disk := d }
  | .error .version => .finished { stdout := s!"{toolName} {toolVersion}\n", disk := d }
  | .error .misuse => refuse d "wrong usage, see --help"
  | .ok p => prepare (Options.of p) d

def printReport (o : Options) (r : Report) : String :=
  match o.format with
  | .text => r.toText o.verbose
  | .json => r.toJsonString ++ "\n"

/-- Everything behind the last file. -/
def conclude (o : Options) (run : Run) (around : Surroundings) : Outcome :=
  let report := run.report tool around
  let stdout := printReport o report
  match report.writeArtifacts o.report o.markdown run.disk with
  | (.ok (), d) => { exitCode := report.exitCode, stdout, disk := d }
  | (.error e, d) =>
    { exitCode := 2, stdout, problem := some s!"write report artifacts: {e.message}", disk := d }

/-- The whole command. -/
def run (args : List String) (around : Surroundings) (d : Disk) : Outcome :=
  match start args d with
  | .finished outcome => outcome
  | .running o run => conclude o (run.steps around run.todo.length) around

end SourceMend.CommandLine.Mend
