import SourceMend.Rule.Spec
import SourceMend.RuleSet.Basic

/-!
Building a rule set from a draft. Rules with one id must agree; the named rules must exist; the
examples of the active rules must hold; and no output of a rule may come back to that rule.
-/
namespace SourceMend

/-- What a rule set is made of. -/
structure RuleDraft where
  version : Option UInt32 := none
  rules : List Rule := []
  enable : List String := []
  disable : List String := []
  overrides : List (String × Override) := []
  deriving Repr, Inhabited

namespace RuleDraft

/-- Adds the rules of a file. The highest version counts. -/
def addFile (d : RuleDraft) (f : RuleFile) : Except RuleError RuleDraft := do
  let rules ← f.compile
  let version := match d.version with
    | some v => if v < f.version then f.version else v
    | none => f.version
  return { d with version := some version, rules := d.rules ++ rules }

/-- Keeps the first of several rules with one id; they must all be the same. -/
def dedupe (kept : List Rule) : List Rule → Except RuleError (List Rule)
  | [] => .ok kept
  | r :: rest =>
    match kept.find? (·.id = r.id) with
    | some old => if old.sameDefinition r then dedupe kept rest else .error (.duplicateRule r.id)
    | none => dedupe (kept ++ [r]) rest

def least? : List String → Option String
  | [] => none
  | id :: rest =>
    match least? rest with
    | some other => if other < id then some other else some id
    | none => some id

/-- The least of the ids that name no rule. -/
def unknown? (rules : List Rule) (ids : List String) : Option String :=
  least? (ids.filter fun id => !rules.any (·.id = id))

def checkKnown (rules : List Rule) (ids : List String) (context : String) :
    Except RuleError Unit :=
  match unknown? rules ids with
  | some id => .error (.unknownRule id context)
  | none => .ok ()

def isActive (d : RuleDraft) (r : Rule) : Bool :=
  (r.enabled || d.enable.contains r.id) && !d.disable.contains r.id

/-- Attaches an override to the rule `id`. -/
def overrideIn (id : String) (o : Override) : List Rule → Except RuleError (List Rule)
  | [] => .ok []
  | r :: rest =>
    if r.id = id then (r.withOverride o).map (· :: rest)
    else (overrideIn id o rest).map (r :: ·)

/-- Attaches overrides in order. One for a rule that is not active does nothing. -/
def attachAll (inactive active : List Rule) :
    List (String × Override) → Except RuleError (List Rule)
  | [] => .ok active
  | (id, o) :: rest =>
    if active.any (·.id = id) then do
      attachAll inactive (← overrideIn id o active) rest
    else if inactive.any (·.id = id) then attachAll inactive active rest
    else .error (.unknownRule id "override")

end RuleDraft

namespace Cycle

/-- A text on its way through the rules, and the ids of the rules that changed it, the latest
first. -/
structure Trail where
  text : Text
  ids : List String
  deriving DecidableEq, Repr, Inhabited

/-- One round through the rules; an error when `origin` changes the text. -/
def round (origin : String) (t : Trail) : List Rule → Except (List String) Trail
  | [] => .ok t
  | r :: rest =>
    let out := r.apply t.text Context.bare
    if !out.changed then round origin t rest
    else if r.id = origin then .error (r.id :: t.ids).reverse
    else round origin ⟨out.text, r.id :: t.ids⟩ rest

/-- Rounds until one changes nothing; an error when the rounds run out. -/
def settle (fixers : List Rule) (origin : String) : Nat → Trail → Except (List String) Unit
  | 0, t => .error t.ids.reverse
  | n + 1, t =>
    match round origin t fixers with
    | .error cycle => .error cycle
    | .ok t' => if t'.ids.length = t.ids.length then .ok () else settle fixers origin n t'

/-- The texts a rule is known to produce. -/
def seeds (r : Rule) : List Text := r.examples.map (·.expected.toList) ++ r.literalOutputs

def checkSeeds (fixers : List Rule) (origin : String) : List Text → Except (List String) Unit
  | [] => .ok ()
  | seed :: rest => do
    settle fixers origin (2 * fixers.length + 2) ⟨seed, [origin]⟩
    checkSeeds fixers origin rest

def checkOrigins (fixers : List Rule) : List Rule → Except (List String) Unit
  | [] => .ok ()
  | r :: rest => do
    checkSeeds fixers r.id (seeds r)
    checkOrigins fixers rest

/-- Refuses rules that fire again on their own output once it has passed through the others. -/
def check (rules : List Rule) : Except RuleError Unit :=
  let fixers := rules.filter (·.isFix)
  match checkOrigins fixers fixers with
  | .error cycle => .error (.cyclicTrigger cycle)
  | .ok () => .ok ()

end Cycle

def RuleDraft.build (d : RuleDraft) : Except RuleError RuleSet := do
  let rules ← RuleDraft.dedupe [] d.rules
  RuleDraft.checkKnown rules d.enable "rules.enable"
  RuleDraft.checkKnown rules d.disable "rules.disable"
  let active := rules.filter d.isActive
  let inactive := rules.filter (!d.isActive ·)
  active.forM Rule.checkExamples
  let active ← RuleDraft.attachAll inactive active d.overrides
  Cycle.check active
  return { version := d.version.getD 1, rules := active }

end SourceMend
