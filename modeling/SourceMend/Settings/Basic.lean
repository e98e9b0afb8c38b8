import SourceMend.Rule.Spec

/-! What a run is asked to do, and where its rules come from. -/
namespace SourceMend

/-- What becomes of a file whose passes found no fixed point. -/
inductive StalledPolicy where
  /-- It is left as it is. -/
  | discard
  /-- It gets the text after the last pass. -/
  | commitLastPass
  deriving DecidableEq, Repr, Inhabited

def defaultExtensions : List String := ["ts", "tsx"]

def defaultMaxPasses : UInt32 := 5

structure Settings where
  roots : List String := ["."]
  extensions : List String := defaultExtensions
  exclude : List String := []
  /-- Whether the standard exclusions hold too. -/
  defaultExcludes : Bool := true
  maxPasses : UInt32 := defaultMaxPasses
  stalled : StalledPolicy := .discard
  dryRun : Bool := false
  includePatches : Bool := false
  jobs : Option UInt64 := none
  timeoutSecs : Option UInt64 := none
  deriving DecidableEq, Repr, Inhabited

/-- An override for the rule with this id. -/
structure OverrideSetting where
  rule : String
  spec : OverrideSpec
  deriving DecidableEq, Repr, Inhabited

structure RuleSources where
  builtin : Bool := true
  files : List String := []
  enable : List String := []
  disable : List String := []
  overrides : List OverrideSetting := []
  deriving DecidableEq, Repr, Inhabited

end SourceMend
