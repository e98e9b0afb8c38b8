import SourceMend.Digest
import SourceMend.RuleSet.Basic

/-!
Repair: passes of a rule set over one text until it stops changing. Every state is hashed. A pass
that gives the state before it has reached a fixed point; one that gives an older state shows that
the passes go round in circles.
-/
namespace SourceMend

inductive Convergence where
  | converged
  | exhausted
  | oscillating (period : UInt32)
  | notRun
  deriving DecidableEq, Repr, Inhabited

namespace Convergence

def isConverged (c : Convergence) : Bool := c = .converged

/-- Whether the passes ended without a fixed point. -/
def isStalled : Convergence → Bool
  | .exhausted | .oscillating _ => true
  | .converged | .notRun => false

def describe : Convergence → String
  | .oscillating period => s!"oscillating with period {period.toNat}"
  | .exhausted => "still changing"
  | .converged => "converged"
  | .notRun => "not run"

end Convergence

structure Repair where
  /-- The text after the last pass. -/
  content : Text
  convergence : Convergence
  /-- Passes that changed the text, at least one. -/
  passesUsed : UInt32
  /-- All passes, with the one that confirmed the fixed point. -/
  passesExecuted : UInt32
  fires : Tally
  deriving DecidableEq, Inhabited

namespace Repair

/-- A repair under way; `history` holds the digests of the states so far, the latest first. -/
structure State where
  current : Text
  history : List Digest
  executed : Nat := 0
  changing : Nat := 0
  fires : Tally := Tally.empty

def State.finish (st : State) (c : Convergence) : Repair where
  content := st.current
  convergence := c
  passesUsed := (max st.changing 1).toUInt32
  passesExecuted := st.executed.toUInt32
  fires := st.fires

/-- At most `budget` more passes. -/
def run (rules : RuleSet) (ctx : Context) : (budget : Nat) → State → Repair
  | 0, st => st.finish .exhausted
  | budget + 1, st =>
    let pass := rules.applyPass st.current ctx
    let digest := Digest.ofText pass.text
    let st := { st with executed := st.executed + 1, fires := st.fires.merge pass.fires }
    if st.history.head? = some digest then st.finish .converged
    else
      let st := { st with current := pass.text, changing := st.changing + 1 }
      match st.history.findIdx? (· = digest) with
      | some i => st.finish (.oscillating (i + 1).toUInt32)
      | none => run rules ctx budget { st with history := digest :: st.history }

end Repair

/-- A budget of zero passes is raised to one. -/
def passBudget (maxPasses : UInt32) : UInt32 := if maxPasses = 0 then 1 else maxPasses

def RuleSet.repair (rules : RuleSet) (maxPasses : UInt32) (text : Text) (ctx : Context) : Repair :=
  Repair.run rules ctx (passBudget maxPasses).toNat
    { current := text, history := [Digest.ofText text] }

end SourceMend
