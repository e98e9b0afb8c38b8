import SourceMend.Rule.Apply
import SourceMend.Tally

/-!
Rule sets. The order of the rules matters: in one pass each rule that fixes sees what the rules
before it have left.
-/
namespace SourceMend

structure RuleSet where
  version : UInt32 := 1
  rules : List Rule := []
  deriving Repr, Inhabited

/-- The text after one pass, and how often each rule fired. -/
structure Pass where
  text : Text
  changed : Bool
  fires : Tally
  deriving DecidableEq, Inhabited

namespace RuleSet

def get? (s : RuleSet) (id : String) : Option Rule := s.rules.find? (·.id = id)

def categoryOf? (s : RuleSet) (id : String) : Option String := (s.get? id).map (·.category)

/-- The categories in the order in which they first come. -/
def categories (s : RuleSet) : List String := s.rules.foldl step []
where
  step (done : List String) (r : Rule) : List String :=
    if done.contains r.category then done else done ++ [r.category]

def fixRules (s : RuleSet) : List Rule := s.rules.filter (·.isFix)

/-- A pass under way: the text so far, its scope map while it is known, and the tally. -/
structure PassState where
  text : Text
  scope : Option ScopeMap := none
  fires : Tally := Tally.empty

/-- Lets one rule work on the text. A rule that matches nowhere is passed over. The scope map is
kept until the text changes. -/
def passStep (ctx : Context) (st : PassState) (r : Rule) : PassState :=
  if !r.pattern.isMatch st.text then st
  else
    let scope := st.scope.getD (ScopeMap.scan st.text ctx.dialect)
    let out := r.applyIn st.text scope ctx
    let fires := if 0 < out.fired then st.fires.add r.id out.fired.toUInt64 else st.fires
    if out.changed then { text := out.text, scope := none, fires }
    else { text := st.text, scope := some scope, fires }

/-- Applies every rule that fixes once, in order. -/
def applyPass (s : RuleSet) (text : Text) (ctx : Context) : Pass :=
  let st := s.fixRules.foldl (passStep ctx) { text }
  { text := st.text, changed := st.text != text, fires := st.fires }

end RuleSet
end SourceMend
