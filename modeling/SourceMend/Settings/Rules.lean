import SourceMend.Catalog
import SourceMend.Disk.Basic
import SourceMend.Rule.File
import SourceMend.RuleSet.Build
import SourceMend.Settings.Basic

/-! The rule set that a run works with: the catalog, further rule files, and overrides. -/
namespace SourceMend

def RuleFile.load (d : Disk) (path : String) : Except RuleError RuleFile :=
  match d.readText path with
  | .error fault => .error (.unreadable path fault.message)
  | .ok text => RuleFile.parse text path

namespace RuleDraft

def addFiles (d : Disk) (draft : RuleDraft) : List String → Except RuleError RuleDraft
  | [] => .ok draft
  | path :: rest => do
    let file ← RuleFile.load d path
    addFiles d (← draft.addFile file) rest

def addOverrides (draft : RuleDraft) : List OverrideSetting → Except RuleError RuleDraft
  | [] => .ok draft
  | s :: rest => do
    let o ← s.spec.compile s.rule
    addOverrides { draft with overrides := draft.overrides ++ [(s.rule, o)] } rest

end RuleDraft

def RuleSources.load (d : Disk) (s : RuleSources) : Except RuleError RuleSet := do
  let draft ← if s.builtin then RuleDraft.addFile {} Catalog.file else .ok {}
  let draft ← draft.addFiles d s.files
  let draft := { draft with enable := s.enable, disable := s.disable }
  let draft ← draft.addOverrides s.overrides
  draft.build

end SourceMend
