import SourceMend.Proofs.Catalog.Edits
import SourceMend.Proofs.Rule.Evaluation
import SourceMend.Proofs.RuleSet.Building
import SourceMend.Proofs.RuleSet.Pass

/-!
The built-in rule set. Its rules compile, their examples hold, and a text without flaws is changed
by none of them, so the catalog can be built.
-/
namespace SourceMend.Catalog

open Pattern (Node)

def fixers : List Rule := fixes.map fun f => f.1.toRule f.2

/-- The built-in rules that are on by default, with their patterns read. -/
def builtin : RuleSet where
  version := 4
  rules := fixers ++ [colonChainUnresolved.toRule unresolvedNode]

theorem fixRules_builtin : builtin.fixRules = fixers := rfl

theorem mends_fixes : ∀ f ∈ fixes, Mends f.1 f.2 := by
  simp only [fixes, List.forall_mem_cons]
  exact ⟨mends_index, mends_bare, mends_param, mends_generic, mends_cast, mends_union,
    mends_collapse, by simp⟩

/-- Every rule of the catalog that is on and fixes lowers the number of flaws. -/
theorem lowers_builtin (ctx : Context) : builtin.Lowers (flaws []) ctx := by
  intro r hr text
  rw [fixRules_builtin] at hr
  obtain ⟨⟨spec, node⟩, hf, rfl⟩ := List.mem_map.1 hr
  have hmends : Mends spec node := mends_fixes _ hf
  cases hown : spec.replacement with
  | none => simp [Rule.apply, Rule.isFix, RuleSpec.toRule, hown]
  | some own =>
    have hrewritten := Rule.apply_rewritten (r := spec.toRule node) hown text ctx
    exact flaws_rewritten (fun he => (hmends hown he).2) hrewritten

/-- A text without flaws is changed by none of the rules. -/
theorem still_of_flaws {text : Text} (h : flaws [] text = 0) {r : Rule} (hr : r ∈ fixers)
    (ctx : Context) : (r.apply text ctx).changed = false := by
  have hlow := lowers_builtin ctx r (fixRules_builtin ▸ hr) text
  have hfired : (r.apply text ctx).fired = 0 := by omega
  rw [r.changed_apply, Rule.apply_text_of_fired_eq_zero hfired]
  simp

/-- What a rule makes of a text, had without memory. -/
def tried (ctx : Context) (text : Text) (f : RuleSpec × Node) : Option Text :=
  f.1.replacement.map fun own => ((f.1.toRule f.2).mendFrom own ctx.path
    (ScopeMap.scan text ctx.dialect) (f.2.program.scout (.start text))).1

/-- Every rule has a template, which refers to groups, and a program in layers. -/
theorem traits_fixes : ∀ f ∈ fixes, f.1.replacement.isSome = true ∧
    (f.1.toRule f.2).literalOutputs = [] ∧ f.2.program.isLayered = true := by
  decide +kernel

/-- The examples come out as promised, without flaws. -/
theorem examples_fixes : ∀ f ∈ fixes, ∀ e ∈ f.1.examples,
    tried .bare e.input.toList f = some e.expected.toList ∧ flaws [] e.expected.toList = 0 := by
  simp only [fixes, List.forall_mem_cons, List.not_mem_nil, false_imp_iff, implies_true, and_true,
    indexSignatureMissingValueType, arrayBareSuffix, arrayParamBareSuffix,
    colonChainGenericArgument, colonChainCast, colonChainUnionMember, colonChainCollapse]
  -- The kernel is slow to take a string apart, so that is done before.
  repeat rw [String.toList_ofList]
  decide +kernel

theorem tried_eq {f : RuleSpec × Node} (hf : f ∈ fixes) (ctx : Context) (text : Text) :
    tried ctx text f = some ((f.1.toRule f.2).apply text ctx).text := by
  obtain ⟨hreplacement, -, hlayered⟩ := traits_fixes f hf
  obtain ⟨own, hown⟩ := Option.isSome_iff_exists.1 hreplacement
  rw [Rule.apply_text_eq (r := f.1.toRule f.2) hown hlayered, tried, hown]
  rfl

theorem seeds_fixes {f : RuleSpec × Node} (hf : f ∈ fixes) : Cycle.seeds (f.1.toRule f.2) =
    f.1.examples.map (·.expected.toList) := by
  rw [Cycle.seeds, (traits_fixes f hf).2.1, List.append_nil]
  rfl

theorem keepsExamples_fixers : ∀ r ∈ fixers, r.KeepsExamples := by
  intro r hr e he
  obtain ⟨f, hf, rfl⟩ := List.mem_map.1 hr
  obtain ⟨htried, hflaws⟩ := examples_fixes f hf e he
  refine ⟨?_, still_of_flaws hflaws hr _⟩
  exact Option.some.inj ((tried_eq hf _ _).symm.trans htried)

/-- The rules of the catalog as they are compiled, with those that are off. -/
def compiled : List Rule := entries.map fun f => f.1.toRule f.2

theorem parses_entries : ∀ f ∈ entries,
    (Pattern.Parser.node f.1.pattern.toList).toOption = some f.2 := by
  simp only [entries, fixes, List.cons_append, List.nil_append, List.forall_mem_cons,
    List.not_mem_nil, false_imp_iff, implies_true, and_true, indexSignatureMissingValueType,
    arrayBareSuffix, arrayParamBareSuffix, colonChainGenericArgument, colonChainCast,
    colonChainUnionMember, colonChainCollapse, implicitAnyCallbackParam, implicitAnyCallbackPair,
    colonChainUnresolved, String.toList_append]
  repeat rw [String.toList_ofList]
  decide +kernel

theorem refers_entries : ∀ f ∈ entries, f.1.overrides.isEmpty = true ∧
    ∀ template ∈ f.1.replacement,
      RuleSpec.Refers template ⟨f.1.pattern, f.2, Pattern.namesOf f.2.groups⟩ := by
  decide +kernel

theorem readsAs_entries (f : RuleSpec × Node) (hf : f ∈ entries) : f.1.ReadsAs f.2 where
  parses := parses_entries f hf
  refers := (refers_entries f hf).2
  overrides := (refers_entries f hf).1

theorem compile_file : file.compile = .ok compiled := by
  have hrules : file.rules = entries.map Prod.fst := rfl
  rw [RuleFile.compile, hrules, RuleSpec.mapM_compile readsAs_entries]
  rfl

theorem filter_isFix_builtin : builtin.rules.filter (·.isFix) = fixers := rfl

theorem check_builtin : Cycle.check builtin.rules = .ok () := by
  refine Cycle.check_of_still ?_
  rw [filter_isFix_builtin]
  intro s hs seed hseed r hr
  obtain ⟨f, hf, rfl⟩ := List.mem_map.1 hs
  rw [seeds_fixes hf] at hseed
  obtain ⟨e, he, rfl⟩ := List.mem_map.1 hseed
  exact still_of_flaws (examples_fixes f hf e he).2 hr _

theorem nodup_ids_compiled : (compiled.map (·.id)).Nodup := by
  decide

/-- The catalog can be built, and this is what it gives. -/
theorem ruleSet_eq : ruleSet = .ok builtin := by
  have hfile : RuleDraft.addFile {} file = .ok { version := some 4, rules := compiled } := by
    rw [RuleDraft.addFile, compile_file]
    rfl
  have hactive : compiled.filter (RuleDraft.isActive { version := some 4, rules := compiled }) =
      builtin.rules := rfl
  have hexamples : ∀ r ∈ builtin.rules, r.isFix = true → r.KeepsExamples := fun r hr hfix =>
    keepsExamples_fixers r (filter_isFix_builtin ▸ List.mem_filter.2 ⟨hr, hfix⟩)
  have hbind (d : RuleDraft) : (Except.ok d >>= RuleDraft.build) = d.build := rfl
  calc ruleSet = RuleDraft.addFile {} file >>= RuleDraft.build := rfl
    _ = RuleDraft.build { version := some 4, rules := compiled } := by rw [hfile, hbind]
    _ = .ok builtin := RuleDraft.build_eq (d := { version := some 4, rules := compiled })
        nodup_ids_compiled rfl rfl rfl hactive hexamples check_builtin

end SourceMend.Catalog
