import Mathlib.Data.List.TakeWhile
import SourceMend.Proofs.RuleSet.Selection

/-!
Templates by their syntax. A relation tells which parts of a template are references and which are
characters that stand for themselves; the check of a template and its expansion both read it that
way. So an accepted template refers to groups of its pattern only, and one without references
inserts the same text for every match.
-/
namespace SourceMend

open Pattern (Match)

namespace Template

/-- What a template is made of. -/
inductive Part where
  | char (c : Char)
  | ref (r : CaptureRef)
  deriving DecidableEq

def Part.ref? : Part → Option CaptureRef
  | .char _ => none
  | .ref r => some r

/-- The text that a part inserts; `value` gives the text of a reference. -/
def Part.fill (value : CaptureRef → Text) : Part → Text
  | .char c => [c]
  | .ref r => value r

/-- Before this text a dollar sign is neither doubled nor the start of a reference. -/
structure Stray (rest : Text) : Prop where
  single : rest.head? ≠ some '$'
  unclosed : rest.head? = some '{' → '}' ∉ rest
  unnamed : ∀ c ∈ rest.head?, isNameChar c = false

/-- The parts of a template, by its syntax. -/
inductive Reads : Text → List Part → Prop
  | nil : Reads [] []
  | plain {c : Char} {rest : Text} {parts : List Part} : c ≠ '$' → Reads rest parts →
    Reads (c :: rest) (.char c :: parts)
  | dollar {rest : Text} {parts : List Part} : Reads rest parts →
    Reads ('$' :: '$' :: rest) (.char '$' :: parts)
  | braced {name rest : Text} {parts : List Part} : '}' ∉ name → Reads rest parts →
    Reads ('$' :: '{' :: (name ++ '}' :: rest)) (.ref (.parse name) :: parts)
  | named {name rest : Text} {parts : List Part} : name ≠ [] →
    (∀ c ∈ name, isNameChar c = true) → (∀ c ∈ rest.head?, isNameChar c = false) →
    Reads rest parts → Reads ('$' :: (name ++ rest)) (.ref (.parse name) :: parts)
  | stray {rest : Text} {parts : List Part} : Stray rest → Reads rest parts →
    Reads ('$' :: rest) (.char '$' :: parts)

variable {t name rest : Text} {parts : List Part} {value : CaptureRef → Text}

/-! Names -/

theorem takeWhile_braced (h : '}' ∉ name) (rest : Text) :
    (name ++ '}' :: rest).takeWhile (· ≠ '}') = name := by
  have hname : ∀ c ∈ name, decide (c ≠ '}') = true := by
    intro c hc
    simpa using fun he : c = '}' => h (he ▸ hc)
  rw [List.takeWhile_append_of_pos hname]
  simp

theorem takeWhile_named (h : ∀ c ∈ name, isNameChar c = true)
    (hrest : ∀ c ∈ rest.head?, isNameChar c = false) :
    (name ++ rest).takeWhile isNameChar = name := by
  rw [List.takeWhile_append_of_pos h]
  cases rest with
  | nil => simp
  | cons c rest => simp [hrest c rfl]

theorem ne_of_isNameChar {c : Char} (h : isNameChar c = true) : c ≠ '$' ∧ c ≠ '{' := by
  constructor <;> rintro rfl <;> simp [isNameChar] at h

/-! What both scanners do at one part -/

theorem refs_braced (h : '}' ∉ name) (rest : Text) :
    refs ('$' :: '{' :: (name ++ '}' :: rest)) = .parse name :: refs rest := by
  rw [refs, if_neg (by simp)]
  simp only [takeWhile_braced h]
  simp

theorem expand_braced (h : '}' ∉ name) (rest : Text) :
    expand value ('$' :: '{' :: (name ++ '}' :: rest)) =
      value (.parse name) ++ expand value rest := by
  rw [expand]
  simp only [takeWhile_braced h]
  simp

theorem refs_named (hne : name ≠ []) (h : ∀ c ∈ name, isNameChar c = true)
    (hrest : ∀ c ∈ rest.head?, isNameChar c = false) :
    refs ('$' :: (name ++ rest)) = .parse name :: refs rest := by
  have htake := takeWhile_named h hrest
  obtain ⟨c, name, rfl⟩ := List.exists_cons_of_ne_nil hne
  obtain ⟨hdollar, hbrace⟩ := ne_of_isNameChar (h c List.mem_cons_self)
  rw [List.cons_append] at htake ⊢
  rw [refs, if_neg (by simp), htake]
  · simp
  · simp [hdollar]
  · simp [hbrace]

theorem expand_named (hne : name ≠ []) (h : ∀ c ∈ name, isNameChar c = true)
    (hrest : ∀ c ∈ rest.head?, isNameChar c = false) :
    expand value ('$' :: (name ++ rest)) = value (.parse name) ++ expand value rest := by
  have htake := takeWhile_named h hrest
  obtain ⟨c, name, rfl⟩ := List.exists_cons_of_ne_nil hne
  have hc := h c List.mem_cons_self
  obtain ⟨hdollar, hbrace⟩ := ne_of_isNameChar hc
  rw [List.cons_append] at htake ⊢
  rw [expand, if_pos ⟨rfl, by simpa using hc⟩, htake]
  · simp
  · simp [hdollar]
  · simp [hbrace]

theorem refs_stray (h : Stray rest) : refs ('$' :: rest) = refs rest := by
  cases rest with
  | nil => simp [refs]
  | cons c rest =>
    have hname := h.unnamed c rfl
    by_cases hopen : c = '{'
    · subst hopen
      have hclose : '}' ∉ rest := fun hmem => h.unclosed rfl (List.mem_cons_of_mem _ hmem)
      rw [refs, if_neg (by simp)]
      simp [hclose]
    · have hsingle : c ≠ '$' := by simpa using h.single
      rw [refs, if_neg (by simp)]
      · simp [hname]
      · simp [hsingle]
      · simp [hopen]

theorem expand_stray (h : Stray rest) : expand value ('$' :: rest) = '$' :: expand value rest := by
  cases rest with
  | nil => simp [expand]
  | cons c rest =>
    have hname := h.unnamed c rfl
    by_cases hopen : c = '{'
    · subst hopen
      have hclose : '}' ∉ rest := fun hmem => h.unclosed rfl (List.mem_cons_of_mem _ hmem)
      have htake : rest.takeWhile (· ≠ '}') = rest := by
        rw [List.takeWhile_eq_self_iff]
        intro c hc
        simpa using fun he : c = '}' => hclose (he ▸ hc)
      rw [expand]
      simp only [htake]
      simp
    · have hsingle : c ≠ '$' := by simpa using h.single
      rw [expand, if_neg (by simp [hname])]
      · simp [hsingle]
      · simp [hopen]

/-! Whole templates -/

/-- Every template can be read. -/
theorem exists_reads : ∀ t : Text, ∃ parts, Reads t parts
  | [] => ⟨[], .nil⟩
  | c :: rest => by
    obtain ⟨parts, hrest⟩ := exists_reads rest
    by_cases hc : c = '$'
    · subst hc
      by_cases hdollar : rest.head? = some '$'
      · obtain ⟨more, rfl⟩ := List.head?_eq_some_iff.1 hdollar
        obtain ⟨parts, hmore⟩ := exists_reads more
        exact ⟨_, .dollar hmore⟩
      by_cases hbrace : rest.head? = some '{' ∧ '}' ∈ rest
      · obtain ⟨hopen, hclose⟩ := hbrace
        obtain ⟨more, rfl⟩ := List.head?_eq_some_iff.1 hopen
        obtain ⟨name, behind, rfl, hname⟩ :=
          List.eq_append_cons_of_mem (List.mem_of_ne_of_mem (by decide) hclose)
        obtain ⟨parts, hbehind⟩ := exists_reads behind
        exact ⟨_, .braced hname hbehind⟩
      by_cases hname : rest.takeWhile isNameChar = []
      · refine ⟨_, .stray ⟨hdollar, fun hopen hclose => hbrace ⟨hopen, hclose⟩, ?_⟩ hrest⟩
        intro c hc
        obtain ⟨more, rfl⟩ := List.head?_eq_some_iff.1 hc
        simpa using hname
      · have hshort := (List.dropWhile_sublist isNameChar (l := rest)).length_le
        obtain ⟨parts, hbehind⟩ := exists_reads (rest.dropWhile isNameChar)
        have hstop := List.head?_dropWhile_not isNameChar rest
        rw [← List.takeWhile_append_dropWhile (p := isNameChar) (l := rest)]
        refine ⟨_, .named hname (fun c hc => List.mem_takeWhile_imp hc) ?_ hbehind⟩
        intro c hc
        rwa [hc] at hstop
    · exact ⟨_, .plain hc hrest⟩
termination_by t => t.length

theorem Reads.refs_eq (h : Reads t parts) : refs t = parts.filterMap Part.ref? := by
  induction h with
  | nil => simp [refs]
  | plain hc _ ih =>
    unfold refs
    rw [if_pos hc, ih]
    rfl
  | dollar _ ih =>
    rw [refs, if_neg (by simp), ih]
    rfl
  | braced hname _ ih =>
    rw [refs_braced hname, ih]
    rfl
  | named hne hname hrest _ ih =>
    rw [refs_named hne hname hrest, ih]
    rfl
  | stray hstray _ ih =>
    rw [refs_stray hstray, ih]
    rfl

theorem Reads.expand_eq (h : Reads t parts) (value : CaptureRef → Text) :
    expand value t = parts.flatMap (Part.fill value) := by
  induction h with
  | nil => simp [expand]
  | plain hc _ ih =>
    rw [expand, if_neg (by simp [hc]), ih]
    · rfl
    · simp [hc]
    · simp [hc]
  | dollar _ ih =>
    rw [expand, ih]
    rfl
  | braced hname _ ih =>
    rw [expand_braced hname, ih]
    rfl
  | named hne hname hrest _ ih =>
    rw [expand_named hne hname hrest, ih]
    rfl
  | stray hstray _ ih =>
    rw [expand_stray hstray, ih]
    rfl

/-- Without references only doubled dollar signs change. -/
theorem Reads.literalText_eq (h : Reads t parts) (hrefs : parts.filterMap Part.ref? = [])
    (value : CaptureRef → Text) : literalText t = parts.flatMap (Part.fill value) := by
  induction h with
  | nil => rfl
  | plain hc _ ih =>
    rw [literalText, ih hrefs]
    · rfl
    · simp [hc]
  | dollar _ ih =>
    rw [literalText, ih hrefs]
    rfl
  | braced => cases hrefs
  | named => cases hrefs
  | stray hstray _ ih =>
    rw [literalText, ih hrefs]
    · rfl
    · rintro more - rfl
      exact hstray.single rfl

theorem expand_of_refs_nil (h : refs t = []) (value : CaptureRef → Text) :
    expand value t = literalText t := by
  obtain ⟨parts, hreads⟩ := exists_reads t
  rw [hreads.expand_eq, hreads.literalText_eq (hreads.refs_eq ▸ h) value]

end Template

/-! Accepted templates -/

namespace CaptureRef

/-- The reference stands for group `i` of the pattern, by its number or by its name. -/
def Denotes (ref : CaptureRef) (p : Pattern) (i : Nat) : Prop :=
  i < p.groupNames.length ∧
    (ref = .index i ∨ ∃ s, ref = .name s ∧ p.groupNames[i]? = some (some s))

theorem denotes_of_resolve? {ref : CaptureRef} {p : Pattern} {i : Nat}
    (h : ref.resolve? p = some i) : ref.Denotes p i := by
  unfold resolve? at h
  split at h
  · split at h
    · next hlt =>
      obtain rfl := Option.some.inj h
      exact ⟨hlt, .inl rfl⟩
    · contradiction
  · next s =>
    obtain ⟨hlt, hname, -⟩ := List.findIdx?_eq_some_iff_getElem.1 h
    refine ⟨hlt, .inr ⟨s, rfl, ?_⟩⟩
    rw [List.getElem?_eq_getElem hlt, of_decide_eq_true hname]

end CaptureRef

theorem Template.check_eq_ok {id : String} {p : Pattern} {template : String} :
    check id p template = .ok () ↔ (∀ ref ∈ refs template.toList, ref.existsIn p = true) ∧
      (refs template.toList = [] → p.isMatch (literalText template.toList) = false) := by
  unfold check
  dsimp only
  cases hfind : (refs template.toList).find? (!·.existsIn p) with
  | some missing =>
    have hmissing := List.find?_some hfind
    refine ⟨fun h => by contradiction, fun h => ?_⟩
    simp [h.1 missing (List.mem_of_find?_eq_some hfind)] at hmissing
  | none =>
    have hall : ∀ ref ∈ refs template.toList, ref.existsIn p = true := by simpa using hfind
    dsimp only
    rw [and_iff_right hall]
    split
    · next hself => simp_all
    · next hself =>
      refine ⟨fun _ hnil => ?_, fun _ => rfl⟩
      simpa [hnil] using hself

namespace Rule

/-- All templates of the rule pass the check against its pattern. -/
def Accepted (r : Rule) : Prop :=
  ∀ template ∈ r.templates, Template.check r.id r.pattern template = .ok ()

theorem accepted_withOverride {r r' : Rule} {o : Override} (h : r.withOverride o = .ok r')
    (hr : r.Accepted) : r'.Accepted := by
  obtain rfl := withOverride_eq_ok h
  unfold withOverride at h
  split at h
  · contradiction
  · obtain ⟨⟨⟩, hcheck, -⟩ := eq_ok_of_bind h
    intro template hmem
    have hmem : template ∈ r.templates ∨ template = o.replacement := by
      simpa [templates, or_assoc] using hmem
    rcases hmem with hmem | rfl
    · exact hr template hmem
    · exact hcheck

end Rule

theorem RuleSpec.accepted_compile {s : RuleSpec} {r : Rule} (h : s.compile = .ok r) :
    r.Accepted := by
  refine compile_induct Rule.accepted_withOverride h fun bare _ hown hover hcheck => ?_
  simpa [Rule.Accepted, Rule.templates, hown, hover] using hcheck

namespace RuleDraft

theorem accepted_overrideIn {id : String} {o : Override} {rules out : List Rule}
    (h : overrideIn id o rules = .ok out) (hrules : ∀ r ∈ rules, r.Accepted) :
    ∀ r ∈ out, r.Accepted := by
  induction rules generalizing out with
  | nil =>
    obtain rfl := Except.ok.inj h
    exact hrules
  | cons r rest ih =>
    obtain ⟨hr, hrest⟩ := List.forall_mem_cons.1 hrules
    rw [overrideIn] at h
    split at h
    · obtain ⟨r', hr', rfl⟩ := eq_ok_of_map h
      exact List.forall_mem_cons.2 ⟨Rule.accepted_withOverride hr' hr, hrest⟩
    · obtain ⟨rest', hrest', rfl⟩ := eq_ok_of_map h
      exact List.forall_mem_cons.2 ⟨hr, ih hrest' hrest⟩

theorem accepted_attachAll {inactive active out : List Rule} {given : List (String × Override)}
    (h : attachAll inactive active given = .ok out) (hactive : ∀ r ∈ active, r.Accepted) :
    ∀ r ∈ out, r.Accepted := by
  induction given generalizing active with
  | nil =>
    obtain rfl := Except.ok.inj h
    exact hactive
  | cons e rest ih =>
    rw [attachAll] at h
    split at h
    · obtain ⟨next, hnext, h⟩ := eq_ok_of_bind h
      exact ih h (accepted_overrideIn hnext hactive)
    · split at h
      · exact ih h hactive
      · contradiction

/-- Building keeps the templates accepted, those of overrides as well. -/
theorem accepted_build {d : RuleDraft} {s : RuleSet} (h : d.build = .ok s)
    (hrules : ∀ r ∈ d.rules, r.Accepted) : ∀ r ∈ s.rules, r.Accepted := by
  rw [build_eq_prepared] at h
  obtain ⟨rules, hprepared, h⟩ := eq_ok_of_bind h
  obtain ⟨⟨⟩, -, h⟩ := eq_ok_of_bind h
  obtain rfl := Except.ok.inj h
  obtain ⟨kept, hkept, hprepared⟩ := eq_ok_of_bind hprepared
  obtain ⟨⟨⟩, -, hprepared⟩ := eq_ok_of_bind hprepared
  obtain ⟨⟨⟩, -, hprepared⟩ := eq_ok_of_bind hprepared
  obtain ⟨⟨⟩, -, hattach⟩ := eq_ok_of_bind hprepared
  refine accepted_attachAll hattach fun r hr => hrules r ?_
  have hr := (List.mem_filter.1 hr).1
  rw [dedupe_eq_ok hkept] at hr
  exact mem_of_mem_firstOfEach (by simpa using hr)

end RuleDraft

theorem Rule.templateFor_mem {r : Rule} {own : String} (hown : own ∈ r.replacement) (path : String)
    (m : Match) : r.templateFor own path m ∈ r.templates := by
  unfold templateFor templates
  cases hfind : r.overrides.find? (·.holds r.pattern path m) with
  | none => simp [Option.mem_def.1 hown]
  | some o => simpa using .inr ⟨o, List.mem_of_find?_eq_some hfind, rfl⟩

/-- The check and the expansion read the same parts in every template, so the references of the
check are those that the expansion fills in. References of an accepted template denote groups of the
pattern; a reference is empty only if its group took no part in the match or is empty itself. An
accepted template without references inserts one text for all matches, and the pattern does not
match that text. All this holds of the rules that a set is built from, overrides included, and those
texts are the outputs that the cycle check starts from. -/
theorem Template.checked_as_expanded :
    (∀ t : Text, (∃ parts, Reads t parts) ∧ ∀ parts, Reads t parts →
      refs t = parts.filterMap Part.ref? ∧
      ∀ value, expand value t = parts.flatMap (Part.fill value)) ∧
    (∀ (id : String) (p : Pattern) (template : String), check id p template = .ok () →
      (∀ ref ∈ refs template.toList, ∃ i, ref.Denotes p i ∧
        ∀ m : Match, ref.text? p m = (m.group? i).map (·.2)) ∧
      (refs template.toList = [] →
        (∀ value, expand value template.toList = literalText template.toList) ∧
        p.isMatch (literalText template.toList) = false)) ∧
    ∀ (d : RuleDraft) (s : RuleSet), (∀ r ∈ d.rules, ∃ spec : RuleSpec, spec.compile = .ok r) →
      d.build = .ok s → ∀ r ∈ s.rules,
        (∀ template ∈ r.templates, check r.id r.pattern template = .ok ()) ∧
        (∀ out ∈ r.literalOutputs, r.pattern.isMatch out = false) ∧
        ∀ own ∈ r.replacement, ∀ path m, refs (r.templateFor own path m).toList = [] →
          r.replacementFor own path m = literalText (r.templateFor own path m).toList ∧
          r.replacementFor own path m ∈ r.literalOutputs := by
  refine ⟨fun t => ⟨exists_reads t, fun parts h => ⟨h.refs_eq, h.expand_eq⟩⟩,
    fun id p template hcheck => ?_, fun d s hcompiled hs r hr => ?_⟩
  · obtain ⟨hexists, hself⟩ := check_eq_ok.1 hcheck
    refine ⟨fun ref href => ?_, fun hnil => ⟨expand_of_refs_nil hnil, hself hnil⟩⟩
    obtain ⟨i, hi⟩ := Option.isSome_iff_exists.1 (hexists ref href)
    refine ⟨i, CaptureRef.denotes_of_resolve? hi, fun m => ?_⟩
    rw [CaptureRef.text?, hi, Option.bind_some]
  · have haccepted : r.Accepted := RuleDraft.accepted_build hs (fun q hq => by
      obtain ⟨spec, hspec⟩ := hcompiled q hq
      exact RuleSpec.accepted_compile hspec) r hr
    refine ⟨haccepted, fun out hout => ?_, fun own hown path m hnil => ?_⟩
    · obtain ⟨t, ht, rfl⟩ := List.mem_map.1 hout
      obtain ⟨ht, hnil⟩ := List.mem_filter.1 ht
      obtain ⟨template, htemplate, rfl⟩ := List.mem_map.1 ht
      exact (check_eq_ok.1 (haccepted template htemplate)).2 (List.isEmpty_iff.1 hnil)
    · have hmem := Rule.templateFor_mem hown path m
      refine ⟨expand_of_refs_nil hnil _, ?_⟩
      rw [Rule.replacementFor, expand_of_refs_nil hnil]
      refine List.mem_map_of_mem (List.mem_filter.2 ⟨List.mem_map_of_mem hmem, ?_⟩)
      exact List.isEmpty_iff.2 hnil

/-- Its own template has two references and a doubled dollar sign before a stray one. That of the
override has none, and a brace that is never closed. -/
def costSpec : RuleSpec where
  id := "cost"
  category := "demo"
  pattern := "(?P<a>x+)(y)?"
  replacement := some "$2$\x7ba\x7d$$$"
  overrides := [{ capture := some "2", equals := some "y", replacement := "z: $$ $\x7b" }]

/-- The rule set that the rule makes up. -/
def costSet : Except RuleError RuleSet := do RuleDraft.build { rules := [← costSpec.compile] }

theorem Template.checked_as_expanded_cost : ∃ r s, costSpec.compile = .ok r ∧
    RuleDraft.build { rules := [r] } = .ok s ∧
    s.rules.map (fun q => (q.templates, q.literalOutputs)) =
      [(["$2$\x7ba\x7d$$$", "z: $$ $\x7b"], ["z: $ $\x7b".toList])] ∧
    ∀ q ∈ s.rules, (∀ out ∈ q.literalOutputs, q.pattern.isMatch out = false) ∧
      ∀ template ∈ q.templates, check q.id q.pattern template = .ok () ∧
        ∀ ref ∈ refs template.toList, ∃ i, ref.Denotes q.pattern i ∧
          ∀ m : Match, ref.text? q.pattern m = (m.group? i).map (·.2) := by
  have hbuilt : costSet.toOption.map (fun s =>
        s.rules.map fun q => (q.templates, q.literalOutputs)) =
      some [(["$2$\x7ba\x7d$$$", "z: $$ $\x7b"], ["z: $ $\x7b".toList])] := by
    decide +kernel
  cases hs : costSet with
  | error cause =>
    rw [hs] at hbuilt
    contradiction
  | ok s =>
    obtain ⟨r, hr, hbuild⟩ := eq_ok_of_bind hs
    rw [hs] at hbuilt
    obtain ⟨-, haccepted, hrules⟩ := checked_as_expanded
    have hcompiled : ∀ q ∈ [r], ∃ spec : RuleSpec, spec.compile = .ok q := by
      simpa using ⟨costSpec, hr⟩
    refine ⟨r, s, hr, hbuild, Option.some.inj hbuilt, fun q hq => ?_⟩
    obtain ⟨hcheck, houtputs, -⟩ := hrules _ s hcompiled hbuild q hq
    refine ⟨houtputs, fun template ht => ⟨hcheck template ht, ?_⟩⟩
    exact (haccepted q.id q.pattern template (hcheck template ht)).1

end SourceMend
