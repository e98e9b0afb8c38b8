import SourceMend.CommandLine.Mend
import SourceMend.Proofs.Disk.Commit
import SourceMend.Proofs.Json.Fields
import SourceMend.Report.Decode

/-!
A report read back from the JSON that it is written as. Each record comes back from its own JSON
value, and no such value has a number with a fraction, so that the text comes back as the value.
-/
namespace SourceMend

open Json

/-! Tallies -/

/-- A name behind all others goes to the end. -/
theorem Tally.alterEntries_of_lt {key : String} (f : Option UInt64 → UInt64)
    {es : List (String × UInt64)} (h : ∀ e ∈ es, e.1 < key) :
    alterEntries key f es = es ++ [(key, f none)] := by
  induction es with
  | nil => rfl
  | cons e es ih =>
    obtain ⟨hlt, hes⟩ := List.forall_mem_cons.1 h
    have hnot : ¬ key < e.1 := fun hkey => String.lt_irrefl _ (String.lt_trans hlt hkey)
    have hne : key ≠ e.1 := fun heq => String.lt_irrefl _ (heq ▸ hlt)
    rw [alterEntries, if_neg hnot, if_neg hne, ih hes]
    rfl

/-- Entries in the order of their names are taken over as they are. -/
theorem Tally.entries_foldl_set {es : List (String × UInt64)} {t : Tally}
    (h : (t.entries ++ es).Pairwise fun a b => a.1 < b.1) :
    (es.foldl (fun t (key, n) => t.set key n) t).entries = t.entries ++ es := by
  induction es generalizing t with
  | nil => simp
  | cons e es ih =>
    have hset : (t.set e.1 e.2).entries = t.entries ++ [e] := by
      refine alterEntries_of_lt _ fun old hold => ?_
      exact (List.pairwise_append.1 h).2.2 old hold e List.mem_cons_self
    rw [List.foldl_cons, ih (by rwa [hset, List.append_assoc]), hset, List.append_assoc]
    rfl

theorem Tally.ofList_entries (t : Tally) : ofList t.entries = t := by
  have hentries : (t.entries.foldl (fun t (key, n) => t.set key n) empty).entries = t.entries :=
    entries_foldl_set (t := empty) t.sorted
  obtain ⟨es, hsorted⟩ := t
  unfold ofList
  generalize es.foldl (fun t (key, n) => t.set key n) empty = u at hentries
  obtain ⟨es', hsorted'⟩ := u
  obtain rfl : es' = es := hentries
  rfl

@[simp] theorem Tally.ofJson?_toJson (t : Tally) : Tally.ofJson? t.toJson = some t := by
  have hmembers : asMembers asUInt64 t.toJson = some t.entries :=
    mapM_map (fun e => by simp) t.entries
  rw [ofJson?, hmembers, Option.map_some, ofList_entries]

theorem Tally.eq_empty {t : Tally} (h : t.isEmpty) : t = empty := by
  obtain ⟨es, hsorted⟩ := t
  obtain rfl : es = [] := List.isEmpty_iff.1 h
  rfl

/-! Names -/

@[simp] theorem VerdictStatus.ofName?_name (s : VerdictStatus) : ofName? s.name = some s := by
  cases s <;> rfl

@[simp] theorem FileStatus.ofName?_name (s : FileStatus) : ofName? s.name = some s := by
  cases s <;> rfl

@[simp] theorem FindingClass.ofName?_name (c : FindingClass) : ofName? c.name = some c := by
  cases c <;> rfl

@[simp] theorem Severity.ofName?_name (s : Severity) : ofName? s.name = some s := by
  cases s <;> rfl

@[simp] theorem Json.asName_string {α : Type} (ofName? : String → Option α) (s : String) :
    asName ofName? (.string s) = ofName? s := rfl

/-! Records -/

attribute [local simp] Fields.required Fields.withDefault optional_eq

@[simp] theorem Location.ofJson?_toJson (l : Location) : Location.ofJson? l.toJson = some l := by
  simp [ofJson?, toJson]

@[simp] theorem Finding.ofJson?_toJson (f : Finding) : Finding.ofJson? f.toJson = some f := by
  simp [ofJson?, toJson]

@[simp] theorem Convergence.ofJson?_toJson (c : Convergence) :
    Convergence.ofJson? c.toJson = some c := by
  cases c <;> simp [ofJson?, ofJson?.settled, toJson]

@[simp] theorem FileOutcome.ofJson?_toJson (f : FileOutcome) :
    FileOutcome.ofJson? f.toJson = some f := by
  by_cases hfires : f.fires.isEmpty
  · have hempty : f.fires = Tally.empty := Tally.eq_empty hfires
    simp [ofJson?, toJson, hfires, ← hempty]
  · simp [ofJson?, toJson, hfires]

@[simp] theorem ToolInfo.ofJson?_toJson (t : ToolInfo) : ToolInfo.ofJson? t.toJson = some t := by
  simp [ofJson?, toJson]

@[simp] theorem RunInfo.ofJson?_toJson (r : RunInfo) : RunInfo.ofJson? r.toJson = some r := by
  simp [ofJson?, toJson]

@[simp] theorem Verdict.ofJson?_toJson (v : Verdict) : Verdict.ofJson? v.toJson = some v := by
  by_cases hreasons : v.reasons.isEmpty
  · have hnil : v.reasons = [] := List.isEmpty_iff.1 hreasons
    simp [ofJson?, toJson, hreasons, ← hnil]
  · simp [ofJson?, toJson, hreasons]

@[simp] theorem Summary.ofJson?_toJson (s : Summary) : Summary.ofJson? s.toJson = some s := by
  simp [ofJson?, toJson]

@[simp] theorem SkippedPath.ofJson?_toJson (s : SkippedPath) :
    SkippedPath.ofJson? s.toJson = some s := by
  simp [ofJson?, toJson]

theorem Report.ofJson?_toJson (r : Report) : Report.ofJson? r.toJson = some r := by
  simp [ofJson?, toJson, asList_array]

/-! Texts -/

@[simp] theorem Tally.exact_toJson (t : Tally) : Exact t.toJson := by
  exact .object (List.forall_mem_map.2 fun e _ => exact_uint64 e.2)

@[simp] theorem Finding.exact_toJson (f : Finding) : Exact f.toJson := by
  simp [toJson, Location.toJson]

@[simp] theorem Convergence.exact_toJson (c : Convergence) : Exact c.toJson := by
  cases c <;> simp [toJson]

@[simp] theorem FileOutcome.exact_toJson (f : FileOutcome) : Exact f.toJson := by
  by_cases hfires : f.fires.isEmpty <;> simp [toJson, hfires]

@[simp] theorem ToolInfo.exact_toJson (t : ToolInfo) : Exact t.toJson := by
  simp [toJson]

@[simp] theorem RunInfo.exact_toJson (r : RunInfo) : Exact r.toJson := by
  simp [toJson]

@[simp] theorem Verdict.exact_toJson (v : Verdict) : Exact v.toJson := by
  by_cases hreasons : v.reasons.isEmpty <;> simp [toJson, hreasons]

@[simp] theorem Summary.exact_toJson (s : Summary) : Exact s.toJson := by
  simp [toJson]

@[simp] theorem SkippedPath.exact_toJson (s : SkippedPath) : Exact s.toJson := by
  simp [toJson]

theorem Report.exact_toJson (r : Report) : Exact r.toJson := by
  simp [toJson, exact_array_map]

/-- The text of a report is read back as the report, also with blanks behind it. -/
theorem Report.parse?_toJsonString_append (r : Report) {blanks : String}
    (hblanks : Reader.skipBlank blanks.toList = []) :
    parse? (r.toJsonString ++ blanks) = some r := by
  rw [parse?, toJsonString, String.toList_append, parse?_toPrettyString r.exact_toJson hblanks]
  exact ofJson?_toJson r

/-- A report that was written to a file is there to be read. -/
theorem Report.readText_of_writeArtifacts {r : Report} {path : String} {d d' : Disk}
    (h : r.writeArtifacts (some path) none d = (.ok (), d')) :
    d'.readText path = .ok r.toJsonString.toList := by
  have hdeliver : d.deliver path r.toJsonString.toUTF8 = (.ok (), d') := by
    unfold writeArtifacts deliver? at h
    grind
  obtain ⟨made, hwrite⟩ : ∃ made : Disk, made.writeFile path r.toJsonString.toUTF8 = .ok d' := by
    unfold Disk.deliver at hdeliver
    grind
  obtain ⟨key, hlocate, hfolder, rfl⟩ := Disk.writeFile_eq_ok.1 hwrite
  have hkey : key ≠ [] := by
    rintro rfl
    exact hfolder (Disk.get?_nil made)
  refine Disk.readText_eq_ok.2 (Disk.readBytes_eq_ok.2 ⟨key, ?_, ?_⟩)
  · refine (Disk.sameExcept_put made key _).locate ?_ hlocate
    simpa using hfolder
  · rw [Disk.get?_put_self made _ hkey, Text.bytes, String.ofList_toList]

/-- The JSON form of a report loses nothing: the report comes back from its text, from what the
command prints, and from the file that it writes. -/
theorem Report.read_back (r : Report) (o : CommandLine.Mend.Options) :
    parse? r.toJsonString = some r ∧
    parse? (CommandLine.Mend.printReport { o with format := .json } r) = some r ∧
    ∀ path d d', r.writeArtifacts (some path) none d = (.ok (), d') →
      ∃ t, d'.readText path = .ok t ∧ parse? (String.ofList t) = some r := by
  have htext : parse? r.toJsonString = some r := by
    rw [← String.append_empty (s := r.toJsonString)]
    exact parse?_toJsonString_append r rfl
  refine ⟨htext, parse?_toJsonString_append r (by decide), ?_⟩
  intro path d d' hwrite
  refine ⟨_, readText_of_writeArtifacts hwrite, ?_⟩
  rw [String.ofList_toList]
  exact htext

/-- A report with a control character, a quote and a file that swings between two contents. -/
def Report.swinging : Report where
  schema := schemaName
  tool := { name := "syntaxfix" }
  run := {
    runId := "run \x01"
    startedAt := "2024-01-01T00:00:00Z"
    durationMs := some 5
    maxPasses := 2
    rulesetVersion := 1
    rulesLoaded := 3 }
  files := [{ path := "a \"b\".rs", status := .held, convergence := .oscillating 2 }]

theorem Report.read_back_swinging :
    (Report.swinging.writeArtifacts (some "report.json") none .empty).1 = .ok () ∧
    ∃ t,
      (Report.swinging.writeArtifacts (some "report.json") none .empty).2.readText "report.json" =
        .ok t ∧ parse? (String.ofList t) = some Report.swinging := by
  have hwrite : (Report.swinging.writeArtifacts (some "report.json") none .empty).1 = .ok () := by
    decide +kernel
  exact ⟨hwrite, (read_back .swinging {}).2.2 _ _ _ (Prod.ext hwrite rfl)⟩

end SourceMend
