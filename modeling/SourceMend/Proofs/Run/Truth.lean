import SourceMend.Proofs.RuleSet.Cycles
import SourceMend.Proofs.RuleSet.Validation
import SourceMend.Proofs.Run.Mended
import SourceMend.Proofs.Walk
import SourceMend.Run.Basic

/-!
A report and the disk that it reports on. If nobody else touches the disk and the files of a run
are distinct, every outcome says what became of its file: whether its bytes changed, their digests
before and after, and what a validation of the file finds now. Nothing else on the disk changes.
-/
namespace SourceMend

/-! The work on one file -/

/-- An outcome is true of a file that gives `before` when it is read before the run, and `after`
when it is read after it; `findings` are those of the report that are about the file. -/
structure FileOutcome.Truthful (o : FileOutcome) (settings : Settings) (rules : RuleSet)
    (src : SourceFile) (before after : Except Fault ByteArray) (findings : List Finding) :
    Prop where
  path : o.path = src.display
  still : o.status ≠ .modified ∨ settings.dryRun = true → after = before ∧ o.written = false
  kept : o.status = .held ∨ o.status = .unchanged → ∃ bytes, before = .ok bytes ∧
    o.sha256Before = some (Digest.ofBytes bytes).hex ∧
    o.sha256After = some (Digest.ofBytes bytes).hex
  changed : o.status = .modified → settings.dryRun = false → o.written = true ∧
    ∃ old new, before = .ok old ∧ after = .ok new ∧ old ≠ new ∧
      o.sha256Before = some (Digest.ofBytes old).hex ∧ o.sha256After = some (Digest.ofBytes new).hex
  findings : o.status ≠ .cancelled → o.status ≠ .failed → settings.dryRun = false →
    ∃ text : Text, after = .ok text.bytes ∧
      findings = rules.validate o.path text (Dialect.ofPath o.path)

section
variable {settings : Settings} {rules : RuleSet} {src : SourceFile} {content : Text}

/-- A file that was given up is as it was. -/
theorem FileOutcome.truthful_of_idle {o : FileOutcome} {before : Except Fault ByteArray}
    {findings : List Finding} (hpath : o.path = src.display) (hwritten : o.written = false)
    (hstatus : o.status = .cancelled ∨ o.status = .failed) :
    o.Truthful settings rules src before before findings where
  path := hpath
  still _ := ⟨rfl, hwritten⟩
  kept h := by rcases hstatus with h' | h' <;> simp [h'] at h
  changed h := by rcases hstatus with h' | h' <;> simp [h'] at h
  findings hc hf := by simp [hc, hf] at hstatus

namespace FilePlan

theorem status_cases (settings : Settings) (repair : Repair) (before : Text) :
    status settings repair before = .modified ∧ repair.content ≠ before ∨
      status settings repair before = .held ∨ status settings repair before = .unchanged := by
  unfold status
  split
  · exact .inr (.inl rfl)
  · split
    next hne => exact .inl ⟨rfl, hne⟩
    next => exact .inr (.inr rfl)

/-- A plan for a file with some content: it says by the status whether the content changes, and
commits a change unless the run is dry. What a commit decides is left open. -/
structure Fits (p : FilePlan) (settings : Settings) (src : SourceFile) (content : Text) : Prop where
  path : p.outcome.path = src.display
  status : p.outcome.status = .modified ∧ p.final ≠ content ∨
    (p.outcome.status = .held ∨ p.outcome.status = .unchanged) ∧ p.final = content
  commits : p.commits = true ↔ p.outcome.status = .modified ∧ settings.dryRun = false
  written : p.outcome.written = false
  before : p.outcome.sha256Before = some (Digest.ofText content).hex
  after : p.commits = false → p.outcome.sha256After = some (Digest.ofText p.final).hex

theorem make_fits (settings : Settings) (rules : RuleSet) (src : SourceFile) (content : Text) :
    (make settings rules src (.of src.path content)).Fits settings src content := by
  have hstatus := status_cases settings (rules.repair settings.maxPasses content
    (Context.ofPath src.display)) content
  refine ⟨rfl, ?status, by simp [make], rfl, rfl, ?after⟩
  case status =>
    rcases hstatus with ⟨h, hne⟩ | h | h
    · exact .inl ⟨h, by simpa [make, FileRecord.of, h] using hne⟩
    · exact .inr ⟨.inl h, by simp [make, FileRecord.of, h]⟩
    · exact .inr ⟨.inr h, by simp [make, FileRecord.of, h]⟩
  case after =>
    rcases hstatus with ⟨h, -⟩ | h | h <;> simp [make, FileRecord.of, h]

variable {p : FilePlan}

theorem Fits.final_eq (h : p.Fits settings src content) (hstatus : p.outcome.status ≠ .modified) :
    p.final = content := by
  rcases h.status with ⟨hmodified, -⟩ | ⟨-, heq⟩
  · exact absurd hmodified hstatus
  · exact heq

/-- A plan with nothing to commit tells the truth. -/
theorem Fits.done_truthful (h : p.Fits settings src content) (hcommits : p.commits = false) :
    (p.done rules).outcome.Truthful settings rules src (.ok content.bytes) (.ok content.bytes)
      (p.done rules).findings where
  path := h.path
  still _ := ⟨rfl, h.written⟩
  kept hkept := by
    have hne : p.outcome.status ≠ .modified := by
      intro heq
      rcases hkept with hkept | hkept <;> simp [done, heq] at hkept
    exact ⟨content.bytes, rfl, h.before, h.final_eq hne ▸ h.after hcommits⟩
  changed hmodified hdry := by
    have hyes := h.commits.2 ⟨hmodified, hdry⟩
    rw [hcommits] at hyes
    contradiction
  findings _ _ hdry := by
    refine ⟨p.final, ?_, rfl⟩
    rw [h.final_eq fun hmodified => ?_]
    have hyes := h.commits.2 ⟨hmodified, hdry⟩
    rw [hcommits] at hyes
    contradiction

/-- A plan that is committed tells the truth if the receipt does. -/
theorem Fits.committed_truthful (h : p.Fits settings src content) (hcommits : p.commits = true)
    {receipt : Receipt} (hreceipt : receipt.after = Digest.ofText p.final) :
    ((p.committed receipt).done rules).outcome.Truthful settings rules src (.ok content.bytes)
      (.ok p.final.bytes) ((p.committed receipt).done rules).findings := by
  obtain ⟨hmodified, hdry⟩ := h.commits.1 hcommits
  constructor
  · exact h.path
  · intro hstill
    rcases hstill with hne | hdry'
    · exact absurd hmodified hne
    · rw [hdry] at hdry'
      contradiction
  · intro hkept
    rcases hkept with hkept | hkept <;> simp [done, committed, hmodified] at hkept
  · intro _ _
    refine ⟨rfl, content.bytes, p.final.bytes, rfl, rfl, ?_, h.before, ?_⟩
    · rcases h.status with ⟨-, hne⟩ | ⟨hkept, -⟩
      · exact fun heq => hne (Text.bytes_inj.1 heq).symm
      · rcases hkept with hkept | hkept <;> simp [hkept] at hmodified
    · exact congrArg (fun digest => some digest.hex) hreceipt
  · exact fun _ _ _ => ⟨p.final, rfl, rfl⟩

end FilePlan
end

/-! The work on one file after the other -/

/-- The paths of two files lead to different keys. -/
def Disk.Apart (d : Disk) (a b : SourceFile) : Prop :=
  ∀ key ∈ (d.locate a.path).toOption, (d.locate b.path).toOption ≠ some key

instance (d : Disk) (a b : SourceFile) : Decidable (d.Apart a b) :=
  inferInstanceAs (Decidable (∀ key ∈ (d.locate a.path).toOption, _ ≠ _))

theorem Disk.Apart.ne {d : Disk} {a b : SourceFile} {key : Key} (h : d.Apart a b)
    (ha : d.locate a.path = .ok key) : d.locate b.path ≠ .ok key := by
  intro hb
  exact h key (by rw [ha]; rfl) (by rw [hb]; rfl)

/-- The results of work on some files tell the truth about the disk before and after it, and the
work has changed nothing but the files that it reports as modified. -/
structure Chronicle (settings : Settings) (rules : RuleSet) (d : Disk) (srcs : List SourceFile)
    (results : List FileResult) (d' : Disk) : Prop where
  length : results.length = srcs.length
  truthful : ∀ e ∈ srcs.zip results, e.2.outcome.Truthful settings rules e.1
    (d.readBytes e.1.path) (d'.readBytes e.1.path) e.2.findings
  about : ∀ e ∈ srcs.zip results, ∀ f ∈ e.2.findings, f.path = e.1.display
  tree : d.SameTree d'
  changes : ∀ k, d'.get? k ≠ d.get? k → settings.dryRun = false ∧
    ∃ e ∈ srcs.zip results, e.2.outcome.status = .modified ∧ d.locate e.1.path = .ok k

namespace Chronicle

variable {settings : Settings} {rules : RuleSet} {d d₁ d₂ : Disk} {src : SourceFile}
  {res : FileResult} {srcs : List SourceFile} {results : List FileResult}

theorem readBytes_eq (h : Chronicle settings rules d srcs results d₁) {path : String}
    (hpath : ∀ key, d.locate path = .ok key → ∀ s ∈ srcs, d.locate s.path ≠ .ok key) :
    d₁.readBytes path = d.readBytes path := by
  refine Disk.readBytes_congr (h.tree.locate_eq path) fun key hkey => ?_
  by_cases hsame : d₁.get? key = d.get? key
  · exact hsame
  · obtain ⟨-, e, he, -, hlocate⟩ := h.changes key hsame
    exact absurd hlocate (hpath key hkey e.1 (List.of_mem_zip he).1)

theorem nil (d : Disk) : Chronicle settings rules d [] [] d :=
  ⟨rfl, by simp, by simp, Disk.SameTree.refl d, by simp⟩

theorem cons (h : Chronicle settings rules d [src] [res] d₁)
    (hrest : Chronicle settings rules d₁ srcs results d₂) (hapart : ∀ s ∈ srcs, d.Apart src s) :
    Chronicle settings rules d (src :: srcs) (res :: results) d₂ := by
  have hhead : d₂.readBytes src.path = d₁.readBytes src.path := by
    refine hrest.readBytes_eq fun key hkey s hs => ?_
    rw [h.tree.locate_eq] at hkey ⊢
    exact (hapart s hs).ne hkey
  have htail : ∀ s ∈ srcs, d₁.readBytes s.path = d.readBytes s.path := by
    intro s hs
    refine h.readBytes_eq fun key hkey s' hs' hkey' => ?_
    obtain rfl := List.mem_singleton.1 hs'
    exact (hapart s hs).ne hkey' hkey
  constructor
  · simp [hrest.length]
  · intro e he
    rcases List.mem_cons.1 he with rfl | he
    · rw [hhead]
      exact h.truthful _ List.mem_cons_self
    · rw [← htail e.1 (List.of_mem_zip he).1]
      exact hrest.truthful e he
  · intro e he
    rcases List.mem_cons.1 he with rfl | he
    · exact h.about _ List.mem_cons_self
    · exact hrest.about e he
  · exact h.tree.trans hrest.tree
  · intro k hk
    by_cases hlater : d₂.get? k = d₁.get? k
    · rw [hlater] at hk
      obtain ⟨hdry, e, he, hmodified, hlocate⟩ := h.changes k hk
      obtain rfl := List.mem_singleton.1 he
      exact ⟨hdry, _, List.mem_cons_self, hmodified, hlocate⟩
    · obtain ⟨hdry, e, he, hmodified, hlocate⟩ := hrest.changes k hlater
      rw [h.tree.locate_eq] at hlocate
      exact ⟨hdry, e, List.mem_cons_of_mem _ he, hmodified, hlocate⟩

/-- Work that leaves the disk as it is. -/
theorem still (ht : res.outcome.Truthful settings rules src (d.readBytes src.path)
      (d.readBytes src.path) res.findings) (ha : ∀ f ∈ res.findings, f.path = src.display) :
    Chronicle settings rules d [src] [res] d :=
  ⟨rfl, by simpa using ht, by simpa using ha, Disk.SameTree.refl d, by simp⟩

end Chronicle

/-- One file, with nobody else at work. -/
theorem Disk.mend_chronicle (d : Disk) (settings : Settings) (rules : RuleSet) (device : Device)
    (id : String) (src : SourceFile) :
    Chronicle settings rules d [src] [(d.mend settings rules device id (fun _ d => d) src).1]
      (d.mend settings rules device id (fun _ d => d) src).2 := by
  have hmended := d.mended settings rules device id src
  unfold Disk.mendAlone at hmended
  generalize d.mend settings rules device id (fun _ d => d) src = out at hmended
  have hfits := FilePlan.make_fits settings rules src
  cases hmended with
  | unreadable =>
    exact .still (FileOutcome.truthful_of_idle rfl rfl (.inr rfl)) (by simp [FileResult.unreadable])
  | @still content read still =>
    refine .still ?_ fun f hf => (RuleSet.path_of_mem_validate hf).trans (hfits content).path
    rw [readText_eq_ok.1 read]
    exact (hfits content).done_truthful still
  | @refused content =>
    refine .still (FileOutcome.truthful_of_idle (hfits content).path rfl (.inr rfl)) ?_
    simp [FilePlan.failed]
  | @replaced content receipt key read commits after target file =>
    have hread : (d.put key (.file (src.plan settings rules content).final.bytes)).readBytes
        src.path = .ok (src.plan settings rules content).final.bytes := by
      refine readBytes_eq_ok.2 ⟨key, ?_, get?_put_self d _ (key_ne_nil_of_file file)⟩
      exact ((sameTree_put file _).locate_eq _).trans target
    refine ⟨rfl, ?_, ?_, sameTree_put file _, ?_⟩
    · intro e he
      obtain rfl := List.mem_singleton.1 he
      dsimp only
      rw [readText_eq_ok.1 read, hread]
      exact (hfits content).committed_truthful commits after
    · intro e he f hf
      obtain rfl := List.mem_singleton.1 he
      exact (RuleSet.path_of_mem_validate hf).trans (hfits content).path
    · intro k hk
      obtain ⟨hmodified, hdry⟩ := (hfits content).commits.1 commits
      obtain rfl : k = key := by
        by_cases heq : k = key
        · exact heq
        · exact absurd (get?_put_of_ne d _ heq) hk
      exact ⟨hdry, _, List.mem_cons_self, hmodified, target⟩

namespace Run

variable {settings : Settings} {rules : RuleSet} {d : Disk}

theorem step_chronicle {run : Run} {src : SourceFile} {rest : List SourceFile}
    (htodo : run.todo = src :: rest) (device : Device) (id : String) (stopped : Bool) :
    ∃ res disk, run.step device id (fun _ d => d) stopped =
        { run with todo := rest, results := run.results ++ [res], disk } ∧
      Chronicle run.settings run.rules run.disk [src] [res] disk := by
  unfold step
  rw [htodo]
  cases stopped with
  | true =>
    exact ⟨FileResult.cancelled src, run.disk, rfl,
      .still (FileOutcome.truthful_of_idle rfl rfl (.inl rfl)) (by simp [FileResult.cancelled])⟩
  | false => exact ⟨_, _, rfl, run.disk.mend_chronicle run.settings run.rules device id src⟩

/-- All the files of a run, each in its turn. -/
theorem steps_chronicle {around : Surroundings} (hquiet : around.interfere = fun _ d => d)
    {run : Run} (hapart : run.todo.Pairwise run.disk.Apart) :
    ∃ results disk, run.steps around run.todo.length =
        { run with todo := [], results := run.results ++ results, disk } ∧
      Chronicle run.settings run.rules run.disk run.todo results disk := by
  obtain ⟨todo, htodo⟩ : ∃ todo, run.todo = todo := ⟨_, rfl⟩
  rw [htodo] at hapart ⊢
  induction todo generalizing run with
  | nil =>
    refine ⟨[], run.disk, ?_, .nil run.disk⟩
    rw [List.length_nil, steps, List.append_nil, ← htodo]
  | cons src rest ih =>
    obtain ⟨hsrc, hrest⟩ := List.pairwise_cons.1 hapart
    obtain ⟨res, disk, hstep, hone⟩ := run.step_chronicle htodo
      (around.device run.results.length) (around.tempId run.results.length) (run.isStopped around)
    have hrest : rest.Pairwise disk.Apart := by
      refine hrest.imp fun {a b} hab => ?_
      unfold Disk.Apart at hab ⊢
      rwa [hone.tree.locate_eq, hone.tree.locate_eq]
    obtain ⟨results, last, hsteps, hmany⟩ := @ih
      { run with todo := rest, results := run.results ++ [res], disk } hrest rfl
    refine ⟨res :: results, last, ?_, hone.cons hmany hsrc⟩
    rw [List.length_cons, steps, hquiet, hstep, hsteps]
    simp

/-- The files that a run works on. -/
def sources (s : Settings) (d : Disk) : List SourceFile :=
  match entries s d with
  | .ok found => found.filterMap WalkEntry.source?
  | .error _ => []

theorem start_eq_ok {run : Run} (h : start settings rules d = .ok run) :
    run.settings = settings ∧ run.rules = rules ∧ run.todo = sources settings d ∧
      run.results = [] ∧ run.disk = d := by
  obtain ⟨-, -, h⟩ := eq_ok_of_bind h
  obtain ⟨found, hfound, h⟩ := eq_ok_of_bind h
  obtain rfl := Except.ok.inj h
  have hentries : entries settings d = .ok found := by
    cases he : entries settings d with
    | error cause => simp [he, Except.mapError] at hfound
    | ok found' => simpa [he, Except.mapError] using hfound
  unfold sources
  rw [hentries]
  exact ⟨rfl, rfl, rfl, rfl, rfl⟩

/-- No two files of a run have the same display path. -/
theorem pairwise_display_sources (s : Settings) (d : Disk) :
    (sources s d).Pairwise fun a b => a.display ≠ b.display := by
  unfold sources
  split
  next found hfound =>
    unfold entries at hfound
    obtain ⟨exclusion, -, hwalk⟩ := eq_ok_of_bind hfound
    refine List.Pairwise.filterMap _ ?_ (Walker.pairwise_display_walk hwalk)
    intro a b hab x hx y hy
    cases a <;> cases b <;>
      simp_all [WalkEntry.source?, Walker.Distinct, WalkEntry.isBlocked, WalkEntry.display]
  next => exact List.Pairwise.nil

end Run

section Pairing

variable {α β γ : Type}

theorem pairwise_zip {R : α → α → Prop} {as : List α} {bs : List β}
    (hlength : bs.length = as.length) (h : as.Pairwise R) :
    (as.zip bs).Pairwise fun a b => R a.1 b.1 := by
  rw [← List.map_fst_zip (Nat.le_of_eq hlength.symm), List.pairwise_map] at h
  exact h

theorem flatMap_zip_snd {as : List α} {bs : List β} (hlength : bs.length = as.length)
    (f : β → List γ) : (as.zip bs).flatMap (fun e => f e.2) = bs.flatMap f := by
  conv_rhs => rw [← List.map_snd_zip (Nat.le_of_eq hlength), List.flatMap_map]

/-- What is gathered under one label, if every part has its own. -/
theorem filter_flatMap_of_apart [DecidableEq γ] {l : List α} {f : α → List β}
    {label : α → γ} {mark : β → γ} (hl : l.Pairwise fun a b => label a ≠ label b)
    (hf : ∀ a ∈ l, ∀ b ∈ f a, mark b = label a) {a : α} (ha : a ∈ l) :
    (l.flatMap f).filter (fun b => mark b = label a) = f a := by
  induction l with
  | nil => contradiction
  | cons x l ih =>
    obtain ⟨hx, hl⟩ := List.pairwise_cons.1 hl
    obtain ⟨hfx, hfl⟩ := List.forall_mem_cons.1 hf
    rw [List.flatMap_cons, List.filter_append]
    rcases List.mem_cons.1 ha with rfl | ha
    · rw [List.filter_eq_self.2, List.filter_eq_nil_iff.2, List.append_nil]
      · intro b hb
        obtain ⟨y, hy, hb⟩ := List.mem_flatMap.1 hb
        simpa [hfl y hy b hb] using Ne.symm (hx y hy)
      · intro b hb
        simpa using hfx b hb
    · rw [ih hl hfl ha, List.filter_eq_nil_iff.2, List.nil_append]
      intro b hb
      simpa [hfx b hb] using hx a ha

end Pairing

/-- The findings of a chronicle that are about one of its files. -/
theorem Chronicle.findings_of {settings : Settings} {rules : RuleSet} {d d' : Disk}
    {srcs : List SourceFile} {results : List FileResult}
    (h : Chronicle settings rules d srcs results d')
    (hsrcs : srcs.Pairwise fun a b => a.display ≠ b.display) {e : SourceFile × FileResult}
    (he : e ∈ srcs.zip results) :
    (results.flatMap (·.findings)).filter (fun f => f.path = e.2.outcome.path) = e.2.findings := by
  have hzip := pairwise_zip h.length hsrcs
  rw [← flatMap_zip_snd h.length, (h.truthful e he).path]
  exact filter_flatMap_of_apart hzip h.about he

theorem runRepair_eq_ok {settings : Settings} {rules : RuleSet} {tool : ToolInfo}
    {around : Surroundings} {d d' : Disk} {report : Report}
    (h : runRepair settings rules tool around d = (.ok report, d')) :
    ∃ run, Run.start settings rules d = .ok run ∧
      report = (run.steps around run.todo.length).report tool around ∧
      d' = (run.steps around run.todo.length).disk := by
  unfold runRepair at h
  split at h
  next => simp at h
  next run hstart =>
    obtain ⟨hreport, hdisk⟩ := Prod.mk.inj h
    exact ⟨run, hstart, (Except.ok.inj hreport).symm, hdisk.symm⟩

/-- The report of a run tells the truth about the disk, if the files of the run are distinct and
nobody else touches the disk, whatever the device refuses. A run that fails leaves the disk as it
was. Otherwise there is a true outcome for every file, nothing but the files reported as modified
has changed, and nothing has been left behind. -/
theorem runRepair_truthful (settings : Settings) (rules : RuleSet) (tool : ToolInfo)
    (around : Surroundings) (d : Disk) (hquiet : around.interfere = fun _ d => d)
    (hdistinct : (Run.sources settings d).Pairwise d.Apart) :
    (∀ error d', runRepair settings rules tool around d = (.error error, d') → d' = d) ∧
    ∀ report d', runRepair settings rules tool around d = (.ok report, d') →
      report.files.length = (Run.sources settings d).length ∧
      (∀ e ∈ (Run.sources settings d).zip report.files,
        e.2.Truthful settings rules e.1 (d.readBytes e.1.path) (d'.readBytes e.1.path)
          (report.findings.filter fun f => f.path = e.2.path)) ∧
      (∀ k, d'.get? k ≠ d.get? k → settings.dryRun = false ∧
        ∃ e ∈ (Run.sources settings d).zip report.files, e.2.status = .modified ∧
          d.locate e.1.path = .ok k) ∧
      ∀ k, d.get? k = none → d'.get? k = none := by
  constructor
  · intro error d' h
    unfold runRepair at h
    split at h
    · exact (Prod.mk.inj h).2.symm
    · simp at h
  · intro report d' h
    obtain ⟨run, hstart, hreport, rfl⟩ := runRepair_eq_ok h
    obtain ⟨rfl, rfl, htodo, hresults, rfl⟩ := Run.start_eq_ok hstart
    rw [← htodo] at hdistinct ⊢
    obtain ⟨results, disk, hsteps, hchronicle⟩ := Run.steps_chronicle hquiet hdistinct
    have hdisplay := Run.pairwise_display_sources run.settings run.disk
    rw [← htodo] at hdisplay
    rw [hsteps, hresults, List.nil_append] at hreport
    obtain ⟨hfiles, hfindings⟩ : report.files = results.map (·.outcome) ∧
        report.findings = results.flatMap (·.findings) := hreport ▸ ⟨rfl, rfl⟩
    have hdisk : (run.steps around run.todo.length).disk = disk := by rw [hsteps]
    rw [hdisk, hfiles, hfindings, List.zip_map_right]
    refine ⟨by simp [hchronicle.length], ?_, ?_, ?_⟩
    · intro e hmem
      obtain ⟨e, he, rfl⟩ := List.mem_map.1 hmem
      have htrue := hchronicle.truthful e he
      rw [← hchronicle.findings_of hdisplay he] at htrue
      exact htrue
    · intro k hk
      obtain ⟨hdry, e, he, hmodified, hlocate⟩ := hchronicle.changes k hk
      exact ⟨hdry, _, List.mem_map_of_mem he, hmodified, hlocate⟩
    · intro k hnone
      have hthere := hchronicle.tree.isSome_get? k
      rwa [hnone, Option.isSome_none, Option.isSome_eq_false_iff, Option.isNone_iff_eq_none]
        at hthere

/-- Two files that a run works on, and one beside them. -/
def smallDisk : Disk where
  entries := [(["src"], .directory), (["src", "a.ts"], .file (Text.bytes "A B".toList)),
    (["src", "b.tsx"], .file (Text.bytes "C".toList)),
    (["src", "c.ts"], .file (Text.bytes "A B".toList))]

def smallSettings : Settings := { roots := ["src/a.ts", "./src/b.tsx"] }

/-- One rule swaps letters for ever, so that the first file is held, and another one changes the
second file. -/
def smallRules : RuleSet := ⟨1, [swapRule, letterRule "rename" 'C' 'D']⟩

theorem runRepair_truthful_small :
    Run.sources smallSettings smallDisk =
      [⟨"src/a.ts", "src/a.ts"⟩, ⟨"./src/b.tsx", "src/b.tsx"⟩] ∧
    (Run.sources smallSettings smallDisk).Pairwise smallDisk.Apart ∧
    ∃ held modified report d',
      runRepair smallSettings smallRules { name := "syntaxfix" } {} smallDisk = (.ok report, d') ∧
      report.files = [held, modified] ∧ held.status = .held ∧ modified.status = .modified ∧
      (d'.readBytes "src/a.ts" = .ok (Text.bytes "A B".toList) ∧ held.written = false ∧
        held.sha256Before = some (Digest.ofText "A B".toList).hex ∧
        held.sha256After = some (Digest.ofText "A B".toList).hex) ∧
      (d'.readBytes "./src/b.tsx" = .ok (Text.bytes "D".toList) ∧ modified.written = true ∧
        modified.sha256Before = some (Digest.ofText "C".toList).hex ∧
        modified.sha256After = some (Digest.ofText "D".toList).hex) ∧
      ∀ k, d'.get? k ≠ smallDisk.get? k → k = ["src", "b.tsx"] := by
  have hsources : Run.sources smallSettings smallDisk =
      [⟨"src/a.ts", "src/a.ts"⟩, ⟨"./src/b.tsx", "src/b.tsx"⟩] := by decide +kernel
  have hdistinct : (Run.sources smallSettings smallDisk).Pairwise smallDisk.Apart := by
    decide +kernel
  have hall : (runRepair smallSettings smallRules { name := "syntaxfix" } {}
        smallDisk).1.toOption.any (·.files.map (·.status) = [.held, .modified]) = true ∧
      (runRepair smallSettings smallRules { name := "syntaxfix" } {} smallDisk).2.readText
        "./src/b.tsx" = .ok "D".toList := by
    decide +kernel
  have hlocate : smallDisk.locate "src/a.ts" = .ok ["src", "a.ts"] ∧
      smallDisk.locate "./src/b.tsx" = .ok ["src", "b.tsx"] := by decide +kernel
  have hread : smallDisk.readBytes "src/a.ts" = .ok (Text.bytes "A B".toList) ∧
      smallDisk.readBytes "./src/b.tsx" = .ok (Text.bytes "C".toList) :=
    ⟨Disk.readBytes_eq_ok.2 ⟨_, hlocate.1, rfl⟩, Disk.readBytes_eq_ok.2 ⟨_, hlocate.2, rfl⟩⟩
  obtain ⟨-, hruns⟩ := runRepair_truthful smallSettings smallRules { name := "syntaxfix" } {}
    smallDisk rfl hdistinct
  refine ⟨hsources, hdistinct, ?_⟩
  obtain ⟨⟨outcome, d'⟩, hrun⟩ : ∃ out,
    runRepair smallSettings smallRules { name := "syntaxfix" } {} smallDisk = out := ⟨_, rfl⟩
  rw [hrun] at hall
  obtain ⟨hstatus, htext⟩ := hall
  cases outcome with
  | error error => contradiction
  | ok report =>
    obtain ⟨-, htruthful, hchanges, -⟩ := hruns report d' hrun
    obtain ⟨held, modified, hfiles, hheld, hmodified⟩ : ∃ held modified,
        report.files = [held, modified] ∧ held.status = .held ∧ modified.status = .modified := by
      simpa [List.map_eq_cons_iff] using of_decide_eq_true hstatus
    rw [hsources, hfiles] at htruthful hchanges
    have hfirst := htruthful _ List.mem_cons_self
    have hsecond := htruthful _ (List.mem_cons_of_mem _ List.mem_cons_self)
    obtain ⟨hsame, hidle⟩ := hfirst.still (.inl (by simp [hheld]))
    obtain ⟨bytes, hbytes, hbefore, hafter⟩ := hfirst.kept (.inl hheld)
    obtain rfl := Except.ok.inj (hread.1.symm.trans hbytes)
    obtain ⟨hwritten, old, new, hold, hnew, -, hbefore', hafter'⟩ := hsecond.changed hmodified rfl
    obtain rfl := Except.ok.inj (hread.2.symm.trans hold)
    obtain rfl : new = Text.bytes "D".toList :=
      Except.ok.inj (hnew.symm.trans (Disk.readText_eq_ok.1 htext))
    refine ⟨held, modified, report, d', hrun, hfiles, hheld, hmodified,
      ⟨hsame.trans hread.1, hidle, hbefore, hafter⟩, ⟨hnew, hwritten, hbefore', hafter'⟩,
      fun k hk => ?_⟩
    obtain ⟨-, e, he, hstatus', hkey⟩ := hchanges k hk
    rcases List.mem_cons.1 he with rfl | he
    · simp [hheld] at hstatus'
    · obtain rfl := List.mem_singleton.1 he
      exact Except.ok.inj (hkey.symm.trans hlocate.2)

end SourceMend
