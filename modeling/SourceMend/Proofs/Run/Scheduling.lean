import SourceMend.Proofs.RuleSet.Cycles
import SourceMend.Proofs.Run.Crew
import SourceMend.Proofs.Run.Sources

/-!
The order of turns does not matter. Every job has entries of its own: its target, and a temporary
file that is not there before. It reads and writes no others, and no other job has the same. So a
job finds at every turn what it would find if it were alone, whatever turns come in between.
-/
namespace SourceMend

/-- Each temporary file has a mark of its own, without dots and slashes. -/
structure Marked (jobs : List Job) : Prop where
  apart : jobs.Pairwise fun a b => a.id ≠ b.id
  plain : ∀ job ∈ jobs, '/' ∉ job.id.toList ∧ '.' ∉ job.id.toList

/-- The entries of a job: the file itself, and its temporary file if that is new. -/
inductive Job.Owns (d : Disk) (job : Job) (k : Key) : Prop
  | target (locate : d.locate job.source.path = .ok k)
  | temp {folder : Key} {name : Text} (lies : d.LiesIn job.source.path folder name)
    (locate : d.locate (tempPath job.source.path job.id) = .ok k) (absent : d.get? k = none)

/-- Jobs that have nothing in common: their files are distinct, and the marks of their temporary
files too. -/
structure Distinct (d : Disk) (jobs : List Job) : Prop where
  sourced : ∀ job ∈ jobs, job.source.Sourced d
  apart : jobs.Pairwise fun a b => d.Apart a.source b.source
  marked : Marked jobs

section
variable {d : Disk} {job job' : Job} {jobs : List Job} {k : Key}

/-- What a job owns is no directory. -/
theorem Job.Owns.not_folder (h : job.Owns d k) (hsourced : job.source.Sourced d) :
    d.get? k ≠ some .directory := by
  cases h with
  | target locate =>
    obtain ⟨bytes, hfile⟩ := hsourced.file_of_locate locate
    simp [hfile]
  | temp lies locate absent => simp [absent]

theorem Job.Owns.apart (h : job.Owns d k) (h' : job'.Owns d k) (hsourced : job.source.Sourced d)
    (hsourced' : job'.source.Sourced d) (hapart : d.Apart job.source job'.source)
    (hid : job.id ≠ job'.id) (hplain : '/' ∉ job.id.toList ∧ '.' ∉ job.id.toList)
    (hplain' : '/' ∉ job'.id.toList ∧ '.' ∉ job'.id.toList) : False := by
  cases h with
  | target locate =>
    cases h' with
    | target locate' => exact hapart.ne locate locate'
    | temp lies' locate' absent' =>
      obtain ⟨bytes, hfile⟩ := hsourced.file_of_locate locate
      simp [absent'] at hfile
  | temp lies locate absent =>
    cases h' with
    | target locate' =>
      obtain ⟨bytes, hfile⟩ := hsourced'.file_of_locate locate'
      simp [absent] at hfile
    | temp lies' locate' absent' =>
      exact hid (lies.id_eq_of_locate lies' hplain hplain' locate locate')

/-- No two jobs own the same entry. -/
theorem Distinct.owner_unique (h : Distinct d jobs) {i j : Nat} (hi : jobs[i]? = some job)
    (hj : jobs[j]? = some job') (hk : job.Owns d k) (hk' : job'.Owns d k) : i = j := by
  obtain ⟨hlti, rfl⟩ := List.getElem?_eq_some_iff.1 hi
  obtain ⟨hltj, rfl⟩ := List.getElem?_eq_some_iff.1 hj
  have hsourced := h.sourced _ (List.getElem_mem hlti)
  have hsourced' := h.sourced _ (List.getElem_mem hltj)
  have hplain := h.marked.plain _ (List.getElem_mem hlti)
  have hplain' := h.marked.plain _ (List.getElem_mem hltj)
  have hapart := List.pairwise_iff_getElem.1 h.apart
  have hids := List.pairwise_iff_getElem.1 h.marked.apart
  rcases Nat.lt_trichotomy i j with hlt | heq | hlt
  · exact (hk.apart hk' hsourced hsourced' (hapart i j hlti hltj hlt) (hids i j hlti hltj hlt)
      hplain hplain').elim
  · exact heq
  · exact (hk'.apart hk hsourced' hsourced (hapart j i hltj hlti hlt) (hids j i hltj hlti hlt)
      hplain' hplain).elim

end

/-! One job -/

/-- How far a job can come when it is alone on a disk, and the disk then. It is given up only if
the run is `off`. -/
inductive Reached (settings : Settings) (rules : RuleSet) (d : Disk) (job : Job) (off : Prop) :
    Progress → Disk → Prop
  | waiting : Reached settings rules d job off .waiting d
  | begun : Reached settings rules d job off .begun d
  | planned {content : Text} (read : d.readText job.source.path = .ok content)
    (commits : (job.source.plan settings rules content).commits = true) :
    Reached settings rules d job off (.planned (job.source.plan settings rules content)) d
  | staged {content : Text} {w : StagedWrite} {s : Disk}
    (read : d.readText job.source.path = .ok content)
    (commits : (job.source.plan settings rules content).commits = true)
    (stage : d.stage job.device job.id (.of job.source.path content)
      (job.source.plan settings rules content).final = (.ok w, s)) :
    Reached settings rules d job off (.staged (job.source.plan settings rules content) w) s
  | checked {content : Text} {w : StagedWrite} {s : Disk}
    (read : d.readText job.source.path = .ok content)
    (commits : (job.source.plan settings rules content).commits = true)
    (stage : d.stage job.device job.id (.of job.source.path content)
      (job.source.plan settings rules content).final = (.ok w, s))
    (inspects : job.device.inspects w = .ok ()) :
    Reached settings rules d job off (.checked (job.source.plan settings rules content) w) s
  | refused {content : Text} {w : StagedWrite} {s : Disk} {cause : CommitError}
    (read : d.readText job.source.path = .ok content)
    (commits : (job.source.plan settings rules content).commits = true)
    (stage : d.stage job.device job.id (.of job.source.path content)
      (job.source.plan settings rules content).final = (.ok w, s))
    (publishes : job.device.publishes w = .error cause) :
    Reached settings rules d job off (.refused (job.source.plan settings rules content) w cause) s
  | cancelled (h : off) : Reached settings rules d job off (.finished (.cancelled job.source)) d
  | mended {out : FileResult × Disk}
    (mended : d.mendAlone settings rules job.device job.id job.source = out) :
    Reached settings rules d job off (.finished out.1) out.2

/-- What a job sees of a disk `e` on which other jobs are at work too is its own disk `s`. -/
structure Beside (d : Disk) (job : Job) (s e : Disk) : Prop where
  ground : e.toGround = d.toGround
  folders : ∀ k, d.get? k = some .directory → e.get? k = some .directory
  present : ∀ k, (d.get? k).isSome → (e.get? k).isSome
  same : ∀ k, job.Owns d k → e.get? k = s.get? k

section
variable {settings : Settings} {rules : RuleSet} {d s e : Disk} {job : Job} {off : Prop}
  {p : Progress} {k : Key}

/-- Nothing that was there vanishes. -/
theorem Reached.present (h : Reached settings rules d job off p s) (hk : (d.get? k).isSome) :
    (s.get? k).isSome := by
  have hstaged {content final : Text} {w : StagedWrite} (stage : d.stage job.device job.id
      (.of job.source.path content) final = (.ok w, s)) : (s.get? k).isSome := by
    obtain ⟨-, -, key, -, hnone, rfl⟩ := Disk.stage_eq_ok.1 stage
    rw [Disk.get?_put_of_ne]
    · exact hk
    · rintro rfl
      simp [hnone] at hk
  cases h with
  | waiting | begun | planned | cancelled => exact hk
  | staged _ _ stage | checked _ _ stage | refused _ _ stage => exact hstaged stage
  | mended h =>
    have hframe := (d.mended settings rules job.device job.id job.source).frame.1
    rw [h] at hframe
    rwa [hframe.isSome_get?]

theorem Reached.of_done (h : Reached settings rules d job off p s) {result : FileResult}
    (hresult : p.result? = some result) :
    off ∧ result = .cancelled job.source ∧ s = d ∨
      d.mendAlone settings rules job.device job.id job.source = (result, s) := by
  cases h with
  | waiting | begun | planned | staged | checked | refused => contradiction
  | cancelled hoff => exact .inl ⟨hoff, (Option.some.inj hresult).symm, rfl⟩
  | mended hout =>
    obtain rfl := Option.some.inj hresult
    exact .inr hout

namespace Beside

theorem locate_source (h : Beside d job s e) (hsourced : job.source.Sourced d) :
    e.locate job.source.path = d.locate job.source.path := by
  cases hsourced with
  | file target => rw [target, Disk.locate_of_folders h.ground target h.folders]
  | refused check => simp [Disk.locate, check]

theorem locate_temp (h : Beside d job s e) {folder : Key} {name : Text}
    (hlies : d.LiesIn job.source.path folder name) (hid : '/' ∉ job.id.toList) :
    e.locate (tempPath job.source.path job.id) = d.locate (tempPath job.source.path job.id) := by
  rw [hlies.locate_tempPath hid, (hlies.mono h.ground h.folders).locate_tempPath hid]

theorem readText_source (h : Beside d job d e) (hsourced : job.source.Sourced d) :
    e.readText job.source.path = d.readText job.source.path := by
  unfold Disk.readText
  rw [Disk.readBytes_congr (h.locate_source hsourced) fun key hkey => h.same key (.target hkey)]

end Beside

/-! A staged write -/

/-- What a job stages for a file with some content. -/
abbrev Job.write (job : Job) (content final : Text) : StagedWrite :=
  (FileRecord.of job.source.path content).staged job.id final

/-- Where the files of a staged write lie. -/
structure Moored (d : Disk) (job : Job) (content : Text) (key tempKey : Key) : Prop where
  target : d.locate job.source.path = .ok key
  file : d.get? key = some (.file content.bytes)
  lies : ∃ folder name, d.LiesIn job.source.path folder name
  temp : d.locate (tempPath job.source.path job.id) = .ok tempKey
  absent : d.get? tempKey = none

theorem exists_moored (hd : d.WellFormed) {content final : Text} {w : StagedWrite}
    (hread : d.readText job.source.path = .ok content)
    (hstage : d.stage job.device job.id (.of job.source.path content) final = (.ok w, s)) :
    ∃ key tempKey, Moored d job content key tempKey ∧
      w = job.write content final ∧
      s = d.put tempKey (.file final.bytes) := by
  obtain ⟨-, rfl, tempKey, htemp, hnone, rfl⟩ := Disk.stage_eq_ok.1 hstage
  obtain ⟨key, hkey, hfile⟩ := Disk.readBytes_eq_ok.1 (Disk.readText_eq_ok.1 hread)
  obtain ⟨folder, name, hlies, -⟩ := hd.liesIn hkey hfile
  exact ⟨key, tempKey, ⟨hkey, hfile, ⟨folder, name, hlies⟩, htemp, hnone⟩, rfl, rfl⟩

/-- A job has come as far on the disk of a crew as it could have come alone. -/
def Aligned (settings : Settings) (rules : RuleSet) (d : Disk) (job : Job) (off : Prop)
    (p : Progress) (e : Disk) : Prop :=
  ∃ s, Reached settings rules d job off p s ∧ ∀ k, job.Owns d k → e.get? k = s.get? k

/-- A step of a job on the disk of a crew is a step that it could take alone, and touches only what
the job owns. -/
structure Advance (settings : Settings) (rules : RuleSet) (d : Disk) (job : Job) (off : Prop)
    (e : Disk) (out : Progress × Disk) : Prop where
  aligned : Aligned settings rules d job off out.1 out.2
  rest : ∀ k, ¬ job.Owns d k → out.2.get? k = e.get? k
  ground : out.2.toGround = e.toGround

theorem Beside.advance_of_still (hb : Beside d job s e)
    (h : Reached settings rules d job off p s) : Advance settings rules d job off e (p, e) :=
  ⟨⟨s, h, hb.same⟩, fun _ _ => rfl, rfl⟩

namespace Moored

variable {content final : Text} {key tempKey : Key} {w : StagedWrite}

theorem ne (hm : Moored d job content key tempKey) : key ≠ tempKey := by
  rintro rfl
  have := hm.file
  simp [hm.absent] at this

theorem owns_temp (hm : Moored d job content key tempKey) : job.Owns d tempKey := by
  obtain ⟨folder, name, hlies⟩ := hm.lies
  exact .temp hlies hm.temp hm.absent

theorem ne_of_not_owns (hm : Moored d job content key tempKey) (hk : ¬ job.Owns d k) :
    k ≠ key ∧ k ≠ tempKey := by
  constructor
  · rintro rfl
    exact hk (.target hm.target)
  · rintro rfl
    exact hk hm.owns_temp

/-- On its own disk the device decides on a write that is staged. -/
theorem mendAlone (hm : Moored d job content key tempKey)
    (commits : (job.source.plan settings rules content).commits = true)
    (stage : d.stage job.device job.id (.of job.source.path content)
      (job.source.plan settings rules content).final = (.ok w, s)) :
    d.mendAlone settings rules job.device job.id job.source =
      match job.device.publishes w with
      | .error cause => ((job.source.plan settings rules content).failed cause, d)
      | .ok receipt => (((job.source.plan settings rules content).committed receipt).done rules,
          d.put key (.file (job.source.plan settings rules content).final.bytes)) := by
  have hread : d.readText job.source.path = .ok content :=
    Disk.readText_eq_ok.2 (Disk.readBytes_eq_ok.2 ⟨key, hm.target, hm.file⟩)
  rw [Disk.mendAlone_of_commits hread commits, Disk.commit_eq hm.target hm.file, stage]
  dsimp only
  cases job.device.publishes w <;> rfl

/-- While a write is staged, the target is still as it was read. -/
theorem fileAt_target (hm : Moored d job content key tempKey)
    (hb : Beside d job (d.put tempKey (.file final.bytes)) e)
    (hsourced : job.source.Sourced d) :
    e.fileAt job.source.path = .ok (key, content.bytes) := by
  refine Disk.fileAt_eq_ok.2 ⟨(hb.locate_source hsourced).trans hm.target, ?_⟩
  rw [hb.same key (.target hm.target), Disk.get?_put_of_ne _ _ hm.ne, hm.file]

/-- While a write is staged, the temporary file has the new content. -/
theorem fileAt_temp (hm : Moored d job content key tempKey)
    (hb : Beside d job (d.put tempKey (.file final.bytes)) e) (hid : '/' ∉ job.id.toList) :
    e.fileAt (tempPath job.source.path job.id) = .ok (tempKey, final.bytes) := by
  obtain ⟨folder, name, hlies⟩ := hm.lies
  refine Disk.fileAt_eq_ok.2 ⟨(hb.locate_temp hlies hid).trans hm.temp, ?_⟩
  rw [hb.same tempKey hm.owns_temp, Disk.get?_put_self _ _ (Disk.key_ne_nil_of_none hm.absent)]

theorem inspect_eq (hm : Moored d job content key tempKey)
    (hb : Beside d job (d.put tempKey (.file final.bytes)) e) (hsourced : job.source.Sourced d) :
    e.inspect job.device (job.write content final) =
      job.device.inspects (job.write content final) := by
  have htarget : e.fileAt (job.write content final).target = .ok (key, content.bytes) :=
    hm.fileAt_target hb hsourced
  exact Disk.inspect_of_file htarget rfl

theorem install_eq (hm : Moored d job content key tempKey)
    (hb : Beside d job (d.put tempKey (.file final.bytes)) e) (hsourced : job.source.Sourced d)
    (hid : '/' ∉ job.id.toList) :
    e.install job.device (job.write content final) =
      (job.device.installs (job.write content final)).map fun () =>
        (e.erase tempKey).put key (.file final.bytes) := by
  have htarget : e.fileAt (job.write content final).target = .ok (key, content.bytes) :=
    hm.fileAt_target hb hsourced
  have htemp : e.fileAt (job.write content final).temp = .ok (tempKey, final.bytes) :=
    hm.fileAt_temp hb hid
  exact Disk.install_of_files htarget htemp

theorem discard_eq (hm : Moored d job content key tempKey)
    (hb : Beside d job (d.put tempKey (.file final.bytes)) e) (hid : '/' ∉ job.id.toList) :
    e.discard (job.write content final) = e.erase tempKey := by
  have htemp : e.fileAt (job.write content final).temp = .ok (tempKey, final.bytes) :=
    hm.fileAt_temp hb hid
  exact Disk.discard_of_file htemp

end Moored

namespace Advance

theorem begun (hb : Beside d job d e) (hsourced : job.source.Sourced d) (stopped : Bool) :
    Advance settings rules d job off e (job.step settings rules stopped e .begun) := by
  dsimp only [Job.step, Disk.readRecord]
  rw [hb.readText_source hsourced]
  cases hread : d.readText job.source.path with
  | error fault => exact hb.advance_of_still (.mended (Disk.mendAlone_of_error hread))
  | ok content =>
    show Advance settings rules d job off e
      (if (job.source.plan settings rules content).commits then
        .planned (job.source.plan settings rules content)
      else .finished ((job.source.plan settings rules content).done rules), e)
    cases hcommits : (job.source.plan settings rules content).commits with
    | false => exact hb.advance_of_still (.mended (Disk.mend_of_still hread hcommits _))
    | true => exact hb.advance_of_still (.planned hread hcommits)

section
variable {content : Text} (hd : d.WellFormed) (hid : '/' ∉ job.id.toList)
  (read : d.readText job.source.path = .ok content)
  (commits : (job.source.plan settings rules content).commits = true)
include hd hid read commits

theorem planned (hb : Beside d job d e) (stopped : Bool) :
    Advance settings rules d job off e
      (job.step settings rules stopped e (.planned (job.source.plan settings rules content))) := by
  have hsame : (e.stage job.device job.id (.of job.source.path content)
      (job.source.plan settings rules content).final).1 =
      (d.stage job.device job.id (.of job.source.path content)
        (job.source.plan settings rules content).final).1 := by
    obtain ⟨key, hkey, hfile⟩ := Disk.readBytes_eq_ok.1 (Disk.readText_eq_ok.1 read)
    obtain ⟨folder, name, hlies, -⟩ := hd.liesIn hkey hfile
    refine @Disk.stage_congr d e job.device job.id (.of job.source.path content)
      (hb.locate_temp hlies hid) (fun tempKey htemp => ?_) _
    cases hthere : d.get? tempKey with
    | none => rw [hb.same tempKey (.temp hlies htemp hthere), hthere]
    | some entry => exact hb.present tempKey (by rw [hthere]; rfl)
  dsimp only [Job.step, SourceFile.record_plan]
  cases hstage : d.stage job.device job.id (.of job.source.path content)
      (job.source.plan settings rules content).final with
  | mk outcome s =>
    cases hestage : e.stage job.device job.id (.of job.source.path content)
        (job.source.plan settings rules content).final with
    | mk outcome' f =>
      rw [hstage, hestage] at hsame
      obtain rfl : outcome' = outcome := hsame
      cases outcome' with
      | error cause =>
        have halone : d.mendAlone settings rules job.device job.id job.source =
            ((job.source.plan settings rules content).failed cause, d) := by
          rw [Disk.mendAlone_of_commits read commits, Disk.commit_of_stage_error hstage]
          dsimp only [FilePlan.afterCommit]
        rw [Disk.stage_eq_error hestage]
        exact hb.advance_of_still (.mended halone)
      | ok w =>
        obtain ⟨key, tempKey, hm, rfl, rfl⟩ := exists_moored hd read hstage
        obtain ⟨-, -, tempKey', htemp', -, rfl⟩ := Disk.stage_eq_ok.1 hestage
        obtain ⟨folder, name, hlies⟩ := hm.lies
        obtain rfl : tempKey' = tempKey :=
          Except.ok.inj (htemp'.symm.trans ((hb.locate_temp hlies hid).trans hm.temp))
        have htemp := Disk.key_ne_nil_of_none hm.absent
        refine ⟨⟨_, .staged read commits hstage, fun k hk => ?_⟩, fun k hk => ?_, rfl⟩
        · by_cases heq : k = tempKey'
          · rw [heq, Disk.get?_put_self _ _ htemp, Disk.get?_put_self _ _ htemp]
          · rw [Disk.get?_put_of_ne _ _ heq, Disk.get?_put_of_ne _ _ heq, hb.same k hk]
        · exact Disk.get?_put_of_ne _ _ (hm.ne_of_not_owns hk).2

variable {w : StagedWrite} (stage : d.stage job.device job.id (.of job.source.path content)
  (job.source.plan settings rules content).final = (.ok w, s))
include stage

omit hid in
theorem staged (hb : Beside d job s e) (hsourced : job.source.Sourced d) (stopped : Bool) :
    Advance settings rules d job off e
      (job.step settings rules stopped e (.staged (job.source.plan settings rules content) w)) := by
  obtain ⟨key, tempKey, hm, rfl, rfl⟩ := exists_moored hd read stage
  dsimp only [Job.step]
  rw [hm.inspect_eq hb hsourced]
  cases hinspects : job.device.inspects
      (job.write content (job.source.plan settings rules content).final) with
  | error cause =>
    refine hb.advance_of_still (.refused read commits stage ?_)
    rw [Device.publishes, hinspects]
  | ok => exact hb.advance_of_still (.checked read commits stage hinspects)

theorem checked (hb : Beside d job s e) (hsourced : job.source.Sourced d)
    (hinspects : job.device.inspects w = .ok ()) (stopped : Bool) :
    Advance settings rules d job off e
      (job.step settings rules stopped e
        (.checked (job.source.plan settings rules content) w)) := by
  obtain ⟨key, tempKey, hm, rfl, rfl⟩ := exists_moored hd read stage
  have halone := hm.mendAlone commits stage
  dsimp only [Job.step]
  rw [hm.install_eq hb hsourced hid]
  cases hinstalls : job.device.installs
      (job.write content (job.source.plan settings rules content).final) with
  | error fault =>
    refine hb.advance_of_still (.refused read commits stage ?_)
    rw [Device.publishes, hinspects, hinstalls]
  | ok =>
    simp only [Device.publishes, hinspects, hinstalls] at halone
    dsimp only [Except.map]
    refine ⟨⟨_, .mended halone, fun k hk => ?_⟩, fun k hk => ?_, rfl⟩
    · by_cases hkey : k = key
      · have hne := Disk.key_ne_nil_of_file hm.file
        rw [hkey, Disk.get?_put_self _ _ hne, Disk.get?_put_self _ _ hne]
      · rw [Disk.get?_put_of_ne _ _ hkey, Disk.get?_put_of_ne _ _ hkey]
        by_cases htemp : k = tempKey
        · rw [htemp, Disk.get?_erase_self _ (Disk.key_ne_nil_of_none hm.absent), hm.absent]
        · rw [Disk.get?_erase_of_ne _ htemp, hb.same k hk, Disk.get?_put_of_ne _ _ htemp]
    · obtain ⟨hkey, htemp⟩ := hm.ne_of_not_owns hk
      exact (Disk.get?_put_of_ne _ _ hkey).trans (Disk.get?_erase_of_ne _ htemp)

theorem refused (hb : Beside d job s e) {cause : CommitError}
    (hpublishes : job.device.publishes w = .error cause) (stopped : Bool) :
    Advance settings rules d job off e (job.step settings rules stopped e
      (.refused (job.source.plan settings rules content) w cause)) := by
  obtain ⟨key, tempKey, hm, rfl, rfl⟩ := exists_moored hd read stage
  have halone := hm.mendAlone commits stage
  rw [hpublishes] at halone
  dsimp only [Job.step]
  rw [hm.discard_eq hb hid]
  refine ⟨⟨_, .mended halone, fun k hk => ?_⟩, fun k hk => ?_, rfl⟩
  · by_cases htemp : k = tempKey
    · rw [htemp, Disk.get?_erase_self _ (Disk.key_ne_nil_of_none hm.absent), hm.absent]
    · rw [Disk.get?_erase_of_ne _ htemp, hb.same k hk, Disk.get?_put_of_ne _ _ htemp]
  · exact Disk.get?_erase_of_ne _ (hm.ne_of_not_owns hk).2

end
end Advance

/-- What a job makes of the disk of a crew is what it makes of its own disk, and it touches only
what it owns. -/
theorem Reached.advance (hd : d.WellFormed) (hsourced : job.source.Sourced d)
    (hid : '/' ∉ job.id.toList) {stopped : Bool} (hoff : stopped = true → off)
    (h : Reached settings rules d job off p s) (hb : Beside d job s e) :
    Advance settings rules d job off e (job.step settings rules stopped e p) := by
  cases h with
  | waiting =>
    cases stopped with
    | true => exact hb.advance_of_still (.cancelled (hoff rfl))
    | false => exact hb.advance_of_still .begun
  | begun => exact .begun hb hsourced stopped
  | planned read commits => exact .planned hd hid read commits hb stopped
  | staged read commits stage => exact .staged hd read commits stage hb hsourced stopped
  | checked read commits stage inspects =>
    exact .checked hd hid read commits stage hb hsourced inspects stopped
  | refused read commits stage publishes =>
    exact .refused hd hid read commits stage hb publishes stopped
  | cancelled h => exact hb.advance_of_still (.cancelled h)
  | mended h => exact hb.advance_of_still (.mended h)

end

/-! All jobs -/

/-- Every job has come as far as it could have come alone, and what no job owns is as it was. -/
structure Crew.Sound (settings : Settings) (rules : RuleSet) (d : Disk) (jobs : List Job)
    (off : Prop) (crew : Crew) : Prop where
  map_job : crew.posts.map Post.job = jobs
  aligned : ∀ post ∈ crew.posts,
    Aligned settings rules d post.job off post.progress crew.disk
  rest : ∀ k, (∀ job ∈ jobs, ¬ job.Owns d k) → crew.disk.get? k = d.get? k
  ground : crew.disk.toGround = d.toGround

namespace Crew.Sound

variable {settings : Settings} {rules : RuleSet} {d : Disk} {jobs : List Job} {off : Prop}
  {crew : Crew} {post : Post}

theorem job_mem (h : crew.Sound settings rules d jobs off) (hpost : post ∈ crew.posts) :
    post.job ∈ jobs :=
  h.map_job ▸ List.mem_map_of_mem hpost

theorem exists_post (h : crew.Sound settings rules d jobs off) {job : Job} (hjob : job ∈ jobs) :
    ∃ post ∈ crew.posts, post.job = job := by
  rw [← h.map_job] at hjob
  exact List.mem_map.1 hjob

theorem beside (h : crew.Sound settings rules d jobs off) (hjobs : Distinct d jobs)
    {job : Job} {s : Disk} (hsame : ∀ k, job.Owns d k → crew.disk.get? k = s.get? k) :
    Beside d job s crew.disk where
  ground := h.ground
  folders k hk := by
    rw [h.rest k fun job hjob howns => howns.not_folder (hjobs.sourced job hjob) hk, hk]
  present k hk := by
    by_cases howned : ∃ job ∈ jobs, job.Owns d k
    · obtain ⟨job, hjob, howns⟩ := howned
      obtain ⟨post, hpost, rfl⟩ := h.exists_post hjob
      obtain ⟨s, hreached, hs⟩ := h.aligned post hpost
      rw [hs k howns]
      exact hreached.present hk
    · rwa [h.rest k fun job hjob howns => howned ⟨job, hjob, howns⟩]
  same := hsame

theorem step (h : crew.Sound settings rules d jobs off) (hd : d.WellFormed)
    (hjobs : Distinct d jobs) {turn : Turn} (hoff : turn.stopped = true → off) :
    (crew.step settings rules turn).Sound settings rules d jobs off := by
  cases hturn : crew.posts[turn.post]? with
  | none => rwa [step_of_none hturn]
  | some post =>
    have hpost := List.mem_of_getElem? hturn
    have hjob := h.job_mem hpost
    obtain ⟨s, hreached, hsame⟩ := h.aligned post hpost
    have hadvance := hreached.advance hd (hjobs.sourced _ hjob) (hjobs.marked.plain _ hjob).1 hoff
      (h.beside hjobs hsame)
    have hnth {i : Nat} {q : Post} (hq : crew.posts[i]? = some q) : jobs[i]? = some q.job := by
      rw [← h.map_job, List.getElem?_map, hq]
      rfl
    refine ⟨(map_job_step settings rules crew turn).trans h.map_job, ?_, ?_, ?_⟩
    · rw [step_of_some hturn]
      intro q hq
      obtain ⟨i, hi⟩ := List.mem_iff_getElem?.1 hq
      dsimp only at hi
      rw [List.getElem?_set] at hi
      split at hi
      next heq =>
        rw [if_pos (List.getElem?_eq_some_iff.1 hturn).1] at hi
        obtain rfl := Option.some.inj hi
        exact hadvance.aligned
      next hne =>
        -- Another job does not notice the step.
        obtain ⟨s', hreached', hsame'⟩ := h.aligned q (List.mem_of_getElem? hi)
        refine ⟨s', hreached', fun k hk => ?_⟩
        refine (hadvance.rest k fun hk' => hne ?_).trans (hsame' k hk)
        exact hjobs.owner_unique (hnth hturn) (hnth hi) hk' hk
    · rw [step_of_some hturn]
      intro k hk
      exact (hadvance.rest k (hk _ hjob)).trans (h.rest k hk)
    · rw [step_of_some hturn]
      exact hadvance.ground.trans h.ground

theorem run (h : crew.Sound settings rules d jobs off) (hd : d.WellFormed)
    (hjobs : Distinct d jobs) {turns : List Turn}
    (hoff : ∀ turn ∈ turns, turn.stopped = true → off) :
    (crew.run settings rules turns).Sound settings rules d jobs off := by
  induction turns generalizing crew with
  | nil => exact h
  | cons turn turns ih =>
    obtain ⟨hturn, hturns⟩ := List.forall_mem_cons.1 hoff
    exact ih (h.step hd hjobs hturn) hturns

theorem start {run : Run} {around : Surroundings} (hdisk : run.disk = d) :
    (run.crew around).Sound settings rules d (run.jobs around) off where
  map_job := by
    unfold Run.crew
    rw [List.map_map]
    exact List.map_id _
  aligned post hpost := by
    obtain ⟨job, -, rfl⟩ := List.mem_map.1 hpost
    exact ⟨d, .waiting, fun _ _ => by rw [← hdisk]; rfl⟩
  rest _ _ := by
    rw [← hdisk]
    rfl
  ground := by
    rw [← hdisk]
    rfl

/-- What becomes of a file whose job is done. -/
theorem treated (h : crew.Sound settings rules d jobs off) (hpost : post ∈ crew.posts)
    {result : FileResult} (hresult : post.progress.result? = some result) :
    Treated settings rules d post.job result crew.disk ∧
      (result.outcome.status = .cancelled → off) := by
  obtain ⟨s, hreached, hsame⟩ := h.aligned post hpost
  have hkey : ∀ key, d.locate post.job.source.path = .ok key → crew.disk.get? key = s.get? key :=
    fun key hkey => hsame key (.target hkey)
  rcases hreached.of_done hresult with ⟨hoff, rfl, rfl⟩ | hout
  · exact ⟨.cancelled rfl hkey, fun _ => hoff⟩
  · have hmended := d.mended settings rules post.job.device post.job.id post.job.source
    rw [hout] at hmended
    refine ⟨.mended (by rw [hout]) ?_, fun hc => absurd hc hmended.not_cancelled⟩
    rwa [hout]

/-- When all jobs are done, nothing but the files has changed: no temporary file is left. -/
theorem get?_of_finished (h : crew.Sound settings rules d jobs off) (hfinished : crew.Finished)
    {k : Key} (hk : ∀ job ∈ jobs, d.locate job.source.path ≠ .ok k) :
    crew.disk.get? k = d.get? k := by
  by_cases howned : ∃ job ∈ jobs, job.Owns d k
  · obtain ⟨job, hjob, howns⟩ := howned
    obtain ⟨post, hpost, rfl⟩ := h.exists_post hjob
    obtain ⟨s, hreached, hsame⟩ := h.aligned post hpost
    obtain ⟨result, hresult⟩ := Option.isSome_iff_exists.1 (hfinished post hpost)
    rw [hsame k howns]
    rcases hreached.of_done hresult with ⟨-, -, rfl⟩ | hout
    · rfl
    · have hmended := d.mended settings rules post.job.device post.job.id post.job.source
      rw [hout] at hmended
      exact hmended.frame.2 k (hk _ hjob)
  · exact h.rest k fun job hjob howns => howned ⟨job, hjob, howns⟩

theorem separately (h : crew.Sound settings rules d jobs off) (hfinished : crew.Finished) :
    Separately settings rules d jobs crew.results crew.disk where
  treated := by
    have hall : ∀ posts ⊆ crew.posts,
        List.Forall₂ (fun job result => Treated settings rules d job result crew.disk)
          (posts.map Post.job) (posts.filterMap (·.progress.result?)) := by
      intro posts
      induction posts with
      | nil => exact fun _ => .nil
      | cons post posts ih =>
        intro hposts
        obtain ⟨hpost, hposts⟩ := List.cons_subset.1 hposts
        obtain ⟨result, hresult⟩ := Option.isSome_iff_exists.1 (hfinished post hpost)
        rw [List.map_cons, List.filterMap_cons, hresult]
        exact .cons (h.treated hpost hresult).1 (ih hposts)
    rw [← h.map_job]
    exact hall _ (List.Subset.refl _)
  rest _ hk := h.get?_of_finished hfinished hk
  ground := h.ground

theorem not_cancelled (h : crew.Sound settings rules d jobs off) (hoff : ¬ off) :
    ∀ result ∈ crew.results, result.outcome.status ≠ .cancelled := by
  intro result hresult hcancelled
  obtain ⟨post, hpost, hsome⟩ := List.mem_filterMap.1 hresult
  exact hoff ((h.treated hpost hsome).2 hcancelled)

end Crew.Sound

/-- The jobs of a run on a tree have nothing in common if its files are distinct. -/
theorem Run.distinct_jobs {settings : Settings} {rules : RuleSet} {d : Disk} {run : Run}
    {around : Surroundings} (hd : d.WellFormed) (hstart : Run.start settings rules d = .ok run)
    (hdistinct : (Run.sources settings d).Pairwise d.Apart) (hmarked : Marked (run.jobs around)) :
    Distinct d (run.jobs around) := by
  have htodo : (run.jobs around).map Job.source = Run.sources settings d :=
    (run.map_source_jobs around).trans (Run.start_eq_ok hstart).2.2.1
  refine ⟨fun job hjob => ?_, ?_, hmarked⟩
  · exact Run.sourced_of_mem_sources hd (htodo ▸ List.mem_map_of_mem hjob)
  · rwa [← htodo, List.pairwise_map] at hdistinct

theorem Treated.path {settings : Settings} {rules : RuleSet} {d d' : Disk} {job : Job}
    {result : FileResult} (h : Treated settings rules d job result d') :
    result.outcome.path = job.source.display := by
  cases h with
  | cancelled heq => rw [heq]; rfl
  | mended heq =>
    rw [heq]
    exact (d.mended settings rules job.device job.id job.source).path

/-- Every list of turns keeps a crew sound. -/
theorem Run.crew_sound {settings : Settings} {rules : RuleSet} {d : Disk} {run : Run}
    {around : Surroundings} (hd : d.WellFormed) (hstart : Run.start settings rules d = .ok run)
    (hdistinct : (Run.sources settings d).Pairwise d.Apart) (hmarked : Marked (run.jobs around))
    (turns : List Turn) :
    ((run.crew around).run settings rules turns).Sound settings rules d (run.jobs around)
      (∃ turn ∈ turns, turn.stopped = true) :=
  (Crew.Sound.start (Run.start_eq_ok hstart).2.2.2.2).run hd
    (Run.distinct_jobs hd hstart hdistinct hmarked)
    fun turn hturn hstopped => ⟨turn, hturn, hstopped⟩

/-- Scheduling does not matter. Whatever turns the jobs of a run on a tree take, if its files are
distinct: once each has had six turns, all are done. When they are, the report lists the files in
the order of the walk, each of them is given up and untouched or has the result and the content that
the work on it alone would have given it, and nothing else has changed. If the run was never off
when a job was taken on, then the report, up to its dates, and the tree are those of every other
such list of turns, and those of the run that takes one file after the other. -/
theorem Run.crew_separately {settings : Settings} {rules : RuleSet} {d : Disk} {run : Run}
    {around : Surroundings} (tool : ToolInfo) (hd : d.WellFormed)
    (hstart : Run.start settings rules d = .ok run)
    (hdistinct : (Run.sources settings d).Pairwise d.Apart) (hmarked : Marked (run.jobs around))
    (turns : List Turn) :
    let crew := (run.crew around).run settings rules turns
    ((∀ i < (run.jobs around).length, 6 ≤ turns.countP (·.post = i)) → crew.Finished) ∧
    (crew.Finished →
      (crew.report run tool around).files = crew.results.map (·.outcome) ∧
      (crew.report run tool around).findings = crew.results.flatMap (·.findings) ∧
      (crew.report run tool around).files.map (·.path) =
        (Run.sources settings d).map (·.display) ∧
      Separately settings rules d (run.jobs around) crew.results crew.disk ∧
      ((∀ turn ∈ turns, turn.stopped = false) → ∀ around' : Surroundings,
        around'.tempId = around.tempId → around'.device = around.device →
        (∀ turns' : List Turn, (∀ turn ∈ turns', turn.stopped = false) →
          let crew' := (run.crew around').run settings rules turns'
          crew'.Finished →
            (crew.report run tool around).undated = (crew'.report run tool around').undated ∧
            ∀ k, crew.disk.get? k = crew'.disk.get? k) ∧
        (around'.interfere = (fun _ d => d) → around'.Patient settings →
          ∃ report d', runRepair settings rules tool around' d = (.ok report, d') ∧
            (crew.report run tool around).undated = report.undated ∧
            ∀ k, crew.disk.get? k = d'.get? k))) := by
  intro crew
  have htodo : (run.jobs around).map Job.source = Run.sources settings d :=
    (run.map_source_jobs around).trans (Run.start_eq_ok hstart).2.2.1
  have hsound : crew.Sound settings rules d (run.jobs around)
      (∃ turn ∈ turns, turn.stopped = true) := run.crew_sound hd hstart hdistinct hmarked turns
  refine ⟨fun hturns => Crew.finished_run _ ?_, fun hfinished => ?_⟩
  · simpa [Run.crew] using hturns
  have hseparately := hsound.separately hfinished
  refine ⟨rfl, rfl, ?_, hseparately, fun hgoes around' htemp hdevice => ?_⟩
  · have hpaths : List.Forall₂ (· = ·) (crew.results.map (·.outcome.path))
        ((run.jobs around).map (·.source.display)) := by
      rw [List.forall₂_map_left_iff, List.forall₂_map_right_iff]
      exact hseparately.treated.flip.imp fun _ _ htreated => htreated.path
    rw [List.forall₂_eq_eq_eq] at hpaths
    rw [← htodo, List.map_map]
    exact (List.map_map ..).trans hpaths
  have hsame : run.jobs around' = run.jobs around := by
    unfold Run.jobs
    rw [htemp, hdevice]
  have hcalm {turns : List Turn} (h : ∀ turn ∈ turns, turn.stopped = false) :
      ¬ ∃ turn ∈ turns, turn.stopped = true := by
    rintro ⟨turn, hturn, hstopped⟩
    rw [h turn hturn] at hstopped
    contradiction
  have hnone := hsound.not_cancelled (hcalm hgoes)
  -- Whoever treats the files separately and gives none up comes to the same.
  have hequal {results : List FileResult} {d' : Disk}
      (h : Separately settings rules d (run.jobs around') results d')
      (hall : ∀ result ∈ results, result.outcome.status ≠ .cancelled) :
      crew.results = results ∧ ∀ k, crew.disk.get? k = d'.get? k := by
    rw [hsame] at h
    exact ⟨(hseparately.results_eq hnone).trans (h.results_eq hall).symm,
      hseparately.get?_eq h hnone hall⟩
  constructor
  · intro turns' hgoes' crew' hfinished'
    have hsound' : crew'.Sound settings rules d (run.jobs around')
        (∃ turn ∈ turns', turn.stopped = true) :=
      run.crew_sound hd hstart hdistinct (hsame ▸ hmarked) turns'
    obtain ⟨hresults, hdisk⟩ := hequal (hsound'.separately hfinished')
      (hsound'.not_cancelled (hcalm hgoes'))
    refine ⟨?_, hdisk⟩
    unfold Crew.report
    rw [hresults]
    rfl
  · intro hquiet hpatient
    obtain ⟨results, d', hrun, hseparately', hall⟩ :=
      runRepair_separately tool hstart hquiet hdistinct
    obtain ⟨hresults, hdisk⟩ := hequal hseparately' (hall hpatient)
    refine ⟨_, d', hrun, ?_, hdisk⟩
    unfold Crew.report
    rw [hresults]
    rfl

/-- Two files whose jobs take turns in the middle of each other's commits. -/
theorem Run.crew_separately_small :
    let rules : RuleSet := ⟨1, [letterRule "rename" 'B' 'D', letterRule "rename-too" 'C' 'D']⟩
    let turns : List Turn := [⟨0, false⟩, ⟨1, false⟩, ⟨1, false⟩, ⟨0, false⟩, ⟨0, false⟩,
      ⟨1, false⟩, ⟨1, false⟩, ⟨0, false⟩, ⟨1, false⟩, ⟨0, false⟩, ⟨0, false⟩, ⟨1, false⟩]
    smallDisk.WellFormed ∧ (Run.sources smallSettings smallDisk).Pairwise smallDisk.Apart ∧
    ∃ run, Run.start smallSettings rules smallDisk = .ok run ∧ Marked (run.jobs {}) ∧
      let crew := (run.crew {}).run smallSettings rules turns
      crew.Finished ∧
      ∃ report d', runRepair smallSettings rules { name := "syntaxfix" } {} smallDisk =
          (.ok report, d') ∧
        report.files.map (·.status) = [.modified, .modified] ∧
        (crew.report run { name := "syntaxfix" } {}).undated = report.undated ∧
        ∀ k, crew.disk.get? k = d'.get? k := by
  intro rules turns
  have hd : smallDisk.WellFormed := ⟨⟨by decide, by decide⟩, by decide +kernel, by decide +kernel⟩
  have hsources : Run.sources smallSettings smallDisk =
      [⟨"src/a.ts", "src/a.ts"⟩, ⟨"./src/b.tsx", "src/b.tsx"⟩] := by decide +kernel
  have hdistinct : (Run.sources smallSettings smallDisk).Pairwise smallDisk.Apart := by
    decide +kernel
  have hstarts : (Run.start smallSettings rules smallDisk).isOk = true := by decide +kernel
  have hstatus : (runRepair smallSettings rules { name := "syntaxfix" } {} smallDisk).1.toOption.any
      (·.files.map (·.status) = [.modified, .modified]) = true := by decide +kernel
  cases hstart : Run.start smallSettings rules smallDisk with
  | error error =>
    rw [hstart] at hstarts
    contradiction
  | ok run =>
    obtain ⟨-, -, htodo, hresults, -⟩ := Run.start_eq_ok hstart
    have hjobs : run.jobs {} =
        [⟨⟨"src/a.ts", "src/a.ts"⟩, "0", .sound⟩, ⟨⟨"./src/b.tsx", "src/b.tsx"⟩, "1", .sound⟩] := by
      unfold Run.jobs
      rw [htodo, hsources, hresults]
      rfl
    have hmarked : Marked (run.jobs {}) := by
      rw [hjobs]
      exact ⟨by decide, by decide⟩
    obtain ⟨hends, hdone⟩ := Run.crew_separately { name := "syntaxfix" } hd hstart hdistinct hmarked
      turns
    have hfinished := hends (by rw [hjobs]; decide)
    obtain ⟨-, -, -, -, hsame⟩ := hdone hfinished
    obtain ⟨report, d', hrun, hreport, hdisk⟩ :=
      (hsame (by decide) {} rfl rfl).2 rfl fun _ => ⟨rfl, rfl⟩
    rw [hrun] at hstatus
    exact ⟨hd, hdistinct, run, rfl, hmarked, hfinished, report, d', hrun,
      of_decide_eq_true hstatus, hreport, hdisk⟩

end SourceMend
