import SourceMend.Disk.Commit
import SourceMend.Proofs.Disk.Locating

/-!
What staging, publishing and discarding do to a disk: the condition under which each succeeds, the
entries it touches, and the value it gives. Where the disk has nothing against a step, the device
decides; a step that is refused leaves the disk as it was before the write was staged.
-/
namespace SourceMend

theorem Text.bytes_inj {s t : Text} : s.bytes = t.bytes ↔ s = t := by
  unfold Text.bytes
  rw [String.toUTF8_eq_toByteArray, String.toUTF8_eq_toByteArray, String.toByteArray_inj,
    String.ofList_inj]

theorem fromUTF8?_eq_some {bytes : ByteArray} {s : String} :
    String.fromUTF8? bytes = some s ↔ bytes = s.toUTF8 := by
  unfold String.fromUTF8?
  constructor
  · intro h
    split at h
    next hvalid => exact congrArg String.toUTF8 (Option.some.inj h)
    next => contradiction
  · rintro rfl
    rw [String.toUTF8_eq_toByteArray, dif_pos s.isValidUTF8]
    rfl

/-! The device -/

namespace Device

variable {device : Device} {w : StagedWrite}

@[simp] theorem admit_eq_ok {a : Action} {path : String} :
    device.permit a path = .ok () ↔ device a = none := by
  unfold permit
  cases device a <;> simp

/-- The device refuses no step of staging. -/
structure Stages (device : Device) : Prop where
  creates : device .openFile = none
  writes : device .writeFile = none
  syncs : device .syncFile = none

/-- The device refuses no step of a publish. -/
structure Publishes (device : Device) (w : StagedWrite) : Prop where
  reads : device .readFile = none
  queries : device .queryMetadata = none
  permits : device .setPermissions = none
  moves : device (.moveFile w.target) = none

/-- What the device says to the inspection of a target that is what it was. -/
def inspects (device : Device) (w : StagedWrite) : Except CommitError Unit :=
  match device.permit .readFile w.target with
  | .error fault =>
    .error (if fault.cause = .notFound then .missing w.target else .refused w.target fault)
  | .ok () => .ok ()

/-- What the device says when a temporary file is moved to its target. -/
def installs (device : Device) (w : StagedWrite) : Except Fault Unit := do
  device.permit .queryMetadata w.target
  device.permit .setPermissions w.temp
  device.permit (.moveFile w.target) w.temp

/-- What becomes of a publish that the disk allows. -/
def publishes (device : Device) (w : StagedWrite) : Except CommitError Receipt :=
  match device.inspects w with
  | .error error => .error error
  | .ok () =>
    match device.installs w with
    | .error fault => .error (.refused w.target fault)
    | .ok () => .ok w.receipt

theorem inspects_eq_ok : device.inspects w = .ok () ↔ device .readFile = none := by
  rw [← @admit_eq_ok device .readFile w.target, inspects]
  cases device.permit .readFile w.target <;> simp

theorem installs_eq_ok : device.installs w = .ok () ↔
    device .queryMetadata = none ∧ device .setPermissions = none ∧
      device (.moveFile w.target) = none := by
  unfold installs permit
  cases device .queryMetadata <;> cases device .setPermissions <;>
    cases device (.moveFile w.target) <;> simp [bind, Except.bind]

theorem publishes_iff :
    device.Publishes w ↔ device.inspects w = .ok () ∧ device.installs w = .ok () := by
  rw [inspects_eq_ok, installs_eq_ok]
  exact ⟨fun h => ⟨h.reads, h.queries, h.permits, h.moves⟩,
    fun ⟨hreads, hqueries, hpermits, hmoves⟩ => ⟨hreads, hqueries, hpermits, hmoves⟩⟩

theorem publishes_eq_ok {receipt : Receipt} : device.publishes w = .ok receipt ↔
    device.Publishes w ∧ receipt = w.receipt := by
  rw [publishes_iff, publishes]
  cases device.inspects w with
  | error error => simp
  | ok => cases device.installs w <;> simp [eq_comm]

end Device

namespace Disk

variable {d d' : Disk} {device : Device} {path id : String} {content : Text} {r : FileRecord}
  {w : StagedWrite} {key tempKey : Key}

/-! Files that are replaced -/

/-- Only the bytes of files differ. -/
structure SameTree (d d' : Disk) : Prop where
  ground : d'.toGround = d.toGround
  files : ∀ k, d'.get? k ≠ d.get? k →
    ∃ old new, d.get? k = some (.file old) ∧ d'.get? k = some (.file new)

theorem SameTree.refl (d : Disk) : SameTree d d := ⟨rfl, fun _ h => absurd rfl h⟩

theorem SameTree.trans {d'' : Disk} (h : SameTree d d') (h' : SameTree d' d'') :
    SameTree d d'' := by
  refine ⟨h'.ground.trans h.ground, fun k hk => ?_⟩
  by_cases hlater : d''.get? k = d'.get? k
  · rw [hlater] at hk ⊢
    exact h.files k hk
  · obtain ⟨old, new, hold, hnew⟩ := h'.files k hlater
    by_cases hbefore : d'.get? k = d.get? k
    · exact ⟨old, new, hbefore ▸ hold, hnew⟩
    · obtain ⟨oldest, -, holdest, -⟩ := h.files k hbefore
      exact ⟨oldest, new, holdest, hnew⟩

theorem SameTree.locate_eq (h : SameTree d d') (path : String) :
    d'.locate path = d.locate path := by
  refine locate_congr h.ground fun k => ?_
  unfold checkFolder
  by_cases hsame : d'.get? k = d.get? k
  · rw [hsame]
  · obtain ⟨old, new, hold, hnew⟩ := h.files k hsame
    rw [hold, hnew]

theorem SameTree.isSome_get? (h : SameTree d d') (key : Key) :
    (d'.get? key).isSome = (d.get? key).isSome := by
  by_cases hsame : d'.get? key = d.get? key
  · rw [hsame]
  · obtain ⟨old, new, hold, hnew⟩ := h.files key hsame
    rw [hold, hnew]
    rfl

theorem sameTree_put {old : ByteArray} (h : d.get? key = some (.file old)) (new : ByteArray) :
    d.SameTree (d.put key (.file new)) := by
  refine ⟨rfl, fun k hk => ?_⟩
  by_cases heq : k = key
  · subst heq
    exact ⟨old, new, h, get?_put_self d _ (key_ne_nil_of_file h)⟩
  · exact absurd (get?_put_of_ne d _ heq) hk

/-! Reading -/

theorem readText_eq_ok : d.readText path = .ok content ↔ d.readBytes path = .ok content.bytes := by
  unfold readText
  cases d.readBytes path with
  | error fault => simp
  | ok bytes =>
    have hiff : (∃ s, String.fromUTF8? bytes = some s ∧ s.toList = content) ↔
        bytes = content.bytes := by
      constructor
      · rintro ⟨s, hs, rfl⟩
        rw [fromUTF8?_eq_some.1 hs, Text.bytes, String.ofList_toList]
      · rintro rfl
        exact ⟨String.ofList content, fromUTF8?_eq_some.2 rfl, String.toList_ofList⟩
    rw [Except.ok.injEq, ← hiff]
    dsimp only
    cases String.fromUTF8? bytes <;> simp

theorem readRecord_eq_ok : d.readRecord path = .ok r ↔
    ∃ content, d.readText path = .ok content ∧ r = .of path content := by
  unfold readRecord
  cases d.readText path <;> simp [Except.map, eq_comm]

/-! Discarding -/

theorem discard_of_file {bytes : ByteArray} (h : d.fileAt w.temp = .ok (key, bytes)) :
    d.discard w = d.erase key := by
  unfold discard
  rw [removeFile_eq_ok.2 ⟨key, bytes, h, rfl⟩]

/-- Discarding takes the temporary file away where its path leads to it. -/
theorem discard_cases (d : Disk) (w : StagedWrite) :
    (∃ key bytes, d.fileAt w.temp = .ok (key, bytes) ∧ d.discard w = d.erase key) ∨
      d.discard w = d := by
  unfold discard
  cases hremove : d.removeFile w.temp with
  | error cause => exact .inr rfl
  | ok d' =>
    obtain ⟨key, bytes, hfile, rfl⟩ := removeFile_eq_ok.1 hremove
    exact .inl ⟨key, bytes, hfile, rfl⟩

theorem fileAt_put_new (h : d.locate path = .ok key) (hnone : d.get? key = none)
    (bytes : ByteArray) : (d.put key (.file bytes)).fileAt path = .ok (key, bytes) :=
  fileAt_eq_ok.2 ⟨(d.sameExcept_put key _).locate (by simp [hnone]) h,
    get?_put_self d _ (key_ne_nil_of_none hnone)⟩

/-- Discarding a new temporary file leaves the disk as it was before. -/
theorem discard_put (h : d.locate w.temp = .ok key) (hnone : d.get? key = none)
    (bytes : ByteArray) : (d.put key (.file bytes)).discard w = d := by
  rw [discard_of_file (fileAt_put_new h hnone bytes), erase_put _ hnone]

/-! Staging -/

theorem createFile_eq_ok : d.createFile device path = .ok (key, d') ↔
    device .openFile = none ∧ d.locate path = .ok key ∧ d.get? key = none ∧
      d' = d.put key (.file .empty) := by
  rw [← @Device.admit_eq_ok device .openFile path]
  unfold createFile
  cases d.locate path with
  | error cause => simp
  | ok found =>
    cases hget : d.get? found with
    | some e => grind
    | none => cases device.permit .openFile path <;> simp [Except.map] <;> grind

/-- A write that cannot be staged leaves the disk as it was. -/
theorem stage_eq_error {error : CommitError}
    (h : d.stage device id r content = (.error error, d')) : d' = d := by
  unfold stage at h
  dsimp only at h
  split at h
  next => exact (Prod.mk.inj h).2.symm
  next key made hcreate =>
    obtain ⟨-, hkey, hnone, rfl⟩ := createFile_eq_ok.1 hcreate
    -- Whether or not the bytes have come to the file, it is taken away.
    unfold fill at h
    split at h
    next hfill =>
      obtain rfl := (Prod.mk.inj h).2
      split at hfill
      · rw [← (Prod.mk.inj hfill).2, discard_put hkey hnone]
      · rw [← (Prod.mk.inj hfill).2, put_put, discard_put hkey hnone]
    next => simp at h

theorem stage_eq_ok : d.stage device id r content = (.ok w, d') ↔
    device.Stages ∧ w = r.staged id content ∧ ∃ key, d.locate w.temp = .ok key ∧
      d.get? key = none ∧ d' = d.put key (.file content.bytes) := by
  have hdevice : device.Stages ↔ device .openFile = none ∧
      device.permit .writeFile (r.staged id content).temp = .ok () ∧
      device.permit .syncFile (r.staged id content).temp = .ok () := by
    simp only [Device.admit_eq_ok]
    exact ⟨fun h => ⟨h.creates, h.writes, h.syncs⟩,
      fun ⟨hcreates, hwrites, hsyncs⟩ => ⟨hcreates, hwrites, hsyncs⟩⟩
  rw [hdevice]
  unfold stage fill
  dsimp only
  constructor
  · intro h
    split at h
    next => simp at h
    next key made hcreate =>
      obtain ⟨hopen, hkey, hnone, rfl⟩ := createFile_eq_ok.1 hcreate
      cases hwrite : device.permit .writeFile (r.staged id content).temp with
      | error fault => simp [hwrite] at h
      | ok =>
        cases hsync : device.permit .syncFile (r.staged id content).temp with
        | error fault => simp [hwrite, hsync] at h
        | ok =>
          obtain ⟨rfl, rfl⟩ : r.staged id content = w ∧ d.put key (.file content.bytes) = d' := by
            simpa [hwrite, hsync] using h
          exact ⟨⟨hopen, rfl, rfl⟩, rfl, key, hkey, hnone, rfl⟩
  · rintro ⟨⟨hopen, hwrite, hsync⟩, rfl, key, hkey, hnone, rfl⟩
    rw [createFile_eq_ok.2 ⟨hopen, hkey, hnone, rfl⟩]
    simp [hwrite, hsync]

/-- Whether a write can be staged depends on the device, on where its temporary file lies, and on
whether something is there. -/
theorem stage_congr (hlocate : d'.locate (tempPath r.path id) = d.locate (tempPath r.path id))
    (hthere : ∀ key, d.locate (tempPath r.path id) = .ok key →
      (d'.get? key).isSome = (d.get? key).isSome) (content : Text) :
    (d'.stage device id r content).1 = (d.stage device id r content).1 := by
  have htemp : (r.staged id content).temp = tempPath r.path id := rfl
  unfold stage createFile fill
  dsimp only
  rw [htemp, hlocate]
  cases hkey : d.locate (tempPath r.path id) with
  | error cause => rfl
  | ok key =>
    dsimp only
    rw [hthere key hkey]
    cases (d.get? key).isSome with
    | true => rfl
    | false =>
      cases device.permit .openFile (tempPath r.path id) with
      | error fault => rfl
      | ok =>
        cases device.permit .writeFile (tempPath r.path id) with
        | error fault => simp [Except.map]
        | ok => cases device.permit .syncFile (tempPath r.path id) <;> simp [Except.map]

/-! Publishing -/

/-- The target is what it was, and the device decides. -/
theorem inspect_of_file {bytes : ByteArray} (h : d.fileAt w.target = .ok (key, bytes))
    (hdigest : Digest.ofBytes bytes = w.expected) : d.inspect device w = device.inspects w := by
  have hread : d.readBytes w.target = .ok bytes := by
    unfold readBytes
    rw [h]
    rfl
  unfold inspect readFrom Device.inspects
  rw [hread]
  cases device.permit .readFile w.target <;> simp [Except.map, hdigest]

theorem inspect_eq_ok : d.inspect device w = .ok () ↔ device.inspects w = .ok () ∧
    ∃ key bytes, d.fileAt w.target = .ok (key, bytes) ∧ Digest.ofBytes bytes = w.expected := by
  cases hfile : d.fileAt w.target with
  | error fault => simp [inspect, readFrom, readBytes, hfile, Except.map]
  | ok found =>
    obtain ⟨key, bytes⟩ := found
    by_cases hdigest : Digest.ofBytes bytes = w.expected
    · rw [inspect_of_file hfile hdigest]
      exact ⟨fun h => ⟨h, key, bytes, rfl, hdigest⟩, fun h => h.1⟩
    · have hrefused : d.inspect device w ≠ .ok () := by
        cases hread : device.permit .readFile w.target <;>
          simp [inspect, readFrom, readBytes, hfile, hread, Except.map, hdigest]
      refine iff_of_false hrefused ?_
      rintro ⟨-, key', bytes', hfound, hdigest'⟩
      obtain ⟨-, rfl⟩ := Prod.mk.inj (Except.ok.inj hfound)
      exact hdigest hdigest'

/-- Both files are there, and the device decides. -/
theorem install_of_files {old content : ByteArray} (h : d.fileAt w.target = .ok (key, old))
    (h' : d.fileAt w.temp = .ok (tempKey, content)) :
    d.install device w =
      (device.installs w).map fun () => (d.erase tempKey).put key (.file content) := by
  have htarget : d.entryAt w.target = .ok (key, .file old) :=
    entryAt_eq_ok.2 (fileAt_eq_ok.1 h)
  have htemp : d.entryAt w.temp = .ok (tempKey, .file content) :=
    entryAt_eq_ok.2 (fileAt_eq_ok.1 h')
  unfold install Device.installs reach
  rw [htarget, htemp]
  cases device.permit .queryMetadata w.target with
  | error fault => rfl
  | ok =>
    cases device.permit .setPermissions w.temp with
    | error fault => rfl
    | ok => cases device.permit (.moveFile w.target) w.temp <;> rfl

theorem install_eq_ok {old : ByteArray} (h : d.fileAt w.target = .ok (key, old)) :
    d.install device w = .ok d' ↔ device.installs w = .ok () ∧
      ∃ tempKey content, d.fileAt w.temp = .ok (tempKey, content) ∧
        d' = (d.erase tempKey).put key (.file content) := by
  cases htemp : d.fileAt w.temp with
  | ok found =>
    obtain ⟨tempKey, content⟩ := found
    rw [install_of_files h htemp]
    cases device.installs w with
    | error fault => simp [Except.map]
    | ok =>
      constructor
      · intro hmade
        exact ⟨rfl, tempKey, content, rfl, (Except.ok.inj hmade).symm⟩
      · rintro ⟨-, tempKey', content', hfound, rfl⟩
        obtain ⟨rfl, rfl⟩ := Prod.mk.inj (Except.ok.inj hfound)
        rfl
  | error fault =>
    have htarget : d.entryAt w.target = .ok (key, .file old) :=
      entryAt_eq_ok.2 (fileAt_eq_ok.1 h)
    unfold fileAt at htemp
    unfold install reach
    rw [htarget]
    cases hentry : d.entryAt w.temp with
    | error cause =>
      cases device.permit .queryMetadata w.target <;> simp [Except.map, bind, Except.bind]
    | ok found =>
      obtain ⟨tempKey, content | _⟩ := found
      · simp [hentry] at htemp
      · cases device.permit .queryMetadata w.target <;>
          cases device.permit .setPermissions w.temp <;>
          cases device.permit (.moveFile w.target) w.temp <;>
          simp [Except.map, bind, Except.bind]

/-- A refused write is discarded. -/
theorem publish_eq_error {error : CommitError} (h : d.publish device w = (.error error, d')) :
    d' = d.discard w := by
  unfold publish at h
  split at h
  next => exact (Prod.mk.inj h).2.symm
  next =>
    split at h
    next => exact (Prod.mk.inj h).2.symm
    next => simp at h

theorem publish_eq_ok {receipt : Receipt} : d.publish device w = (.ok receipt, d') ↔
    device.Publishes w ∧ ∃ key before tempKey content, d.fileAt w.target = .ok (key, before) ∧
      Digest.ofBytes before = w.expected ∧ d.fileAt w.temp = .ok (tempKey, content) ∧
      receipt = w.receipt ∧ d' = (d.erase tempKey).put key (.file content) := by
  rw [Device.publishes_iff]
  unfold publish
  constructor
  · intro h
    split at h
    next => simp at h
    next hinspect =>
      obtain ⟨hreads, key, before, htarget, hdigest⟩ := inspect_eq_ok.1 hinspect
      split at h
      next => simp at h
      next made hinstall =>
        obtain ⟨hmoves, tempKey, content, htemp, rfl⟩ := (install_eq_ok htarget).1 hinstall
        obtain ⟨hreceipt, rfl⟩ := Prod.mk.inj h
        exact ⟨⟨hreads, hmoves⟩, key, before, tempKey, content, htarget, hdigest, htemp,
          (Except.ok.inj hreceipt).symm, rfl⟩
  · rintro ⟨⟨hreads, hmoves⟩, key, before, tempKey, content, htarget, hdigest, htemp, rfl, rfl⟩
    rw [inspect_eq_ok.2 ⟨hreads, key, before, htarget, hdigest⟩]
    dsimp only
    rw [(install_eq_ok htarget).2 ⟨hmoves, tempKey, content, htemp, rfl⟩]

theorem commit_of_stage_error {error : CommitError}
    (h : d.stage device id r content = (.error error, d')) :
    d.commit device id r content = (.error error, d) := by
  unfold commit
  rw [h, stage_eq_error h]

/-- A commit to a file that is as it was read: the disk decides whether the write can be staged, and
after that the device decides. The file of the record changes, or nothing does. -/
theorem commit_eq {new : Text} {key : Key} (hkey : d.locate path = .ok key)
    (hfile : d.get? key = some (.file content.bytes)) :
    d.commit device id (.of path content) new =
      match (d.stage device id (.of path content) new).1 with
      | .error error => (.error error, d)
      | .ok w =>
        match device.publishes w with
        | .error error => (.error error, d)
        | .ok receipt => (.ok receipt, d.put key (.file new.bytes)) := by
  unfold commit
  cases hstage : d.stage device id (.of path content) new with
  | mk outcome staged =>
    cases outcome with
    | error error => rw [stage_eq_error hstage]
    | ok w =>
      obtain ⟨-, rfl, tempKey, htempKey, hnone, rfl⟩ := stage_eq_ok.1 hstage
      have hapart : key ≠ tempKey := by
        rintro rfl
        simp [hnone] at hfile
      have htarget : (d.put tempKey (.file new.bytes)).fileAt path = .ok (key, content.bytes) :=
        fileAt_eq_ok.2 ⟨(d.sameExcept_put tempKey _).locate (by simp [hnone]) hkey,
          (get?_put_of_ne d _ hapart).trans hfile⟩
      have htemp := fileAt_put_new htempKey hnone new.bytes
      have hinspect := @inspect_of_file _ device ((FileRecord.of path content).staged id new) _ _
        htarget rfl
      have hinstall := @install_of_files _ device ((FileRecord.of path content).staged id new)
        _ _ _ _ htarget htemp
      unfold publish Device.publishes
      dsimp only
      rw [hinspect]
      cases device.inspects ((FileRecord.of path content).staged id new) with
      | error error => simp only [discard_put htempKey hnone]
      | ok =>
        dsimp only
        rw [hinstall, erase_put _ hnone]
        cases device.installs ((FileRecord.of path content).staged id new) with
        | error fault => simp only [Except.map, discard_put htempKey hnone]
        | ok => rfl

/-- A commit changes the file of the record and nothing else, or it is refused and changes
nothing. -/
theorem commit_cases (device : Device) (id : String) (new : Text)
    (h : d.readText path = .ok content) :
    (∃ cause, d.commit device id (.of path content) new = (.error cause, d)) ∨
    ∃ receipt key, d.commit device id (.of path content) new =
        (.ok receipt, d.put key (.file new.bytes)) ∧
      receipt.before = Digest.ofText content ∧ receipt.after = Digest.ofText new ∧
      d.locate path = .ok key ∧ d.get? key = some (.file content.bytes) := by
  obtain ⟨key, hkey, hfile⟩ := readBytes_eq_ok.1 (readText_eq_ok.1 h)
  rw [commit_eq hkey hfile]
  cases hstage : d.stage device id (.of path content) new with
  | mk outcome staged =>
    cases outcome with
    | error error => exact .inl ⟨error, rfl⟩
    | ok w =>
      obtain ⟨-, rfl, -⟩ := stage_eq_ok.1 hstage
      dsimp only
      cases hpublish : device.publishes ((FileRecord.of path content).staged id new) with
      | error error => exact .inl ⟨error, rfl⟩
      | ok receipt =>
        obtain ⟨-, rfl⟩ := Device.publishes_eq_ok.1 hpublish
        exact .inr ⟨_, key, rfl, rfl, rfl, hkey, hfile⟩

/-- What becomes of a commit depends on the device, on the file of the record, and on whether
something is where the temporary file is to be. -/
theorem commit_congr (device : Device) (id : String) (new : Text)
    (h : d.readText path = .ok content) (h' : d'.readText path = .ok content)
    (hlocate : d'.locate (tempPath path id) = d.locate (tempPath path id))
    (hthere : ∀ key, d.locate (tempPath path id) = .ok key →
      (d'.get? key).isSome = (d.get? key).isSome) :
    (d'.commit device id (.of path content) new).1 =
      (d.commit device id (.of path content) new).1 := by
  obtain ⟨key, hkey, hfile⟩ := readBytes_eq_ok.1 (readText_eq_ok.1 h)
  obtain ⟨key', hkey', hfile'⟩ := readBytes_eq_ok.1 (readText_eq_ok.1 h')
  rw [commit_eq hkey hfile, commit_eq hkey' hfile',
    @stage_congr _ _ device id (.of path content) hlocate hthere new]
  split
  · rfl
  · split <;> rfl

end Disk
end SourceMend
