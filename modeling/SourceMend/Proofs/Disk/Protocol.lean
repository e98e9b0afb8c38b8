import SourceMend.Proofs.Disk.Commit
import SourceMend.Proofs.Disk.World

/-!
Commits by many parties. Any number of them read files, stage new contents, publish and drop them,
while others write, remove and replace files in between, and the device refuses what it likes.
Whatever the order, a publish replaces only what its record has read, nothing else touches a file,
and the temporary files go away.
-/
namespace SourceMend

/-! Disks that differ little -/

namespace Disk

/-- Directories stay, and the entries at some keys are gone or the same. -/
structure Spares (d d' : Disk) (keys : List Key) : Prop where
  ground : d'.toGround = d.toGround
  folders : ∀ a, d.get? a = some .directory → d'.get? a = some .directory
  entries : ∀ k ∈ keys, d'.get? k = none ∨ d'.get? k = d.get? k

variable {d d' : Disk} {device : Device} {w : StagedWrite} {key k : Key} {keys : List Key}
  {path : String}

theorem Spares.locate (h : Spares d d' keys) (hpath : d.locate path = .ok key) :
    d'.locate path = .ok key :=
  locate_of_folders h.ground hpath h.folders

theorem Spares.get?_eq_none (h : Spares d d' keys) (hk : k ∈ keys) (hnone : d.get? k = none) :
    d'.get? k = none :=
  (h.entries k hk).elim id fun hsame => hsame.trans hnone

theorem SameExcept.spares {changed : List Key} (h : d.SameExcept d' changed)
    (hfiles : ∀ key ∈ changed, d.get? key ≠ some .directory)
    (hgone : ∀ k ∈ keys, k ∈ changed → d'.get? k = none) : Spares d d' keys where
  ground := h.ground
  folders _ := h.folder hfiles
  entries k hk := by
    by_cases hmem : k ∈ changed
    · exact .inl (hgone k hk hmem)
    · exact .inr (h.same k hmem)

theorem spares_put (hkey : key ∉ keys) (e : Entry)
    (hfolder : d.get? key = some .directory → e = .directory) :
    Spares d (d.put key e) keys where
  ground := rfl
  folders a ha := by
    by_cases heq : a = key
    · subst heq
      obtain rfl := hfolder ha
      by_cases hnil : a = []
      · rw [hnil, get?_nil]
      · exact get?_put_self d _ hnil
    · rwa [get?_put_of_ne _ _ heq]
  entries k hk := by
    refine .inr (get?_put_of_ne _ _ ?_)
    rintro rfl
    exact hkey hk

theorem spares_erase (hkeys : [] ∉ keys) (hfile : d.get? key ≠ some .directory) :
    Spares d (d.erase key) keys := by
  refine (d.sameExcept_erase key).spares (by simpa using hfile) fun k hk hmem => ?_
  obtain rfl := List.mem_singleton.1 hmem
  exact get?_erase_self d fun hnil => hkeys (hnil ▸ hk)

theorem spares_discard (w : StagedWrite) (hkeys : [] ∉ keys) : Spares d (d.discard w) keys := by
  rcases discard_cases d w with ⟨key, bytes, hfile, hd⟩ | hd
  · rw [hd]
    exact spares_erase hkeys (by simp [(fileAt_eq_ok.1 hfile).2])
  · rw [hd]
    exact ⟨rfl, fun _ h => h, fun _ _ => .inr rfl⟩

theorem spares_publish {receipt : Receipt} (h : d.publish device w = (.ok receipt, d'))
    (htarget : ∀ key, d.locate w.target = .ok key → key ∉ keys) (hkeys : [] ∉ keys) :
    Spares d d' keys := by
  obtain ⟨-, key, before, tempKey, content, hfile, -, htemp, -, rfl⟩ := publish_eq_ok.1 h
  obtain ⟨hlocate, hbefore⟩ := fileAt_eq_ok.1 hfile
  obtain ⟨-, hcontent⟩ := fileAt_eq_ok.1 htemp
  refine (d.sameExcept_move tempKey key _).spares (by simp [hbefore, hcontent]) fun k hk hmem => ?_
  have hkey : k ≠ key := by
    rintro rfl
    exact htarget k hlocate hk
  obtain rfl : k = tempKey := by simpa [hkey] using hmem
  rw [get?_put_of_ne _ _ hkey, get?_erase_self d fun hnil => hkeys (hnil ▸ hk)]

end Disk

/-! What every run keeps -/

/-- A record as reading makes it; its path still leads to the same place. -/
structure Reading.Sound (r : Reading) (d : Disk) : Prop where
  digest : r.record.digest = Digest.ofText r.record.content
  leads : d.locate r.record.path = .ok r.key

/-- A staged write as staging makes it. -/
def Pending.Made (p : Pending) : Prop :=
  ∃ id : String, p.write = p.reading.record.staged id p.content

/-- The path of the temporary file leads to it. The file holds the staged content or is gone, and it
is gone once the write has met its fate. -/
structure Pending.Kept (p : Pending) (d : Disk) : Prop where
  leads : d.locate p.write.temp = .ok p.key
  entry : d.get? p.key = none ∨ d.get? p.key = some (.file p.content.bytes)
  gone : p.fate ≠ .live → d.get? p.key = none

structure World.Sound (w : World) : Prop where
  readings : ∀ r ∈ w.readings, r.Sound w.disk ∧ r.key ∉ w.temps
  made : ∀ p ∈ w.staged, p.Made ∧ p.reading ∈ w.readings
  kept : ∀ p ∈ w.staged, p.Kept w.disk

section
variable {p : Pending} {d d' : Disk} {keys : List Key}

theorem Pending.Kept.key_ne_nil (h : p.Kept d) : p.key ≠ [] := by
  intro hnil
  rcases h.entry with h | h <;> simp [hnil] at h

theorem Pending.Kept.spared (h : p.Kept d) (hs : Disk.Spares d d' keys) (hp : p.key ∈ keys) :
    p.Kept d' where
  leads := hs.locate h.leads
  entry := (hs.entries _ hp).elim .inl fun hsame => hsame ▸ h.entry
  gone hfate := hs.get?_eq_none hp (h.gone hfate)

/-- A discarded write leaves no temporary file. -/
theorem Pending.Kept.gone_of_discard (h : p.Kept d) : (d.discard p.write).get? p.key = none := by
  rcases h.entry with hnone | hfile
  · have hs : Disk.Spares d (d.discard p.write) [p.key] :=
      Disk.spares_discard p.write (by simpa using h.key_ne_nil.symm)
    exact hs.get?_eq_none List.mem_cons_self hnone
  · rw [Disk.discard_of_file (Disk.fileAt_eq_ok.2 ⟨h.leads, hfile⟩),
      Disk.get?_erase_self d h.key_ne_nil]

end

namespace World.Sound

variable {w : World} {d : Disk} {device : Device} {p : Pending}

theorem nil_not_mem_temps (h : w.Sound) : [] ∉ w.temps := by
  intro hnil
  obtain ⟨p, hp, hkey⟩ := List.mem_map.1 hnil
  exact (h.kept p hp).key_ne_nil hkey

theorem spared (h : w.Sound) (hs : Disk.Spares w.disk d w.temps) : Sound { w with disk := d } where
  readings r hr :=
    ⟨⟨(h.readings r hr).1.digest, hs.locate (h.readings r hr).1.leads⟩, (h.readings r hr).2⟩
  made := h.made
  kept p hp := (h.kept p hp).spared hs (List.mem_map_of_mem hp)

theorem write (h : w.Sound) {path : String} {bytes : ByteArray} (ha : w.Avoids path) :
    (w.write path bytes).Sound := by
  unfold World.write
  split
  next disk hwrite =>
    obtain ⟨key, hlocate, hdir, rfl⟩ := Disk.writeFile_eq_ok.1 hwrite
    exact h.spared (Disk.spares_put (ha.not_mem hlocate) _ fun hfolder => absurd hfolder hdir)
  next => exact h

theorem remove (h : w.Sound) {path : String} : (w.remove path).Sound := by
  unfold World.remove
  split
  next disk hremove =>
    obtain ⟨key, bytes, hfile, rfl⟩ := Disk.removeFile_eq_ok.1 hremove
    exact h.spared (Disk.spares_erase h.nil_not_mem_temps (by simp [(Disk.fileAt_eq_ok.1 hfile).2]))
  next => exact h

theorem replace (h : w.Sound) {path : String} (ha : w.Avoids path) :
    (w.replace path).Sound := by
  unfold World.replace
  split
  next key hlocate => exact h.spared (Disk.spares_put (ha.not_mem hlocate) _ fun _ => rfl)
  next => exact h

theorem read (h : w.Sound) {path : String} (ha : w.Avoids path) :
    (w.read path).Sound := by
  unfold World.read
  split
  next record key hread hlocate =>
    obtain ⟨content, -, rfl⟩ := Disk.readRecord_eq_ok.1 hread
    constructor
    · intro r hr
      rcases List.mem_append.1 hr with hr | hr
      · exact h.readings r hr
      · obtain rfl := List.mem_singleton.1 hr
        exact ⟨⟨rfl, hlocate⟩, ha.not_mem hlocate⟩
    · intro p hp
      exact ⟨(h.made p hp).1, List.mem_append_left _ (h.made p hp).2⟩
    · exact h.kept
  next => exact h

theorem stage (h : w.Sound) {i : Nat} {id : String} {content : Text}
    (ha : w.Allows (.stage i id content device)) : (w.stage i id content device).Sound := by
  unfold World.stage
  split
  · exact h
  next r hr =>
    split
    next write disk key hstage hlocate =>
      obtain ⟨hnew, hapart⟩ := (Fresh.not_mem (ha r hr)) hlocate
      obtain ⟨-, rfl, key', hlocate', hnone, rfl⟩ := Disk.stage_eq_ok.1 hstage
      obtain rfl : key = key' := Except.ok.inj (hlocate.symm.trans hlocate')
      have hspared := h.spared (d := w.disk.put key (.file content.bytes))
        (Disk.spares_put hnew _ (by simp [hnone]))
      constructor
      · intro r' hr'
        refine ⟨(hspared.readings r' hr').1, ?_⟩
        simp only [World.temps, List.map_append, List.map_cons, List.map_nil]
        intro hmem
        rcases List.mem_append.1 hmem with hmem | hmem
        · exact (h.readings r' hr').2 hmem
        · exact hapart (List.mem_singleton.1 hmem ▸ List.mem_map_of_mem hr')
      · intro p hp
        rcases List.mem_append.1 hp with hp | hp
        · exact h.made p hp
        · obtain rfl := List.mem_singleton.1 hp
          exact ⟨⟨id, rfl⟩, List.mem_of_getElem? hr⟩
      · intro p hp
        rcases List.mem_append.1 hp with hp | hp
        · exact hspared.kept p hp
        · obtain rfl := List.mem_singleton.1 hp
          obtain ⟨hleads, hfile⟩ :=
            Disk.fileAt_eq_ok.1 (Disk.fileAt_put_new hlocate' hnone content.bytes)
          exact ⟨hleads, .inr hfile, by simp⟩
    next outcome disk hstage hrefused =>
      -- A stage that fails leaves the disk as it was; one that succeeds has found the way.
      cases outcome with
      | error error =>
        obtain rfl := Disk.stage_eq_error hstage
        exact h
      | ok made =>
        obtain ⟨-, rfl, key, hlocate, -⟩ := Disk.stage_eq_ok.1 hstage
        exact (hrefused _ key hlocate rfl).elim

theorem mem_of_live? {i : Nat} (hp : w.live? i = some p) : p ∈ w.staged :=
  List.mem_of_getElem? (Option.filter_eq_some_iff.1 hp).1

theorem settle (h : w.Sound) {i : Nat} {fate : Fate} (hp : p ∈ w.staged)
    (hs : Disk.Spares w.disk d w.temps) (hgone : d.get? p.key = none) :
    (w.settle i p fate d).Sound := by
  have hmem : ∀ q ∈ (w.settle i p fate d).staged, q ∈ w.staged ∨ q = { p with fate } :=
    fun q hq => List.mem_or_eq_of_mem_set hq
  have hspared := h.spared hs
  constructor
  · intro r hr
    refine ⟨(hspared.readings r hr).1, fun htemp => (h.readings r hr).2 ?_⟩
    obtain ⟨q, hq, hkey⟩ := List.mem_map.1 htemp
    rcases hmem q hq with hq | rfl
    · exact hkey ▸ List.mem_map_of_mem hq
    · exact List.mem_map.2 ⟨p, hp, hkey⟩
  · intro q hq
    rcases hmem q hq with hq | rfl
    · exact h.made q hq
    · exact h.made p hp
  · intro q hq
    rcases hmem q hq with hq | rfl
    · exact hspared.kept q hq
    · exact ⟨(hspared.kept p hp).leads, .inl hgone, fun _ => hgone⟩

/-- A write is given up. -/
theorem discard (h : w.Sound) {i : Nat} (hp : p ∈ w.staged) :
    (w.settle i p .dropped (w.disk.discard p.write)).Sound :=
  h.settle hp (Disk.spares_discard p.write h.nil_not_mem_temps) (h.kept p hp).gone_of_discard

theorem drop (h : w.Sound) {i : Nat} : (w.drop i).Sound := by
  unfold World.drop
  split
  · exact h
  next p hp => exact h.discard (mem_of_live? hp)

/-- The target of a staged write is where its record was read, and no temporary file. -/
theorem target (h : w.Sound) (hp : p ∈ w.staged) :
    w.disk.locate p.write.target = .ok p.reading.key ∧ p.reading.key ∉ w.temps := by
  obtain ⟨⟨id, hwrite⟩, hr⟩ := h.made p hp
  obtain ⟨⟨-, hleads⟩, hapart⟩ := h.readings p.reading hr
  rw [hwrite]
  exact ⟨hleads, hapart⟩

/-- A publish moves the staged content over the file that was read, if that has its digest. -/
theorem publish_effect (h : w.Sound) {receipt : Receipt} (hp : p ∈ w.staged)
    (hpublish : w.disk.publish device p.write = (.ok receipt, d)) :
    ∃ before, w.disk.fileAt p.reading.record.path = .ok (p.reading.key, before) ∧
      Digest.ofBytes before = p.reading.record.digest ∧
      w.disk.readBytes p.write.temp = .ok p.content.bytes ∧
      receipt = ⟨p.reading.record.path, p.reading.record.digest, Digest.ofText p.content,
        p.content.bytes.size.toUInt64⟩ ∧
      d = (w.disk.erase p.key).put p.reading.key (.file p.content.bytes) := by
  obtain ⟨-, key, before, tempKey, content, htarget, hdigest, htemp, hreceipt, hd⟩ :=
    Disk.publish_eq_ok.1 hpublish
  obtain ⟨htempLeads, hcontent⟩ := Disk.fileAt_eq_ok.1 htemp
  obtain rfl : p.key = tempKey := Except.ok.inj ((h.kept p hp).leads.symm.trans htempLeads)
  obtain rfl : p.reading.key = key :=
    Except.ok.inj ((h.target hp).1.symm.trans (Disk.fileAt_eq_ok.1 htarget).1)
  obtain rfl : p.content.bytes = content := by
    rcases (h.kept p hp).entry with hnone | hkept
    · simp [hnone] at hcontent
    · simpa [hkept] using hcontent
  obtain ⟨id, hwrite⟩ := (h.made p hp).1
  rw [hwrite] at htarget hdigest hreceipt
  exact ⟨before, htarget, hdigest, Disk.readBytes_eq_ok.2 ⟨p.key, htempLeads, hcontent⟩, hreceipt,
    hd⟩

theorem gone_of_publish (h : w.Sound) {receipt : Receipt} (hp : p ∈ w.staged)
    (hpublish : w.disk.publish device p.write = (.ok receipt, d)) : d.get? p.key = none := by
  obtain ⟨before, -, -, -, -, rfl⟩ := h.publish_effect hp hpublish
  have hapart : p.key ≠ p.reading.key := by
    intro heq
    exact (h.target hp).2 (heq ▸ List.mem_map_of_mem hp)
  rw [Disk.get?_put_of_ne _ _ hapart, Disk.get?_erase_self _ (h.kept p hp).key_ne_nil]

theorem publish (h : w.Sound) {i : Nat} : (w.publish i device).Sound := by
  unfold World.publish
  split
  · exact h
  next p hp =>
    have hp := mem_of_live? hp
    split
    next receipt disk hpublish =>
      refine h.settle hp (Disk.spares_publish hpublish (fun key hkey => ?_) h.nil_not_mem_temps)
        (h.gone_of_publish hp hpublish)
      obtain rfl : p.reading.key = key := Except.ok.inj ((h.target hp).1.symm.trans hkey)
      exact (h.target hp).2
    next error disk hpublish =>
      obtain rfl := Disk.publish_eq_error hpublish
      exact h.discard hp

theorem step (h : w.Sound) {a : Act} (ha : w.Allows a) : (w.step a).Sound := by
  cases a with
  | write path bytes => exact h.write ha
  | remove path => exact h.remove
  | replace path => exact h.replace ha
  | read path => exact h.read ha
  | stage i id content device =>
    rw [World.step]
    exact h.stage ha
  | publish i device => exact h.publish
  | drop i => exact h.drop

theorem run (h : w.Sound) {acts : List Act} (ha : w.AllowsAll acts) : (w.run acts).Sound := by
  induction acts generalizing w with
  | nil => exact h
  | cons a acts ih => exact ih (h.step ha.1) ha.2

theorem start (d : Disk) : Sound { disk := d } := ⟨by simp, by simp, by simp⟩

/-! What the steps of a sound world do -/

end World.Sound

end SourceMend
