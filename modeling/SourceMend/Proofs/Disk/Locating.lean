import SourceMend.Disk.Basic
import SourceMend.Proofs.Path

/-!
Where paths lead. The key of a path is the same on every disk with the same working directory: the
disk only decides whether the path gets there, and it does for as long as directories stay.
-/
namespace SourceMend.Disk

variable {d d' : Disk} {key k : Key} {path : String}

/-! Entries after a removal -/

@[simp] theorem get?_nil (d : Disk) : d.get? [] = some .directory := by simp [get?]

theorem key_ne_nil_of_file {bytes : ByteArray} (h : d.get? key = some (.file bytes)) :
    key ≠ [] := by
  rintro rfl
  simp at h

theorem key_ne_nil_of_none (h : d.get? key = none) : key ≠ [] := by
  rintro rfl
  simp at h

theorem lookup_filter (keep : Key → Bool) (k : Key) (es : List (Key × Entry)) :
    (es.filter fun e => keep e.1).lookup k = if keep k then es.lookup k else none := by
  induction es with
  | nil => simp
  | cons e es ih =>
    obtain ⟨k', e⟩ := e
    by_cases hk : k = k'
    · subst hk
      cases hkeep : keep k <;> simp [hkeep, ih]
    · have hb : (k == k') = false := by simpa using hk
      cases hkeep : keep k' <;> simp [hkeep, List.lookup_cons, hb, ih]

theorem get?_erase_self (d : Disk) (h : key ≠ []) : (d.erase key).get? key = none := by
  unfold get? erase
  rw [if_neg h, lookup_filter fun k => decide (k ≠ key)]
  simp

/-- A second entry at a key takes the place of the first one. -/
@[simp] theorem put_put (d : Disk) (key : Key) (e e' : Entry) :
    (d.put key e).put key e' = d.put key e' := by
  simp [put, List.filter_filter]

/-- To take away an entry that was not there before is to undo it. -/
theorem erase_put (e : Entry) (h : d.get? key = none) : (d.put key e).erase key = d := by
  have hnone : ∀ entry ∈ d.entries, entry.1 ≠ key := by
    have hlookup : d.entries.lookup key = none := by
      unfold get? at h
      rwa [if_neg (key_ne_nil_of_none h)] at h
    intro entry hentry heq
    simpa [heq] using (List.lookup_eq_none_iff.1 hlookup) entry hentry
  have hfilter : d.entries.filter (·.1 ≠ key) = d.entries :=
    List.filter_eq_self.2 fun entry hentry => by simpa using hnone entry hentry
  unfold put erase
  rw [List.filter_cons_of_neg (by simp), List.filter_filter]
  simp only [Bool.and_self, hfilter]

/-- All entries are the same, except at some keys. -/
structure SameExcept (d d' : Disk) (keys : List Key) : Prop where
  ground : d'.toGround = d.toGround
  same : ∀ k, k ∉ keys → d'.get? k = d.get? k

theorem SameExcept.refl (d : Disk) (keys : List Key) : d.SameExcept d keys := ⟨rfl, fun _ _ => rfl⟩

theorem sameExcept_put (d : Disk) (key : Key) (e : Entry) : d.SameExcept (d.put key e) [key] :=
  ⟨rfl, fun _ hk => get?_put_of_ne d e (by simpa using hk)⟩

theorem sameExcept_erase (d : Disk) (key : Key) : d.SameExcept (d.erase key) [key] :=
  ⟨rfl, fun _ hk => get?_erase_of_ne d (by simpa using hk)⟩

/-- An entry is moved over another one. -/
theorem sameExcept_move (d : Disk) (source target : Key) (e : Entry) :
    d.SameExcept ((d.erase source).put target e) [target, source] := by
  refine ⟨rfl, fun k hk => ?_⟩
  obtain ⟨htarget, hsource⟩ : k ≠ target ∧ k ≠ source := by simpa using hk
  rw [get?_put_of_ne _ _ htarget, get?_erase_of_ne _ hsource]

/-- Directories stay when the entries that change are none. -/
theorem SameExcept.folder {keys : List Key} {a : Key} (h : d.SameExcept d' keys)
    (hkeys : ∀ key ∈ keys, d.get? key ≠ some .directory) (ha : d.get? a = some .directory) :
    d'.get? a = some .directory := by
  rw [h.same a fun hmem => hkeys a hmem ha, ha]

/-! Following a path -/

theorem checkFolder_eq_ok : d.checkFolder key = .ok () ↔ d.get? key = some .directory := by
  unfold checkFolder
  split <;> simp_all

/-- Where a piece of a path leads from a key, if the key is a directory. -/
def turn? (key : Key) (piece : Text) : Option Key :=
  match Path.step? piece with
  | none => some key
  | some (.name s) => (enter key s).toOption
  | some _ => some key.dropLast

theorem follow_cons_eq_ok {piece : Text} {rest : List Text} :
    d.follow key (piece :: rest) = .ok k ↔
      d.get? key = some .directory ∧
        ∃ next, turn? key piece = some next ∧ d.follow next rest = .ok k := by
  rw [follow, ← checkFolder_eq_ok, turn?]
  cases d.checkFolder key with
  | error cause => simp
  | ok =>
    rcases Path.step? piece with _ | (_ | _ | _ | s)
    · simp
    · simp
    · simp
    · simp
    · cases h : enter key s <;> simp [h, Except.toOption]

/-- The way to a key stays open when directories stay. -/
theorem follow_of_folders {ps : List Text} (h : d.follow key ps = .ok k)
    (hd : ∀ a, d.get? a = some .directory → d'.get? a = some .directory) :
    d'.follow key ps = .ok k := by
  induction ps generalizing key with
  | nil => exact h
  | cons piece rest ih =>
    obtain ⟨hkey, next, hturn, hnext⟩ := follow_cons_eq_ok.1 h
    exact follow_cons_eq_ok.2 ⟨hd key hkey, next, hturn, ih hnext⟩

theorem follow_append_eq_ok {ps qs : List Text} :
    d.follow key (ps ++ qs) = .ok k ↔
      ∃ mid, d.follow key ps = .ok mid ∧ d.follow mid qs = .ok k := by
  induction ps generalizing key with
  | nil => simp [follow]
  | cons piece ps ih =>
    simp only [List.cons_append, follow_cons_eq_ok, ih]
    grind

theorem follow_cons {piece : Text} {rest : List Text} {next : Key}
    (hkey : d.get? key = some .directory) (hturn : turn? key piece = some next) :
    d.follow key (piece :: rest) = d.follow next rest := by
  rw [follow, checkFolder_eq_ok.2 hkey]
  unfold turn? at hturn
  rcases hstep : Path.step? piece with _ | (_ | _ | _ | s)
  · rw [hstep] at hturn
    rw [Option.some.inj hturn]
  · simp_all
  · simp_all
  · simp_all
  · rw [hstep] at hturn
    cases henter : enter key s <;> simp_all [Except.toOption]

theorem follow_append {ps qs : List Text} {mid : Key} (h : d.follow key ps = .ok mid) :
    d.follow key (ps ++ qs) = d.follow mid qs := by
  induction ps generalizing key with
  | nil =>
    obtain rfl := Except.ok.inj h
    rfl
  | cons piece ps ih =>
    obtain ⟨hkey, next, hturn, hnext⟩ := follow_cons_eq_ok.1 h
    rw [List.cons_append, follow_cons hkey hturn]
    exact ih hnext

theorem follow_congr {ps : List Text} (h : ∀ a, d'.checkFolder a = d.checkFolder a) :
    d'.follow key ps = d.follow key ps := by
  induction ps generalizing key with
  | nil => rfl
  | cons piece rest ih =>
    unfold follow
    simp only [h, ih]

/-! Locating a path -/

theorem start_congr (h : d'.toGround = d.toGround) (t : Text) : d'.start t = d.start t := by
  unfold start
  rw [congrArg Ground.cwd h]

theorem locate_eq_ok : d.locate path = .ok key ↔
    checkPath path.toList = .ok () ∧
      d.follow (d.start path.toList) (Path.pieces path.toList) = .ok key := by
  unfold locate
  split <;> simp_all

theorem locate_of_folders (hground : d'.toGround = d.toGround) (h : d.locate path = .ok key)
    (hd : ∀ a, d.get? a = some .directory → d'.get? a = some .directory) :
    d'.locate path = .ok key := by
  obtain ⟨hcheck, hfollow⟩ := locate_eq_ok.1 h
  refine locate_eq_ok.2 ⟨hcheck, ?_⟩
  rw [start_congr hground]
  exact follow_of_folders hfollow hd

theorem SameExcept.locate {keys : List Key} (h : d.SameExcept d' keys)
    (hkeys : ∀ key ∈ keys, d.get? key ≠ some .directory) (hpath : d.locate path = .ok k) :
    d'.locate path = .ok k :=
  locate_of_folders h.ground hpath fun _ => h.folder hkeys

theorem locate_congr (hground : d'.toGround = d.toGround)
    (h : ∀ a, d'.checkFolder a = d.checkFolder a) : d'.locate path = d.locate path := by
  unfold locate
  rw [start_congr hground, follow_congr h]

theorem entryAt_eq_ok {e : Entry} :
    d.entryAt path = .ok (key, e) ↔ d.locate path = .ok key ∧ d.get? key = some e := by
  unfold entryAt
  cases hl : d.locate path with
  | error cause => simp
  | ok found => cases hg : d.get? found <;> grind

theorem fileAt_eq_ok {bytes : ByteArray} : d.fileAt path = .ok (key, bytes) ↔
    d.locate path = .ok key ∧ d.get? key = some (.file bytes) := by
  unfold fileAt entryAt
  cases hl : d.locate path with
  | error cause => simp
  | ok found =>
    rcases hg : d.get? found with _ | (content | _) <;> simp <;> grind

theorem readBytes_eq_ok {bytes : ByteArray} : d.readBytes path = .ok bytes ↔
    ∃ key, d.locate path = .ok key ∧ d.get? key = some (.file bytes) := by
  simp only [← fileAt_eq_ok, readBytes]
  cases d.fileAt path with
  | error fault => simp [Except.map]
  | ok found =>
    obtain ⟨key, content⟩ := found
    simp [Except.map]

theorem writeFile_eq_ok {bytes : ByteArray} : d.writeFile path bytes = .ok d' ↔
    ∃ key, d.locate path = .ok key ∧ d.get? key ≠ some .directory ∧
      d' = d.put key (.file bytes) := by
  unfold writeFile
  cases d.locate path with
  | error cause => simp
  | ok key =>
    by_cases hdir : d.get? key = some .directory
    · simp [hdir]
    · simpa [hdir] using eq_comm

theorem readBytes_congr (hl : d'.locate path = d.locate path)
    (hk : ∀ key, d.locate path = .ok key → d'.get? key = d.get? key) :
    d'.readBytes path = d.readBytes path := by
  unfold readBytes fileAt entryAt
  rw [hl]
  cases h : d.locate path with
  | error cause => rfl
  | ok key => simp only [hk key h]

theorem removeFile_eq_ok : d.removeFile path = .ok d' ↔
    ∃ key bytes, d.fileAt path = .ok (key, bytes) ∧ d' = d.erase key := by
  unfold removeFile fileAt
  cases d.entryAt path with
  | error cause => simp
  | ok found =>
    obtain ⟨key, bytes | _⟩ := found <;> simp [eq_comm]

end SourceMend.Disk
