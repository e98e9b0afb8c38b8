import SourceMend.Proofs.Disk.Tree

/-!
Where temporary files lie. A path to a file leads to a directory and ends in a name there. The
temporary file of the path lies in the same directory, under a name from which its own mark can be
read off, so that files with different marks never share a temporary file.
-/
namespace SourceMend

/-- The name of a temporary file. -/
def tempName (name : Text) (id : String) : Text :=
  s!".{String.ofList name}.syntaxfix.{id}.tmp".toList

theorem tempName_eq (name : Text) (id : String) :
    tempName name id =
      '.' :: name ++ ".syntaxfix".toList ++ '.' :: (id.toList ++ ".tmp".toList) := by
  simp [tempName, toString]

/-- The mark of a temporary file can be read off its name. -/
theorem eq_of_tempName_eq {name name' : Text} {id id' : String} (hid : '.' ∉ id.toList)
    (hid' : '.' ∉ id'.toList) (h : tempName name id = tempName name' id') : id = id' := by
  have hmark {front mark : Text} (hdot : '.' ∉ mark) :
      (front ++ '.' :: mark).reverse.takeWhile (· ≠ '.') = mark.reverse := by
    rw [List.reverse_append, List.reverse_cons, List.append_assoc, List.takeWhile_append_of_pos]
    · simp
    · intro c hc
      have hc : c ∈ mark := List.mem_reverse.1 hc
      simpa using fun heq : c = '.' => hdot (heq ▸ hc)
  rw [tempName_eq, tempName_eq, ← List.cons_append, ← List.cons_append, ← List.append_assoc,
    ← List.append_assoc, List.append_left_inj] at h
  have h := congrArg (fun t => t.reverse.takeWhile (· ≠ '.')) h
  rw [hmark hid, hmark hid', List.reverse_inj] at h
  exact String.toList_inj.1 h

namespace Disk

variable {d d' : Disk} {key k : Key} {path : String}

/-- Pieces that count for nothing may be left out at the end. -/
theorem follow_trimEnd {ps : List Text} (h : d.follow key ps = .ok k) :
    d.follow key (Path.trimEnd ps) = .ok k := by
  fun_induction Path.trimEnd ps generalizing key with
  | case1 | case2 => exact h
  | case3 p ps hne q hq hblank ih =>
    obtain ⟨hkey, next, hturn, hnext⟩ := follow_cons_eq_ok.1 h
    have hrest := ih hnext
    rw [hq] at hrest
    obtain ⟨-, last, hlast, hk⟩ := follow_cons_eq_ok.1 hrest
    have hstep : Path.step? q = none := if_pos hblank
    unfold turn? at hlast
    rw [hstep] at hlast
    exact follow_cons_eq_ok.2 ⟨hkey, next, hturn, (Option.some.inj hlast) ▸ hk⟩
  | case4 p ps hne q hq hblank ih =>
    obtain ⟨hkey, next, hturn, hnext⟩ := follow_cons_eq_ok.1 h
    exact follow_cons_eq_ok.2 ⟨hkey, next, hturn, hq ▸ ih hnext⟩
  | case5 p ps hne hq ih =>
    obtain ⟨hkey, next, hturn, hnext⟩ := follow_cons_eq_ok.1 h
    exact follow_cons_eq_ok.2 ⟨hkey, next, hturn, ih hnext⟩

/-- A path that is joined to another one starts where that one leads to. -/
theorem follow_join {base t : Text} (hbase : base ≠ []) (ht : Path.isAbsolute t = false)
    (h : d.follow k (Path.pieces base) = .ok key) :
    d.follow k (Path.pieces (Path.join base t)) = d.follow key (Path.pieces t) := by
  unfold Path.join
  rw [if_neg (by simp [hbase, ht])]
  split
  next hlast =>
    obtain ⟨front, rfl⟩ := List.getLast?_eq_some_iff.1 hlast
    rw [Path.pieces_append_slash] at h
    obtain ⟨mid, hmid, hblank⟩ := follow_append_eq_ok.1 h
    obtain ⟨-, next, hturn, hnext⟩ := follow_cons_eq_ok.1 hblank
    obtain rfl : next = key := Except.ok.inj hnext
    obtain rfl : mid = next := Option.some.inj hturn
    rw [List.append_assoc, List.singleton_append, Path.pieces_append_slash]
    exact follow_append hmid
  next =>
    rw [Path.pieces_append_slash]
    exact follow_append h

theorem ne_nil_of_checkPath {t : Text} (h : checkPath t = .ok ()) : t ≠ [] := by
  rintro rfl
  contradiction

/-- A directory is found by the pieces in front of a name. -/
theorem follow_folder {front : List Text} {base : Text} (h : d.follow key front = .ok k)
    (hk : d.get? k = some .directory) (hbase : Path.pieces base = Path.trimEnd front ∨
      Path.trimEnd front = [[]] ∧ Path.pieces base = [[], []]) :
    d.follow key (Path.pieces base) = .ok k := by
  have htrim := follow_trimEnd h
  rcases hbase with heq | ⟨hroot, heq⟩
  · rwa [heq]
  · rw [hroot] at htrim
    have hblank : turn? k [] = some k := rfl
    rw [heq, ← List.singleton_append, follow_append htrim, follow_cons hk hblank]
    rfl

/-- A path leads to a directory, and ends in a name there. -/
structure LiesIn (d : Disk) (path : String) (folder : Key) (name : Text) : Prop where
  checked : checkPath path.toList = .ok ()
  named : Path.step? name = some (.name name)
  leads : ∃ front, Path.pieces path.toList = front ++ [name] ∧
    d.follow (d.start path.toList) front = .ok folder
  is_folder : d.get? folder = some .directory

/-- The path of a file lies in a directory. -/
theorem WellFormed.liesIn (h : d.WellFormed) {bytes : ByteArray} (hpath : d.locate path = .ok key)
    (hfile : d.get? key = some (.file bytes)) :
    ∃ folder name, d.LiesIn path folder name ∧ enter folder name = .ok key := by
  obtain ⟨hcheck, hfollow⟩ := locate_eq_ok.1 hpath
  obtain ⟨front, name, hpieces⟩ :=
    (List.eq_nil_or_concat' (Path.pieces path.toList)).resolve_left (Path.pieces_ne_nil _)
  rw [hpieces] at hfollow
  obtain ⟨folder, hfront, hlast⟩ := follow_append_eq_ok.1 hfollow
  obtain ⟨hfolder, next, hturn, hnext⟩ := follow_cons_eq_ok.1 hlast
  obtain rfl : next = key := Except.ok.inj hnext
  unfold turn? at hturn
  rcases Path.step?_cases name with hstep | hstep | hstep <;> rw [hstep] at hturn
  · obtain rfl : folder = next := Option.some.inj hturn
    simp [hfile] at hfolder
  · -- Nothing above a directory is a file.
    obtain rfl : folder.dropLast = next := Option.some.inj hturn
    have hp : folder.dropLast <+: folder := List.dropLast_prefix folder
    have habove : d.get? folder.dropLast = some .directory := by
      by_cases heq : folder.dropLast = folder
      · rwa [heq]
      · exact h.folder_above (by rw [hfolder]; rfl) hp heq
    simp [hfile] at habove
  · refine ⟨folder, name, ⟨hcheck, hstep, ⟨front, hpieces, hfront⟩, hfolder⟩, ?_⟩
    cases henter : enter folder name <;> simp_all [Except.toOption]

theorem LiesIn.mono {folder : Key} {name : Text} (h : d.LiesIn path folder name)
    (hground : d'.toGround = d.toGround)
    (hd : ∀ a, d.get? a = some .directory → d'.get? a = some .directory) :
    d'.LiesIn path folder name := by
  obtain ⟨front, hpieces, hfront⟩ := h.leads
  refine ⟨h.checked, h.named, ⟨front, hpieces, ?_⟩, hd _ h.is_folder⟩
  rw [start_congr hground]
  exact follow_of_folders hfront hd

/-- The temporary file of a path lies in the same directory. -/
theorem LiesIn.locate_tempPath {folder : Key} {name : Text} {id : String}
    (h : d.LiesIn path folder name) (hid : '/' ∉ id.toList) :
    d.locate (tempPath path id) =
      (checkPath (tempPath path id).toList).bind fun _ => enter folder (tempName name id) := by
  obtain ⟨front, hpieces, hfront⟩ := h.leads
  have hslash : '/' ∉ name :=
    Path.not_mem_of_mem_pieces (t := path.toList) (by rw [hpieces]; simp)
  have htemp : Path.pieces (tempName name id) = [tempName name id] := by
    refine Path.pieces_of_not_mem ?_
    simp [tempName_eq, hslash, hid]
  have hrelative : Path.isAbsolute (tempName name id) = false := by
    simp [Path.isAbsolute, tempName_eq]
  have hlast : d.follow folder [tempName name id] = enter folder (tempName name id) := by
    have hstep : Path.step? (tempName name id) = some (.name (tempName name id)) := by
      have hlength : 2 < (tempName name id).length := by
        simp [tempName_eq]
        omega
      unfold Path.step?
      rw [if_neg, if_neg]
      · rintro heq
        simp [heq] at hlength
      · rintro (heq | heq) <;> simp [heq] at hlength
    rw [follow, checkFolder_eq_ok.2 h.is_folder, hstep]
    dsimp only
    cases enter folder (tempName name id) <;> rfl
  have hpath : (tempPath path id).toList =
      (Path.folder? path.toList).elim (tempName name id) (Path.join · (tempName name id)) := by
    unfold tempPath Path.fileName?
    rw [Path.getLast?_steps hpieces h.named]
    cases Path.folder? path.toList <;> simp [tempName]
  have hfollow : d.follow (d.start (tempPath path id).toList)
      (Path.pieces (tempPath path id).toList) = enter folder (tempName name id) := by
    rw [hpath]
    by_cases hempty : front = []
    · subst hempty
      have hname : Path.isAbsolute path.toList = false := by simp [Path.isAbsolute_eq hpieces]
      rw [Path.folder?_eq hpieces h.named, if_pos rfl, Option.elim_none, htemp, ← hlast]
      unfold start at hfront ⊢
      rw [hname] at hfront
      rw [hrelative, Except.ok.inj hfront]
    · obtain ⟨base, hbase, hne, habsolute, hpieces'⟩ :=
        Path.exists_folder? hpieces h.named hempty
      have hstart : d.start (Path.join base (tempName name id)) = d.start path.toList := by
        unfold start
        rw [Path.isAbsolute_join hne hrelative, habsolute]
      rw [hbase, Option.elim_some, hstart, follow_join hne hrelative, htemp, hlast]
      exact follow_folder hfront h.is_folder hpieces'
  unfold locate
  cases hcheck : checkPath (tempPath path id).toList with
  | error cause => rfl
  | ok =>
    dsimp only [Except.bind]
    exact hfollow

theorem LiesIn.eq_of_locate_tempPath {id : String} {folder : Key} {name : Text}
    (h : d.LiesIn path folder name) (hid : '/' ∉ id.toList)
    (hkey : d.locate (tempPath path id) = .ok key) :
    key = folder ++ [String.ofList (tempName name id)] := by
  rw [h.locate_tempPath hid] at hkey
  cases hcheck : checkPath (tempPath path id).toList with
  | error cause =>
    rw [hcheck] at hkey
    exact nomatch hkey
  | ok =>
    rw [hcheck] at hkey
    have hkey : enter folder (tempName name id) = .ok key := hkey
    unfold enter at hkey
    split at hkey
    · exact nomatch hkey
    · exact (Except.ok.inj hkey).symm

/-- Temporary files in the same place have the same mark. -/
theorem LiesIn.id_eq_of_locate {path' id id' : String} {folder folder' : Key} {name name' : Text}
    (h : d.LiesIn path folder name) (h' : d.LiesIn path' folder' name')
    (hid : '/' ∉ id.toList ∧ '.' ∉ id.toList) (hid' : '/' ∉ id'.toList ∧ '.' ∉ id'.toList)
    (hkey : d.locate (tempPath path id) = .ok key)
    (hkey' : d.locate (tempPath path' id') = .ok key) : id = id' := by
  have heq := (h.eq_of_locate_tempPath hid.1 hkey).symm.trans
    (h'.eq_of_locate_tempPath hid'.1 hkey')
  have hname : [String.ofList (tempName name id)] = [String.ofList (tempName name' id')] :=
    List.append_inj_right' heq (by rw [List.length_singleton, List.length_singleton])
  exact eq_of_tempName_eq hid.2 hid'.2 (String.ofList_inj.1 (List.singleton_inj.1 hname))

end Disk
end SourceMend
