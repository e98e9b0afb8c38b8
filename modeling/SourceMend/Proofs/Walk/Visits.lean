import SourceMend.Proofs.Disk.Temporary
import SourceMend.Proofs.Walk
import SourceMend.Proofs.Walk.Spelling

/-!
What a walk comes by. Each candidate of a root is made for a file that the root leads to, so that a
walk lists nothing but such files, and for each of them that it selects an entry with the same
display path.
-/
namespace SourceMend.Walker

variable {w : Walker} {d : Disk} {st : State} {root path : String} {key : Key} {e : WalkEntry}

/-- A walk from `root` comes by the file at `key` on this path. -/
inductive Reach (d : Disk) (root : String) : String → Key → Prop
  | itself {key : Key} {bytes : ByteArray} (file : d.entryAt root = .ok (key, .file bytes)) :
    Reach d root root key
  | below {folder names : Key} {bytes : ByteArray}
    (directory : d.entryAt root = .ok (folder, .directory))
    (file : d.get? (folder ++ names) = some (.file bytes))
    (open_above : d.isOpen root folder names = true) :
    Reach d root (Path.below root names) (folder ++ names)

/-! Listing candidates -/

/-- There is the entry of a file with this display path. -/
def State.Has (st : State) (display : String) : Prop :=
  ∃ e ∈ st.entries, e.isBlocked = false ∧ e.display = display

/-- Whatever display path is taken, there is the entry of a file with it. -/
def State.Backed (st : State) : Prop := ∀ x ∈ st.taken, st.Has x

theorem State.entries_list (st : State) (e : WalkEntry) :
    (st.list e).entries = st.entries ∨ (st.list e).entries = st.entries ++ [e] := by
  unfold State.list State.add State.note
  split_ifs
  · exact .inr rfl
  · exact .inl rfl
  · exact .inr rfl

theorem State.mem_list {e' : WalkEntry} (h : e' ∈ (st.list e).entries) :
    e' ∈ st.entries ∨ e' = e := by
  rcases st.entries_list e with heq | heq <;> rw [heq] at h
  · exact .inl h
  · simpa using h

theorem State.mem_list_of_mem {e' : WalkEntry} (h : e' ∈ st.entries) :
    e' ∈ (st.list e).entries := by
  rcases st.entries_list e with heq | heq <;> rw [heq]
  · exact h
  · exact List.mem_append_left _ h

theorem State.Has.list {x : String} (h : st.Has x) (e : WalkEntry) : (st.list e).Has x := by
  obtain ⟨e', he', hfound⟩ := h
  exact ⟨e', State.mem_list_of_mem he', hfound⟩

theorem State.Backed.list (h : st.Backed) (e : WalkEntry) :
    (st.list e).Backed ∧ (e.isBlocked = false → (st.list e).Has e.display) := by
  have hlist {x : String} (hx : x ∈ st.taken) : (st.list e).Has x := (h x hx).list e
  unfold State.list at hlist ⊢
  split
  next hblocked =>
    rw [if_pos hblocked] at hlist
    refine ⟨fun x hx => hlist hx, fun hfree => ?_⟩
    rw [hfree] at hblocked
    contradiction
  next hfree =>
    rw [if_neg hfree] at hlist
    have hfree : e.isBlocked = false := by simpa using hfree
    unfold State.add at hlist ⊢
    split
    next htaken => exact ⟨h, fun _ => h _ (List.contains_iff_mem.1 htaken)⟩
    next hnew =>
      rw [if_neg hnew] at hlist
      have hself : State.Has ⟨st.entries ++ [e], e.display :: st.taken⟩ e.display :=
        ⟨e, by simp, hfree, rfl⟩
      refine ⟨fun x hx => ?_, fun _ => hself⟩
      rcases List.mem_cons.1 hx with rfl | hx
      · exact hself
      · exact hlist hx

theorem State.mem_foldl_list {es : List WalkEntry} (h : e ∈ (es.foldl State.list st).entries) :
    e ∈ st.entries ∨ e ∈ es := by
  induction es generalizing st with
  | nil => exact .inl h
  | cons e' es ih =>
    rcases ih h with h | h
    · rcases State.mem_list h with h | rfl
      · exact .inl h
      · exact .inr List.mem_cons_self
    · exact .inr (List.mem_cons_of_mem e' h)

theorem State.Has.foldl_list {x : String} (h : st.Has x) (es : List WalkEntry) :
    (es.foldl State.list st).Has x := by
  induction es generalizing st with
  | nil => exact h
  | cons e es ih => exact ih (h.list e)

theorem State.Backed.foldl_list (h : st.Backed) {es : List WalkEntry} (he : e ∈ es)
    (hfree : e.isBlocked = false) : (es.foldl State.list st).Has e.display := by
  induction es generalizing st with
  | nil => contradiction
  | cons first es ih =>
    obtain ⟨hbacked, hfirst⟩ := h.list first
    rcases List.mem_cons.1 he with rfl | he
    · exact (hfirst hfree).foldl_list es
    · exact ih hbacked he

/-! Entries and files -/

/-- The entry is one for the file on this path. -/
structure MadeFor (w : Walker) (e : WalkEntry) (path : String) : Prop where
  free : e.isBlocked = false
  display : e.display = displayPath path
  source : ∀ src, e = .source src → src.path = path ∧ w.selects path = true

theorem eq_source_of_source? {src : SourceFile} (h : e.source? = some src) : e = .source src := by
  cases e with
  | source file => exact congrArg WalkEntry.source (Option.some.inj h)
  | skipped | blocked => contradiction

theorem eq_source_of_classify {path display seen : String} {src : SourceFile}
    (h : w.classify path display seen = .source src) : src = ⟨path, display⟩ := by
  unfold classify at h
  split at h
  · contradiction
  · exact (WalkEntry.source.inj h).symm

theorem madeFor_rootEntry (w : Walker) (root : String) : w.MadeFor (w.rootEntry root) root := by
  refine ⟨isBlocked_rootEntry w root, display_rootEntry w root, fun src hsrc => ?_⟩
  unfold rootEntry at hsrc
  split at hsrc
  · next hselects =>
    obtain rfl := eq_source_of_classify hsrc
    exact ⟨rfl, hselects⟩
  · contradiction

theorem madeFor_entryBelow {names : Key} (h : w.selects (Path.below root names) = true) :
    w.MadeFor (w.entryBelow root names) (Path.below root names) := by
  refine ⟨isBlocked_entryBelow w root names, display_entryBelow w root names, fun src hsrc => ?_⟩
  obtain rfl := eq_source_of_classify hsrc
  exact ⟨rfl, h⟩

theorem names_ne_nil {names : Key} {bytes : ByteArray} (hkey : d.get? key = some .directory)
    (hfile : d.get? (key ++ names) = some (.file bytes)) : names ≠ [] := by
  rintro rfl
  simp [hkey] at hfile

/-- Every candidate that is not in the way is made for a file that the walk comes by. -/
theorem exists_reach_of_mem_candidates (hd : d.Proper) (h : e ∈ w.candidates d root)
    (hfree : e.isBlocked = false) : ∃ path key, Reach d root path key ∧ w.MadeFor e path := by
  unfold candidates at h
  split at h
  · contradiction
  · next key bytes hentry =>
    obtain rfl := List.mem_singleton.1 h
    exact ⟨root, key, .itself hentry, madeFor_rootEntry w root⟩
  · next folder hentry =>
    obtain ⟨s, hs, rfl⟩ := List.mem_map.1 h
    obtain ⟨hs, hnotes⟩ := List.mem_filter.1 hs
    cases s with
    | file names =>
      obtain ⟨hnames, hopen⟩ := Disk.mem_sightings_file.1 hs
      obtain ⟨-, bytes, hfile⟩ := hd.mem_filesBelow.1 hnames
      exact ⟨_, _, .below hentry hfile hopen, madeFor_entryBelow hnotes⟩
    | closed | stray => contradiction

/-- Every selected file that the walk comes by is a candidate. -/
theorem Reach.exists_candidate (hd : d.Proper) (h : Reach d root path key)
    (hselects : w.selects path = true) :
    ∃ e ∈ w.candidates d root, e.isBlocked = false ∧ e.display = displayPath path := by
  cases h with
  | itself hfile =>
    refine ⟨w.rootEntry root, ?_, isBlocked_rootEntry w root, display_rootEntry w root⟩
    unfold candidates
    rw [hfile]
    exact List.mem_singleton_self _
  | @below folder names bytes hfolder hfile hopen =>
    refine ⟨w.entryBelow root names, ?_, isBlocked_entryBelow w root names,
      display_entryBelow w root names⟩
    have hnames : names ∈ d.filesBelow folder :=
      hd.mem_filesBelow.2 ⟨names_ne_nil (Disk.entryAt_eq_ok.1 hfolder).2 hfile, bytes, hfile⟩
    have hseen : .file names ∈ d.sightings root folder :=
      Disk.mem_sightings_file.2 ⟨hnames, hopen⟩
    unfold candidates
    rw [hfolder]
    exact List.mem_map.2 ⟨_, List.mem_filter.2 ⟨hseen, hselects⟩, rfl⟩

/-- Every entry of a walk that is not in the way is made for a file that it comes by. -/
theorem exists_reach_of_mem_walk {found : List WalkEntry} (hd : d.Proper)
    (h : w.walk d = .ok found) (he : e ∈ found) (hfree : e.isBlocked = false) :
    ∃ root ∈ w.roots, ∃ path key, Reach d root path key ∧ w.MadeFor e path := by
  obtain ⟨-, rfl⟩ := walk_eq_ok.1 h
  rcases State.mem_foldl_list he with he | he
  · contradiction
  · obtain ⟨root, hroot, he⟩ := List.mem_flatMap.1 he
    exact ⟨root, hroot, exists_reach_of_mem_candidates hd he hfree⟩

/-- Every selected file that a walk comes by has an entry with its display path. -/
theorem Reach.exists_entry {found : List WalkEntry} (hd : d.Proper) (h : w.walk d = .ok found)
    (hroot : root ∈ w.roots) (hreach : Reach d root path key) (hselects : w.selects path = true) :
    ∃ e ∈ found, e.isBlocked = false ∧ e.display = displayPath path := by
  obtain ⟨-, rfl⟩ := walk_eq_ok.1 h
  obtain ⟨e, he, hfree, hdisplay⟩ := hreach.exists_candidate hd hselects
  have hbacked : State.Backed {} := fun _ hx => nomatch hx
  rw [← hdisplay]
  exact hbacked.foldl_list (List.mem_flatMap.2 ⟨root, hroot, he⟩) hfree

/-! Where paths lead -/

theorem toList_below {names : Key} (h : names ≠ []) : (Path.below root names).toList =
    Path.join root.toList (Path.ofPieces (names.map String.toList)) := by
  rw [Path.below, if_neg h, String.toList_ofList]

/-- The names below a directory that lead to a file. -/
theorem pieces_names (hd : d.WellFormed) {names : Key} {bytes : ByteArray}
    (hkey : d.get? key = some .directory) (hfile : d.get? (key ++ names) = some (.file bytes)) :
    Path.pieces (Path.ofPieces (names.map String.toList)) = names.map String.toList ∧
      Path.isAbsolute (Path.ofPieces (names.map String.toList)) = false ∧
      ∀ p ∈ names.map String.toList, Path.step? p ≠ none := by
  have hname : ∀ name ∈ names, Disk.IsName name := by
    intro name hname
    refine hd.named _ (Disk.mem_entries_of_get? hfile (Disk.key_ne_nil_of_file hfile)) name ?_
    exact List.mem_append_right _ hname
  have hnames : names ≠ [] := names_ne_nil hkey hfile
  refine ⟨?_, ?_, ?_⟩
  · refine Path.pieces_ofPieces (by simpa using hnames) fun p hp => ?_
    obtain ⟨name, hmem, rfl⟩ := List.mem_map.1 hp
    exact (hname name hmem).1
  · obtain ⟨name, rest, rfl⟩ := List.exists_cons_of_ne_nil hnames
    obtain ⟨hslash, hstep, -⟩ := hname name List.mem_cons_self
    cases htext : name.toList with
    | nil =>
      rw [htext] at hstep
      contradiction
    | cons c cs =>
      have hc : c ≠ '/' := by
        rintro rfl
        simp [htext] at hslash
      cases rest <;> simp [Path.ofPieces, Path.isAbsolute, htext, hc]
  · intro p hp
    obtain ⟨name, hmem, rfl⟩ := List.mem_map.1 hp
    simp [(hname name hmem).2.1]

/-- The path on which a walk comes by a file leads there. -/
theorem Reach.follow (hd : d.WellFormed) (h : Reach d root path key) :
    d.follow (d.start path.toList) (Path.pieces path.toList) = .ok key := by
  cases h with
  | itself hfile => exact (Disk.locate_eq_ok.1 (Disk.entryAt_eq_ok.1 hfile).1).2
  | @below folder names bytes hfolder hfile hopen =>
    obtain ⟨hlocate, hdirectory⟩ := Disk.entryAt_eq_ok.1 hfolder
    obtain ⟨hcheck, hfollow⟩ := Disk.locate_eq_ok.1 hlocate
    have hbase := Disk.ne_nil_of_checkPath hcheck
    obtain ⟨hpieces, hrelative, -⟩ := pieces_names hd hdirectory hfile
    rw [toList_below (names_ne_nil hdirectory hfile)]
    unfold Disk.start at hfollow ⊢
    rw [Path.isAbsolute_join hbase hrelative, Disk.follow_join hbase hrelative hfollow, hpieces]
    exact hd.follow_names (by rw [hfile]; rfl)

theorem Reach.exists_file (h : Reach d root path key) :
    ∃ bytes, d.get? key = some (.file bytes) := by
  cases h with
  | itself hfile => exact ⟨_, (Disk.entryAt_eq_ok.1 hfile).2⟩
  | below hfolder hfile hopen => exact ⟨_, hfile⟩

end SourceMend.Walker
