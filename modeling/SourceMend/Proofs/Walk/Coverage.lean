import Mathlib.Data.List.Nodup
import Mathlib.Data.List.Perm.Subperm
import SourceMend.Proofs.Walk.Visits

/-!
Each file once, and every file. A walk knows a file by its display path. Two spellings of one file
have one display path if the roots are spelled tidily, and two files have two if no name on the way
to them holds a backslash, and no `.` in front hides that a path is not absolute; apart from that a
walk can list a file twice, or leave it out.
-/
namespace SourceMend.Walker

variable {w : Walker} {d : Disk} {root path : String} {key : Key}

/-! One file, two paths -/

/-- A root that is a file does not end in a slash. -/
theorem chomp_of_file {bytes : ByteArray} (h : d.entryAt root = .ok (key, .file bytes)) :
    Path.chomp root.toList = root.toList := by
  unfold Path.chomp
  rw [if_neg]
  intro hlast
  obtain ⟨hlocate, hfile⟩ := Disk.entryAt_eq_ok.1 h
  obtain ⟨front, hroot⟩ := List.getLast?_eq_some_iff.1 hlast
  have hfollow := (Disk.locate_eq_ok.1 hlocate).2
  rw [hroot, Path.pieces_append_slash] at hfollow
  obtain ⟨mid, -, hend⟩ := Disk.follow_append_eq_ok.1 hfollow
  obtain ⟨hfolder, next, hturn, hnext⟩ := Disk.follow_cons_eq_ok.1 hend
  obtain rfl : mid = next := Option.some.inj hturn
  obtain rfl : mid = key := Except.ok.inj hnext
  simp [hfile] at hfolder

/-- What lies below a tidy root has a tidy path. -/
theorem Reach.tidy (hd : d.WellFormed) (h : Reach d root path key)
    (htidy : Path.Tidy (Path.chomp root.toList)) : Path.Tidy path.toList := by
  cases h with
  | itself hfile => rwa [chomp_of_file hfile] at htidy
  | @below folder names bytes hfolder hfile hopen =>
    obtain ⟨hlocate, hdirectory⟩ := Disk.entryAt_eq_ok.1 hfolder
    have hbase := Disk.ne_nil_of_checkPath (Disk.locate_eq_ok.1 hlocate).1
    obtain ⟨hpieces, hrelative, hcounts⟩ := pieces_names hd hdirectory hfile
    rw [toList_below (names_ne_nil hdirectory hfile)]
    exact htidy.join hbase hrelative (by rwa [hpieces])

/-- A selected path ends in a name. -/
theorem course_ne_nil (h : w.selects path = true) : Path.course path.toList ≠ [] := by
  obtain ⟨ext, hext, -⟩ := (Option.any_eq_true _ _).1 h
  obtain ⟨name, hname, -⟩ := Option.bind_eq_some_iff.1 hext
  have hmem : Path.Step.name name ∈ Path.steps path.toList := by
    unfold Path.fileName? at hname
    split at hname
    · next s hs =>
      obtain rfl := Option.some.inj hname
      exact List.mem_of_getLast? hs
    · contradiction
  exact List.ne_nil_of_mem (List.mem_filter.2 ⟨hmem, by simp⟩)

/-- A walk over roots that exist lists no file under two paths, unless it comes by one of them from
a root with a `.` or a slash too many, or with a dot and a backslash in front. -/
theorem sources_denote_apart (hd : d.WellFormed)
    (hroots : ∀ root ∈ w.roots, (d.entryAt root).isOk) :
    ∃ found, w.walk d = .ok found ∧
      (found.filterMap (·.source?)).Pairwise fun a b => Path.SameFile a.path b.path →
        ∃ root ∈ w.roots, ¬ Path.Tidy (Path.chomp root.toList) ∧
          ∃ key, Reach d root a.path key ∨ Reach d root b.path key := by
  obtain ⟨found, hfound⟩ : ∃ found, w.walk d = .ok found := ⟨_, walk_eq_ok.2 ⟨hroots, rfl⟩⟩
  refine ⟨found, hfound, List.pairwise_filterMap.2 ?_⟩
  refine (pairwise_display_walk hfound).imp_of_mem fun {e e'} he he' hne => ?_
  intro a ha b hb hsame
  by_contra hnone
  have htidy {root : String} {path : String} {key : Key} (hroot : root ∈ w.roots)
      (hreach : Reach d root path key) (hpath : path = a.path ∨ path = b.path) :
      Path.Tidy path.toList := by
    refine hreach.tidy hd (by_contra fun huntidy => hnone ⟨root, hroot, huntidy, key, ?_⟩)
    rcases hpath with rfl | rfl
    · exact .inl hreach
    · exact .inr hreach
  obtain rfl := eq_source_of_source? ha
  obtain rfl := eq_source_of_source? hb
  obtain ⟨root, hroot, path, key, hreach, hmade⟩ :=
    exists_reach_of_mem_walk hd.toProper hfound he rfl
  obtain ⟨root', hroot', path', key', hreach', hmade'⟩ :=
    exists_reach_of_mem_walk hd.toProper hfound he' rfl
  obtain ⟨rfl, hselects⟩ := hmade.source a rfl
  obtain ⟨rfl, -⟩ := hmade'.source b rfl
  refine hne rfl rfl ?_
  rw [hmade.display, hmade'.display]
  exact (htidy hroot hreach (.inl rfl)).displayPath_eq (htidy hroot' hreach' (.inr rfl))
    (course_ne_nil hselects) hsame

/-- One file, in one directory. -/
def oneFile : Disk where
  entries := [(["src"], .directory), (["src", "a.ts"], .file (Text.bytes "A".toList))]

/-- Three spellings of the directory. -/
def spellings : Walker := Walker.of ["src", "./src/", "src/."] ["ts"] {}

theorem wellFormed_oneFile : oneFile.WellFormed :=
  ⟨⟨by decide, by decide⟩, by decide +kernel, by decide +kernel⟩

theorem sources_denote_apart_spellings :
    oneFile.WellFormed ∧ (∀ root ∈ spellings.roots, (oneFile.entryAt root).isOk) ∧
    ∃ key, Reach oneFile "src/." "src/a.ts" key ∨ Reach oneFile "src/." "src/./a.ts" key := by
  have hroots : ∀ root ∈ spellings.roots, (oneFile.entryAt root).isOk := by decide +kernel
  have hwalk : (spellings.walk oneFile).toOption = some [.source ⟨"src/a.ts", "src/a.ts"⟩,
      .source ⟨"src/./a.ts", "src/./a.ts"⟩] := by decide +kernel
  obtain ⟨found, hfound, hapart⟩ := sources_denote_apart wellFormed_oneFile hroots
  obtain rfl : found = _ := Option.some.inj ((congrArg Except.toOption hfound).symm.trans hwalk)
  obtain ⟨root, hroot, huntidy, key, hreach⟩ := (List.pairwise_cons.1 hapart).1
    ⟨"src/./a.ts", "src/./a.ts"⟩ List.mem_cons_self (by decide +kernel)
  refine ⟨wellFormed_oneFile, hroots, key, ?_⟩
  have hlast : ∀ root ∈ spellings.roots, ¬ Path.Tidy (Path.chomp root.toList) → root = "src/." := by
    decide +kernel
  exact hlast root hroot huntidy ▸ hreach

/-- A `.` more at the end of a root, and a walk lists a file twice. -/
theorem one_file_listed_twice :
    oneFile.WellFormed ∧
    (spellings.walk oneFile).toOption = some [.source ⟨"src/a.ts", "src/a.ts"⟩,
      .source ⟨"src/./a.ts", "src/./a.ts"⟩] ∧
    Path.SameFile "src/a.ts" "src/./a.ts" :=
  ⟨wellFormed_oneFile, by decide +kernel, by decide +kernel⟩

/-! Two files, two entries -/

/-- A `./` in front leads nowhere. -/
theorem follow_bare {start : Key} {t : Text} (h : d.follow start (Path.pieces t) = .ok key) :
    d.follow start (Path.pieces (Path.bare t)) = .ok key := by
  unfold Path.bare
  split
  · next rest =>
    rw [show '.' :: '/' :: rest = ['.'] ++ '/' :: rest from rfl, Path.pieces_append_slash] at h
    obtain ⟨-, next, hturn, hnext⟩ := Disk.follow_cons_eq_ok.1 h
    obtain rfl : start = next := Option.some.inj hturn
    exact hnext
  · exact h

/-- Two paths that may be shown alike, though they lead to two files: one of them holds a backslash,
or one is absolute, and the other is that with a `./` in front. -/
def Confusable (a b : String) : Prop :=
  '\\' ∈ a.toList ∨ '\\' ∈ b.toList ∨
    (Path.isAbsolute a.toList = true ∧ b.toList = '.' :: '/' :: a.toList) ∨
    (Path.isAbsolute b.toList = true ∧ a.toList = '.' :: '/' :: b.toList)

instance (a b : String) : Decidable (Confusable a b) :=
  inferInstanceAs (Decidable (_ ∨ _ ∨ _ ∨ _))

/-- Without its `./` a relative path is relative, if it is not confusable. -/
theorem start_eq_of_bare {a b : String} (h : Path.bare a.toList = Path.bare b.toList)
    (hplain : ¬ Confusable a b) : d.start a.toList = d.start b.toList := by
  have hbare {t : Text} (ht : Path.isAbsolute t = true) : Path.bare t = t := by
    refine Path.bare_of_not_prefix ?_
    rintro ⟨rest, rfl⟩
    contradiction
  have hfront {t u : Text} (hu : Path.isAbsolute u = true) (ht : Path.isAbsolute t = false)
      (heq : Path.bare t = u) : t = '.' :: '/' :: u := by
    unfold Path.bare at heq
    split at heq
    · rw [heq]
    · rw [heq, hu] at ht
      contradiction
  unfold Disk.start
  obtain ⟨-, -, ha', hb'⟩ : _ ∧ _ ∧ _ ∧ _ := by simpa only [Confusable, not_or] using hplain
  cases ha : Path.isAbsolute a.toList <;> cases hb : Path.isAbsolute b.toList
  · rfl
  · exact absurd ⟨hb, hfront hb ha (by rw [h, hbare hb])⟩ hb'
  · exact absurd ⟨ha, hfront ha hb (by rw [← h, hbare ha])⟩ ha'
  · rfl

/-- The display path tells two files apart whose paths are not confusable. -/
theorem Reach.key_eq (hd : d.WellFormed) {root' path' : String} {key' : Key}
    (h : Reach d root path key) (h' : Reach d root' path' key')
    (hplain : ¬ Confusable path path') (hdisplay : displayPath path = displayPath path') :
    key = key' := by
  have hslashes {t : Text} (ht : '\\' ∉ t) : slashes t = t := by
    refine (List.map_congr_left fun c hc => ?_).trans (List.map_id t)
    exact if_neg fun h : c = '\\' => ht (h ▸ hc)
  obtain ⟨hback, hback', -⟩ : _ ∧ _ ∧ _ := by simpa only [Confusable, not_or] using hplain
  have hbare : Path.bare path.toList = Path.bare path'.toList := by
    rw [Path.displayPath_eq, Path.displayPath_eq, hslashes hback, hslashes hback'] at hdisplay
    exact String.ofList_inj.1 hdisplay
  have hfollow := follow_bare (h.follow hd)
  rw [hbare, start_eq_of_bare hbare hplain, follow_bare (h'.follow hd)] at hfollow
  exact (Except.ok.inj hfollow).symm

/-- The entry was made when the walk came by the file at `key`. -/
def Lists (w : Walker) (d : Disk) (e : WalkEntry) (key : Key) : Prop :=
  ∃ root ∈ w.roots, ∃ path, Reach d root path key ∧ w.MadeFor e path

/-- A walk comes by the file at `key` on this path, and selects it. -/
def Selected (w : Walker) (d : Disk) (path : String) (key : Key) : Prop :=
  (∃ root ∈ w.roots, Reach d root path key) ∧ w.selects path = true

/-- A walk over roots that exist gives each selected file an entry of its own, unless it comes by
another file with the same display path, and the two paths are confusable. There are no fewer
entries than selected files on paths that are not. -/
theorem selected_files_listed (hd : d.WellFormed)
    (hroots : ∀ root ∈ w.roots, (d.entryAt root).isOk) :
    ∃ found, w.walk d = .ok found ∧
      (∀ path key, w.Selected d path key →
        (∃ e ∈ found, w.Lists d e key ∧ ∀ key', w.Lists d e key' → key' = key) ∨
        ∃ root ∈ w.roots, ∃ path' key', Reach d root path' key' ∧ key' ≠ key ∧
          displayPath path' = displayPath path ∧ Confusable path path') ∧
      ∀ (files : List Key) (path : Key → String), files.Nodup →
        (∀ key ∈ files, w.Selected d (path key) key) →
        (∀ key ∈ files, ∀ key' ∈ files, ¬ Confusable (path key) (path key')) →
        files.length ≤ found.length := by
  obtain ⟨found, hfound⟩ : ∃ found, w.walk d = .ok found := ⟨_, walk_eq_ok.2 ⟨hroots, rfl⟩⟩
  have hentry {path : String} {key : Key} (h : w.Selected d path key) :
      ∃ e ∈ found, e.isBlocked = false ∧ e.display = displayPath path := by
    obtain ⟨⟨root, hroot, hreach⟩, hselects⟩ := h
    exact hreach.exists_entry hd.toProper hfound hroot hselects
  refine ⟨found, hfound, fun path key h => ?_, fun files path hnodup hselected hplain => ?_⟩
  · by_cases hrival : ∃ root ∈ w.roots, ∃ path' key', Reach d root path' key' ∧ key' ≠ key ∧
      displayPath path' = displayPath path
    · obtain ⟨root, hroot, path', key', hreach', hne, hdisplay⟩ := hrival
      obtain ⟨⟨_, -, hreach⟩, -⟩ := h
      refine .inr ⟨root, hroot, path', key', hreach', hne, hdisplay, ?_⟩
      by_contra hplain
      exact hne (hreach.key_eq hd hreach' hplain hdisplay.symm).symm
    · have honly {root path' : String} {key' : Key} (hroot : root ∈ w.roots)
          (hreach : Reach d root path' key') (hdisplay : displayPath path' = displayPath path) :
          key' = key :=
        by_contra fun hne => hrival ⟨root, hroot, path', key', hreach, hne, hdisplay⟩
      obtain ⟨e, he, hfree, hdisplay⟩ := hentry h
      obtain ⟨root, hroot, path', key', hreach, hmade⟩ :=
        exists_reach_of_mem_walk hd.toProper hfound he hfree
      obtain rfl := honly hroot hreach (hmade.display.symm.trans hdisplay)
      refine .inl ⟨e, he, ⟨root, hroot, path', hreach, hmade⟩, ?_⟩
      rintro other ⟨root, hroot, path'', hreach, hmade⟩
      exact honly hroot hreach (hmade.display.symm.trans hdisplay)
  · have hdisplays : (files.map fun key => displayPath (path key)).Nodup := by
      refine hnodup.map_on fun key hkey key' hkey' hdisplay => ?_
      obtain ⟨⟨_, -, hreach⟩, -⟩ := hselected key hkey
      obtain ⟨⟨_, -, hreach'⟩, -⟩ := hselected key' hkey'
      exact hreach.key_eq hd hreach' (hplain key hkey key' hkey') hdisplay
    have hsubset : (files.map fun key => displayPath (path key)) ⊆ found.map (·.display) := by
      intro x hx
      obtain ⟨key, hkey, rfl⟩ := List.mem_map.1 hx
      obtain ⟨e, he, -, hdisplay⟩ := hentry (hselected key hkey)
      exact List.mem_map.2 ⟨e, he, hdisplay⟩
    simpa using (hdisplays.subperm hsubset).length_le

/-- Two files whose paths differ in a slash and a backslash. -/
def twins : Disk where
  entries := [(["a"], .directory), (["a", "b.ts"], .file (Text.bytes "A".toList)),
    (["a\\b.ts"], .file (Text.bytes "B".toList))]

def aroundTwins : Walker := Walker.of ["a", "a\\b.ts"] ["ts"] {}

theorem wellFormed_twins : twins.WellFormed :=
  ⟨⟨by decide, by decide⟩, by decide +kernel, by decide +kernel⟩

theorem selected_below : aroundTwins.Selected twins "a/b.ts" ["a", "b.ts"] := by
  have hfolder : twins.entryAt "a" = .ok (["a"], .directory) := rfl
  have hfile : twins.get? (["a"] ++ ["b.ts"]) = some (.file (Text.bytes "A".toList)) := rfl
  have hopen : twins.isOpen "a" ["a"] ["b.ts"] = true := by decide +kernel
  exact ⟨⟨"a", List.mem_cons_self, .below hfolder hfile hopen⟩, by decide +kernel⟩

theorem selected_beside : aroundTwins.Selected twins "a\\b.ts" ["a\\b.ts"] := by
  have hfile : twins.entryAt "a\\b.ts" = .ok (["a\\b.ts"], .file (Text.bytes "B".toList)) := rfl
  exact ⟨⟨"a\\b.ts", by simp [aroundTwins, Walker.of], .itself hfile⟩, by decide +kernel⟩

theorem selected_files_listed_twins :
    twins.WellFormed ∧ (∀ root ∈ aroundTwins.roots, (twins.entryAt root).isOk) ∧
    aroundTwins.Selected twins "a/b.ts" ["a", "b.ts"] ∧
    aroundTwins.Selected twins "a\\b.ts" ["a\\b.ts"] ∧
    ∃ found, aroundTwins.walk twins = .ok found ∧ 1 ≤ found.length ∧
      ((∃ e ∈ found, aroundTwins.Lists twins e ["a\\b.ts"] ∧
          ∀ key', aroundTwins.Lists twins e key' → key' = ["a\\b.ts"]) ∨
        ∃ root ∈ aroundTwins.roots, ∃ path' key', Reach twins root path' key' ∧
          key' ≠ ["a\\b.ts"] ∧ displayPath path' = "a/b.ts" ∧
          Confusable "a\\b.ts" path') := by
  have hroots : ∀ root ∈ aroundTwins.roots, (twins.entryAt root).isOk := by decide +kernel
  obtain ⟨found, hfound, hlisted, hcount⟩ := selected_files_listed wellFormed_twins hroots
  refine ⟨wellFormed_twins, hroots, selected_below, selected_beside, found, hfound, ?_, ?_⟩
  · refine hcount [["a", "b.ts"]] (fun _ => "a/b.ts") (by simp) (fun key hkey => ?_) ?_
    · obtain rfl := List.mem_singleton.1 hkey
      exact selected_below
    · exact fun _ _ _ _ => by decide
  · rcases hlisted _ _ selected_beside with
      hown | ⟨root, hroot, path', key', hreach, hne, hdisplay, hconfusable⟩
    · exact .inl hown
    · exact .inr ⟨root, hroot, path', key', hreach, hne, hdisplay.trans (by decide +kernel),
        hconfusable⟩

/-- Two selected files, and a walk lists one of them. -/
theorem selected_file_left_out :
    twins.WellFormed ∧
    (aroundTwins.walk twins).toOption = some [.source ⟨"a/b.ts", "a/b.ts"⟩] ∧
    aroundTwins.Selected twins "a/b.ts" ["a", "b.ts"] ∧
    aroundTwins.Selected twins "a\\b.ts" ["a\\b.ts"] :=
  ⟨wellFormed_twins, by decide +kernel, selected_below, selected_beside⟩

end SourceMend.Walker
