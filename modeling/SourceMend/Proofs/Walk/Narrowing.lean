import Mathlib.Data.List.Forall2
import SourceMend.Proofs.Walk

/-!
Walks under a narrower exclusion. What is listed, and in which order, depends on the roots and the
extensions alone; an exclusion only decides which of the entries are skipped, and each entry that is
added to it can only have more of them skipped.
-/
namespace SourceMend

namespace Exclusion

variable {x y : Exclusion}

/-- The second exclusion is the first one with any number of entries added. -/
inductive Extended (x : Exclusion) : Exclusion → Prop
  | refl : Extended x x
  | segment {y : Exclusion} (s : String) : Extended x y → Extended x (y.addSegment s)
  | folder {y : Exclusion} (s : String) : Extended x y → Extended x (y.addFolder s)
  | ending {y : Exclusion} (s : String) : Extended x y → Extended x (y.addEnding s)
  | glob {y z : Exclusion} {s : String} : Extended x y → y.addGlob s = .ok z → Extended x z
  | entry {y z : Exclusion} {s : String} : Extended x y → y.add s = .ok z → Extended x z

/-- The second exclusion has all that the first one has. -/
structure Within (x y : Exclusion) : Prop where
  segments : x.segments ⊆ y.segments
  folders : x.folders ⊆ y.folders
  endings : x.endings ⊆ y.endings
  globs : x.globs ⊆ y.globs

theorem Within.refl (x : Exclusion) : x.Within x :=
  ⟨List.Subset.refl _, List.Subset.refl _, List.Subset.refl _, List.Subset.refl _⟩

theorem Within.trans {z : Exclusion} (h : x.Within y) (h' : y.Within z) : x.Within z :=
  ⟨List.Subset.trans h.segments h'.segments, List.Subset.trans h.folders h'.folders,
    List.Subset.trans h.endings h'.endings, List.Subset.trans h.globs h'.globs⟩

theorem within_addSegment (x : Exclusion) (s : String) : x.Within (x.addSegment s) :=
  { Within.refl x with segments := List.subset_append_left _ _ }

theorem within_addFolder (x : Exclusion) (s : String) : x.Within (x.addFolder s) :=
  { Within.refl x with folders := List.subset_append_left _ _ }

theorem within_addEnding (x : Exclusion) (s : String) : x.Within (x.addEnding s) :=
  { Within.refl x with endings := List.subset_append_left _ _ }

theorem within_addGlob {s : String} (h : x.addGlob s = .ok y) : x.Within y := by
  unfold addGlob at h
  split at h
  · obtain rfl := Except.ok.inj h
    exact { Within.refl x with globs := List.subset_append_left _ _ }
  · contradiction

theorem within_add {s : String} (h : x.add s = .ok y) : x.Within y := by
  unfold add at h
  dsimp only at h
  split at h
  · exact within_addGlob h
  · split at h
    · obtain rfl := Except.ok.inj h
      exact within_addFolder x _
    · split at h
      · obtain rfl := Except.ok.inj h
        exact within_addEnding x _
      · obtain rfl := Except.ok.inj h
        exact within_addSegment x _

theorem Extended.within (h : x.Extended y) : x.Within y := by
  induction h with
  | refl => exact .refl x
  | segment s _ ih => exact ih.trans (within_addSegment _ s)
  | folder s _ ih => exact ih.trans (within_addFolder _ s)
  | ending s _ ih => exact ih.trans (within_addEnding _ s)
  | glob _ h ih => exact ih.trans (within_addGlob h)
  | entry _ h ih => exact ih.trans (within_add h)

/-- A path is left out for one of four reasons. -/
theorem isSome_cause? (x : Exclusion) (path : String) : (x.cause? path).isSome = true ↔
    (∃ folder ∈ (Path.pieces path.toList).dropLast, String.ofList folder ∈ x.segments) ∨
    (∃ p ∈ x.folders, Path.startsWith path.toList p.toList = true) ∨
    (∃ s ∈ x.endings, s.toList.isSuffixOf path.toList = true) ∨
    ∃ g ∈ x.globs, g.isMatch path.toList = true := by
  unfold cause?
  simp only [Option.isSome_or, Option.isSome_map, List.find?_isSome, Bool.or_eq_true]
  simp [-List.map_dropLast]

theorem Within.isSome_cause? (h : x.Within y) {path : String}
    (hx : (x.cause? path).isSome = true) : (y.cause? path).isSome = true := by
  rw [Exclusion.isSome_cause?] at hx ⊢
  obtain ⟨folder, hmem, hs⟩ | ⟨p, hp, hs⟩ | ⟨s, hs, hend⟩ | ⟨g, hg, hmatch⟩ := hx
  · exact .inl ⟨folder, hmem, h.segments hs⟩
  · exact .inr (.inl ⟨p, h.folders hp, hs⟩)
  · exact .inr (.inr (.inl ⟨s, h.endings hs, hend⟩))
  · exact .inr (.inr (.inr ⟨g, h.globs hg, hmatch⟩))

theorem Extended.addAll {z : Exclusion} {entries : List String} (h : x.Extended y)
    (hz : y.addAll entries = .ok z) : x.Extended z := by
  induction entries generalizing y with
  | nil =>
    obtain rfl := Except.ok.inj hz
    exact h
  | cons entry rest ih =>
    unfold Exclusion.addAll at hz
    cases hadd : y.add entry with
    | error cause =>
      rw [hadd] at hz
      contradiction
    | ok next =>
      rw [hadd] at hz
      exact ih (h.entry hadd) hz

end Exclusion

/-- The second entry is the first one, or the same file skipped. -/
inductive WalkEntry.Narrows (e : WalkEntry) : WalkEntry → Prop
  | same : Narrows e e
  | skipped (cause : SkipCause) (free : e.isBlocked = false) : Narrows e (.skipped e.display cause)

theorem WalkEntry.Narrows.display_eq {e f : WalkEntry} (h : e.Narrows f) :
    f.display = e.display := by
  cases h <;> rfl

theorem WalkEntry.Narrows.isBlocked_eq {e f : WalkEntry} (h : e.Narrows f) :
    f.isBlocked = e.isBlocked := by
  cases h with
  | same => rfl
  | skipped cause free => exact free.symm

theorem exists_of_forall₂ {α β : Type} {R : α → β → Prop} {as : List α} {bs : List β}
    (h : List.Forall₂ R as bs) : (∀ a ∈ as, ∃ b ∈ bs, R a b) ∧ ∀ b ∈ bs, ∃ a ∈ as, R a b := by
  induction h with
  | nil => simp
  | cons hab _ ih =>
    simp only [List.mem_cons, exists_eq_or_imp, forall_eq_or_imp]
    exact ⟨⟨.inl hab, fun a ha => .inr (ih.1 a ha)⟩, .inl hab, fun b hb => .inr (ih.2 b hb)⟩

namespace Walker

/-- A walk fails at the first root that is not there, and otherwise lists the candidates of all
roots. -/
theorem walk_eq (w : Walker) (d : Disk) : w.walk d =
    match w.roots.find? fun root => !(d.entryAt root).isOk with
    | some root => .error (.missingRoot root)
    | none => .ok ((w.roots.flatMap (w.candidates d)).foldl State.list {}).entries := by
  suffices h : ∀ roots st, w.visitRoots d st roots =
      match roots.find? fun root => !(d.entryAt root).isOk with
      | some root => .error (.missingRoot root)
      | none => .ok ((roots.flatMap (w.candidates d)).foldl State.list st) by
    unfold walk
    rw [h]
    split <;> rfl
  intro roots
  induction roots with
  | nil => exact fun st => rfl
  | cons root rest ih =>
    intro st
    rw [visitRoots, visitRoot_eq, List.find?_cons]
    cases hroot : (d.entryAt root).isOk with
    | true =>
      simp only [if_true, Bool.not_true, List.flatMap_cons, List.foldl_append]
      exact ih _
    | false => rfl

/-! A narrower exclusion -/

/-- The same walk under another exclusion. -/
def under (w : Walker) (x : Exclusion) : Walker := { w with exclusion := x }

@[simp] theorem roots_under (w : Walker) (x : Exclusion) : (w.under x).roots = w.roots := rfl

@[simp] theorem notes_under (w : Walker) (x : Exclusion) (root : String) :
    (w.under x).notes root = w.notes root := by
  funext s
  cases s <;> rfl

variable {x y : Exclusion} {es fs : List WalkEntry} {st st' : State}

theorem narrows_classify (h : x.Within y) (w : Walker) (path display seen : String) :
    ((w.under x).classify path display seen).Narrows
      ((w.under y).classify path display seen) := by
  simp only [classify, under]
  cases hx : x.cause? seen with
  | some cause =>
    obtain ⟨cause', hy⟩ := Option.isSome_iff_exists.1 (h.isSome_cause? (by rw [hx]; rfl))
    rw [hy]
    exact .skipped cause' rfl
  | none =>
    cases hy : y.cause? seen with
    | none => exact .same
    | some cause => exact .skipped cause rfl

theorem narrows_rootEntry (h : x.Within y) (w : Walker) (root : String) :
    ((w.under x).rootEntry root).Narrows ((w.under y).rootEntry root) := by
  have hentry (z : Exclusion) : (w.under z).rootEntry root =
      if w.selects root then (w.under z).classify root (displayPath root) (displayPath root)
      else .skipped (displayPath root) .otherExtension := rfl
  rw [hentry, hentry]
  split
  · exact narrows_classify h w _ _ _
  · exact .same

theorem narrows_entryFor (h : x.Within y) (w : Walker) (root : String) (s : Sighting) :
    ((w.under x).entryFor root s).Narrows ((w.under y).entryFor root s) := by
  cases s with
  | file names => exact narrows_classify h w _ _ _
  | closed | stray => exact .same

theorem narrows_candidates (h : x.Within y) (w : Walker) (d : Disk) (root : String) :
    List.Forall₂ WalkEntry.Narrows ((w.under x).candidates d root)
      ((w.under y).candidates d root) := by
  simp only [candidates, notes_under]
  split
  · exact .nil
  · exact .cons (narrows_rootEntry h w root) .nil
  · rw [List.forall₂_map_left_iff, List.forall₂_map_right_iff, List.forall₂_same]
    exact fun s _ => narrows_entryFor h w root s

/-- The same display paths are taken, and the entries of the second state are narrower. -/
structure State.Narrows (st st' : State) : Prop where
  entries : List.Forall₂ WalkEntry.Narrows st.entries st'.entries
  taken : st'.taken = st.taken

theorem State.Narrows.list (h : st.Narrows st') {e f : WalkEntry} (hef : e.Narrows f) :
    (st.list e).Narrows (st'.list f) := by
  have hadd : List.Forall₂ WalkEntry.Narrows (st.entries ++ [e]) (st'.entries ++ [f]) :=
    List.rel_append h.entries (.cons hef .nil)
  unfold State.list State.add
  rw [hef.isBlocked_eq, hef.display_eq, h.taken]
  split
  · exact ⟨hadd, h.taken⟩
  · split
    · exact h
    · exact ⟨hadd, rfl⟩

/-- Roots that fail do so under any exclusion; those that do not are listed alike. -/
theorem narrows_walk (h : x.Within y) (w : Walker) (d : Disk) :
    (∃ cause, (w.under x).walk d = .error cause ∧ (w.under y).walk d = .error cause) ∨
    ∃ es fs, (w.under x).walk d = .ok es ∧ (w.under y).walk d = .ok fs ∧
      List.Forall₂ WalkEntry.Narrows es fs := by
  rw [walk_eq, walk_eq]
  simp only [roots_under]
  split
  · exact .inl ⟨_, rfl, rfl⟩
  · have hall : List.Forall₂ WalkEntry.Narrows (w.roots.flatMap ((w.under x).candidates d))
        (w.roots.flatMap ((w.under y).candidates d)) := by
      refine List.rel_flatMap (R := (· = ·)) (List.forall₂_refl w.roots) ?_
      rintro root - rfl
      exact narrows_candidates h w d root
    have hstart : State.Narrows {} {} := ⟨.nil, rfl⟩
    exact .inr ⟨_, _, rfl, rfl,
      (List.rel_foldl (fun _ _ hst _ _ hef => hst.list hef) hstart hall).entries⟩

end Walker

/-- Adding entries to an exclusion turns sources into skipped paths and does nothing else. The walk
fails as before, or it lists the same display paths in the same order: what was skipped stays so,
what was in the way still is, and each source that is left is the one from before. -/
theorem Walker.walk_extended {x y : Exclusion} (h : x.Extended y) (roots extensions : List String)
    (d : Disk) :
    (∃ cause, (Walker.of roots extensions x).walk d = .error cause ∧
      (Walker.of roots extensions y).walk d = .error cause) ∨
    ∃ es fs, (Walker.of roots extensions x).walk d = .ok es ∧
      (Walker.of roots extensions y).walk d = .ok fs ∧
      es.map (·.display) = fs.map (·.display) ∧
      (∀ path cause, .skipped path cause ∈ es → ∃ cause', .skipped path cause' ∈ fs) ∧
      (∀ path obstacle, .blocked path obstacle ∈ es → .blocked path obstacle ∈ fs) ∧
      (∀ src, .source src ∈ fs → .source src ∈ es) ∧
      List.Forall₂ (fun e f => f = e ∨ ∃ cause, f = .skipped e.display cause) es fs := by
  rcases narrows_walk h.within (Walker.of roots extensions {}) d with hfail |
    ⟨es, fs, hes, hfs, hall⟩
  · exact .inl hfail
  obtain ⟨hleft, hright⟩ := exists_of_forall₂ hall
  refine .inr ⟨es, fs, hes, hfs, ?display, ?skipped, ?blocked, ?source, hall.imp ?narrows⟩
  case display =>
    rw [← List.forall₂_eq_eq_eq, List.forall₂_map_left_iff, List.forall₂_map_right_iff]
    exact hall.imp fun _ _ hef => hef.display_eq.symm
  case skipped =>
    intro path cause hmem
    obtain ⟨f, hf, hnarrows⟩ := hleft _ hmem
    cases hnarrows with
    | same => exact ⟨cause, hf⟩
    | skipped cause' => exact ⟨cause', hf⟩
  case blocked =>
    intro path obstacle hmem
    obtain ⟨f, hf, hnarrows⟩ := hleft _ hmem
    cases hnarrows with
    | same => exact hf
    | skipped cause free => contradiction
  case source =>
    intro src hmem
    obtain ⟨e, he, hnarrows⟩ := hright _ hmem
    cases hnarrows with
    | same => exact he
  case narrows =>
    intro e f hef
    cases hef with
    | same => exact .inl rfl
    | skipped cause => exact .inr ⟨cause, rfl⟩

/-- A folder with generated code, and a test beside it. -/
def generatedDisk : Disk where
  entries := [(["app.spec.ts"], .file "A".toUTF8), (["app.ts"], .file "B".toUTF8),
    (["src"], .directory), (["src", "gen"], .directory),
    (["src", "gen", "api.ts"], .file "C".toUTF8)]

/-- The second root lies below the first one. -/
def overlappingWalk (x : Exclusion) : Except WalkError (List WalkEntry) :=
  (Walker.of ["src", "src/gen", "app.spec.ts", "app.ts"] ["ts"] x).walk generatedDisk

/-- Seen from the second root the generated file lies in no excluded folder. It stays skipped. -/
theorem Walker.walk_extended_overlapping :
    ∃ y, Exclusion.standard.addAll ["gen/", "*.spec.ts"] = .ok y ∧ Exclusion.standard.Extended y ∧
    ∃ es fs, overlappingWalk .standard = .ok es ∧ overlappingWalk y = .ok fs ∧
      es.filterMap WalkEntry.source? = [⟨"src/gen/api.ts", "src/gen/api.ts"⟩,
        ⟨"app.spec.ts", "app.spec.ts"⟩, ⟨"app.ts", "app.ts"⟩] ∧
      fs.filterMap WalkEntry.source? = [⟨"app.ts", "app.ts"⟩] ∧
      es.map (·.display) = fs.map (·.display) ∧ ∀ src, .source src ∈ fs → .source src ∈ es := by
  have hafter : (Exclusion.standard.addAll ["gen/", "*.spec.ts"]).toOption.bind (fun y =>
        (overlappingWalk y).toOption.map (·.filterMap WalkEntry.source?)) =
      some [⟨"app.ts", "app.ts"⟩] := by
    decide +kernel
  have hbefore : (overlappingWalk .standard).toOption.map (·.filterMap WalkEntry.source?) =
      some [⟨"src/gen/api.ts", "src/gen/api.ts"⟩, ⟨"app.spec.ts", "app.spec.ts"⟩,
        ⟨"app.ts", "app.ts"⟩] := by
    decide +kernel
  cases hy : Exclusion.standard.addAll ["gen/", "*.spec.ts"] with
  | error cause =>
    rw [hy] at hafter
    contradiction
  | ok y =>
    rw [hy] at hafter
    have hextended : Exclusion.standard.Extended y := Exclusion.Extended.refl.addAll hy
    refine ⟨y, rfl, hextended, ?_⟩
    rcases Walker.walk_extended hextended ["src", "src/gen", "app.spec.ts", "app.ts"] ["ts"]
      generatedDisk with ⟨cause, hfail, -⟩ | ⟨es, fs, hes, hfs, hdisplay, -, -, hsource, -⟩
    · rw [overlappingWalk, hfail] at hbefore
      contradiction
    · rw [overlappingWalk, hes] at hbefore
      change (overlappingWalk y).toOption.map _ = _ at hafter
      rw [overlappingWalk, hfs] at hafter
      exact ⟨es, fs, hes, hfs, Option.some.inj hbefore, Option.some.inj hafter, hdisplay, hsource⟩

end SourceMend
