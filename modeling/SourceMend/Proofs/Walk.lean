import SourceMend.Walk

/-!
What a walk lists: the candidates of its roots one after the other, without those whose display path
is taken. So it lists the display path of every file once.
-/
namespace SourceMend

def WalkEntry.display : WalkEntry → String
  | .source file => file.display
  | .skipped path _ | .blocked path _ => path

def WalkEntry.isBlocked : WalkEntry → Bool
  | .blocked _ _ => true
  | .source _ | .skipped _ _ => false

namespace Walker

variable {w : Walker} {d : Disk} {st st' : State}

@[simp] theorem display_classify (w : Walker) (path display seen : String) :
    (w.classify path display seen).display = display := by
  unfold classify
  split <;> rfl

@[simp] theorem isBlocked_classify (w : Walker) (path display seen : String) :
    (w.classify path display seen).isBlocked = false := by
  unfold classify
  split <;> rfl

/-! Candidates -/

/-- The entry that a root gets if it is a file. -/
def rootEntry (w : Walker) (root : String) : WalkEntry :=
  if w.selects root then w.classify root (displayPath root) (displayPath root)
  else .skipped (displayPath root) .otherExtension

/-- The entry that a file below a root gets. -/
def entryBelow (w : Walker) (root : String) (names : Key) : WalkEntry :=
  w.classify (Path.below root names) (displayPath (Path.below root names))
    (String.ofList (slashes (Path.ofPieces (names.map String.toList))))

/-- Whether a walk lists what it comes by below a root. -/
def notes (w : Walker) (root : String) : Sighting → Bool
  | .file names => w.selects (Path.below root names)
  | .closed _ _ | .stray _ => true

/-- The entry for what a walk comes by below a root. -/
def entryFor (w : Walker) (root : String) : Sighting → WalkEntry
  | .file names => w.entryBelow root names
  | .closed names cause => closedEntry root names cause
  | .stray names => strayEntry root names

/-- All entries that a root asks for, in the order of the walk. -/
def candidates (w : Walker) (d : Disk) (root : String) : List WalkEntry :=
  match d.entryAt root with
  | .error _ => []
  | .ok (_, .file _) => [w.rootEntry root]
  | .ok (key, .directory) => ((d.sightings root key).filter (w.notes root)).map (w.entryFor root)

/-- Lists an entry, unless it is that of a file, and its display path is taken. -/
def State.list (st : State) (e : WalkEntry) : State :=
  if e.isBlocked then st.note e else st.add e.display e

@[simp] theorem display_rootEntry (w : Walker) (root : String) :
    (w.rootEntry root).display = displayPath root := by
  unfold rootEntry
  split
  · exact display_classify _ _ _ _
  · rfl

@[simp] theorem isBlocked_rootEntry (w : Walker) (root : String) :
    (w.rootEntry root).isBlocked = false := by
  unfold rootEntry
  split
  · exact isBlocked_classify _ _ _ _
  · rfl

@[simp] theorem display_entryBelow (w : Walker) (root : String) (names : Key) :
    (w.entryBelow root names).display = displayPath (Path.below root names) :=
  display_classify _ _ _ _

@[simp] theorem isBlocked_entryBelow (w : Walker) (root : String) (names : Key) :
    (w.entryBelow root names).isBlocked = false :=
  isBlocked_classify _ _ _ _

theorem visitFile_eq (w : Walker) (st : State) (root : String) :
    w.visitFile st root = st.list (w.rootEntry root) := by
  unfold State.list
  rw [display_rootEntry, isBlocked_rootEntry]
  rfl

theorem visitSighting_eq (w : Walker) (root : String) (st : State) (s : Sighting) :
    w.visitSighting root st s =
      if w.notes root s then st.list (w.entryFor root s) else st := by
  cases s with
  | file names =>
    unfold State.list
    simp only [entryFor, isBlocked_entryBelow, display_entryBelow]
    rfl
  | closed | stray => rfl

theorem foldl_visitSighting (w : Walker) (root : String) (found : List Sighting) (st : State) :
    found.foldl (w.visitSighting root) st =
      ((found.filter (w.notes root)).map (w.entryFor root)).foldl State.list st := by
  induction found generalizing st with
  | nil => rfl
  | cons s found ih =>
    rw [List.foldl_cons, ih, visitSighting_eq, List.filter_cons]
    by_cases hnotes : w.notes root s = true
    · rw [if_pos hnotes, if_pos hnotes, List.map_cons, List.foldl_cons]
    · rw [if_neg hnotes, if_neg hnotes]

/-- A root adds its candidates, and fails only if it does not exist. -/
theorem visitRoot_eq (w : Walker) (d : Disk) (st : State) (root : String) :
    w.visitRoot d st root =
      if (d.entryAt root).isOk then .ok ((w.candidates d root).foldl State.list st)
      else .error (.missingRoot root) := by
  unfold visitRoot candidates
  rcases d.entryAt root with cause | ⟨key, _ | _⟩
  · rfl
  · exact congrArg Except.ok (visitFile_eq w st root)
  · exact congrArg Except.ok (foldl_visitSighting w root _ st)

theorem visitRoots_eq_ok {roots : List String} : w.visitRoots d st roots = .ok st' ↔
    (∀ root ∈ roots, (d.entryAt root).isOk) ∧
      (roots.flatMap (w.candidates d)).foldl State.list st = st' := by
  induction roots generalizing st with
  | nil => simp [visitRoots]
  | cons root roots ih =>
    rw [List.forall_mem_cons, List.flatMap_cons, List.foldl_append, visitRoots, visitRoot_eq]
    by_cases hroot : (d.entryAt root).isOk
    · rw [if_pos hroot, and_iff_right hroot]
      exact ih
    · rw [if_neg hroot]
      constructor
      · intro h
        contradiction
      · rintro ⟨⟨hok, -⟩, -⟩
        contradiction

/-- A walk lists the candidates of all its roots. -/
theorem walk_eq_ok {found : List WalkEntry} : w.walk d = .ok found ↔
    (∀ root ∈ w.roots, (d.entryAt root).isOk) ∧
      ((w.roots.flatMap (w.candidates d)).foldl State.list {}).entries = found := by
  unfold walk
  constructor
  · intro h
    cases hv : w.visitRoots d {} w.roots with
    | error cause =>
      rw [hv] at h
      contradiction
    | ok st =>
      obtain ⟨hok, rfl⟩ := visitRoots_eq_ok.1 hv
      rw [hv] at h
      exact ⟨hok, Except.ok.inj h⟩
  · rintro ⟨hok, rfl⟩
    rw [visitRoots_eq_ok.2 ⟨hok, rfl⟩]
    rfl

/-! Display paths -/

/-- Entries of files have different display paths. -/
def Distinct (a b : WalkEntry) : Prop :=
  a.isBlocked = false → b.isBlocked = false → a.display ≠ b.display

/-- The display paths of the files are taken, and no two are the same. -/
structure State.Listed (st : State) : Prop where
  apart : st.entries.Pairwise Distinct
  taken : ∀ e ∈ st.entries, e.isBlocked = false → e.display ∈ st.taken

theorem State.Listed.list (h : st.Listed) (e : WalkEntry) : (st.list e).Listed := by
  have happart (hnew : e.isBlocked = false → e.display ∉ st.taken) :
      (st.entries ++ [e]).Pairwise Distinct := by
    refine List.pairwise_append.2 ⟨h.apart, List.pairwise_singleton _ _, ?_⟩
    intro a ha b hb hopen hfree heq
    obtain rfl := List.mem_singleton.1 hb
    exact hnew hfree (heq ▸ h.taken a ha hopen)
  unfold State.list
  split
  next hblocked =>
    refine ⟨happart fun hfree => ?_, fun a ha hfree => ?_⟩
    · rw [hfree] at hblocked
      contradiction
    · rcases List.mem_append.1 ha with ha | ha
      · exact h.taken a ha hfree
      · obtain rfl := List.mem_singleton.1 ha
        rw [hfree] at hblocked
        contradiction
  next =>
    unfold State.add
    split
    · exact h
    next hnew =>
      have hnew : e.display ∉ st.taken := by simpa using hnew
      refine ⟨happart fun _ => hnew, fun a ha hfree => ?_⟩
      rcases List.mem_append.1 ha with ha | ha
      · exact List.mem_cons_of_mem e.display (h.taken a ha hfree)
      · obtain rfl := List.mem_singleton.1 ha
        exact List.mem_cons_self

theorem State.Listed.foldl_list (h : st.Listed) (es : List WalkEntry) :
    (es.foldl State.list st).Listed := by
  induction es generalizing st with
  | nil => exact h
  | cons e es ih => exact ih (h.list e)

theorem pairwise_display_walk {found : List WalkEntry} (h : w.walk d = .ok found) :
    found.Pairwise Distinct := by
  obtain ⟨-, rfl⟩ := walk_eq_ok.1 h
  have hempty : State.Listed {} := ⟨List.Pairwise.nil, by simp⟩
  exact (hempty.foldl_list _).apart

end Walker
end SourceMend
