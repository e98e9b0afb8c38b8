import Mathlib.Tactic.SplitIfs
import SourceMend.Proofs.Path
import SourceMend.Walk

/-!
How paths are spelled. One file has many spellings: a `.` or a slash more changes nothing. Display
paths agree on two spellings of one file if both are tidy, and they tell two files apart if no path
holds a backslash.
-/
namespace SourceMend
namespace Path

/-- The steps of a path without a `.` at the start: what is left of its spelling once every `.` and
every repeated slash is dropped. -/
def course (t : Text) : List Step := (steps t).filter (· ≠ .here)

/-- Two spellings of one path. -/
def SameFile (a b : String) : Prop := course a.toList = course b.toList

instance (a b : String) : Decidable (SameFile a b) := inferInstanceAs (Decidable (_ = _))

/-- Every piece behind the first one counts, and the path does not start with a dot and a backslash,
which a display path would show as `./`. -/
structure Tidy (t : Text) : Prop where
  counts : ∀ p ∈ (pieces t).tail, step? p ≠ none
  front : ¬ ['.', '\\'] <+: t

instance (t : Text) : Decidable (Tidy t) :=
  decidable_of_iff ((∀ p ∈ (pieces t).tail, step? p ≠ none) ∧ ¬ ['.', '\\'] <+: t)
    ⟨fun ⟨hcounts, hfront⟩ => ⟨hcounts, hfront⟩, fun h => ⟨h.counts, h.front⟩⟩

/-- The path without one `./` in front. -/
def bare : Text → Text
  | '.' :: '/' :: rest => rest
  | t => t

/-- The path without one slash at its end. -/
def chomp (t : Text) : Text := if t.getLast? = some '/' then t.dropLast else t

theorem displayPath_eq (path : String) :
    Walker.displayPath path = String.ofList (bare (Walker.slashes path.toList)) := rfl

theorem bare_of_not_prefix {t : Text} (h : ¬ ['.', '/'] <+: t) : bare t = t := by
  unfold bare
  split
  · next rest => exact absurd ⟨rest, rfl⟩ h
  · rfl

theorem prefix_slashes {t : Text} (h : ['.', '/'] <+: Walker.slashes t) :
    ['.', '/'] <+: t ∨ ['.', '\\'] <+: t := by
  match t with
  | [] => simp [Walker.slashes] at h
  | [a] => simp [Walker.slashes] at h
  | a :: b :: t =>
    obtain ⟨ha, hb⟩ :
        '.' = (if a = '\\' then '/' else a) ∧ '/' = (if b = '\\' then '/' else b) := by
      simpa [Walker.slashes] using h
    have ha : a = '.' := by grind
    have hb : b = '/' ∨ b = '\\' := by grind
    rcases hb with rfl | rfl <;> simp [ha]

/-! Pieces and steps -/

theorem step?_eq_none {p : Text} : step? p = none ↔ p = [] ∨ p = ['.'] := by
  unfold step?
  split_ifs <;> simp_all

theorem step?_eq_up {p : Text} (h : step? p = some .up) : p = ['.', '.'] := by
  unfold step? at h
  split_ifs at h with _ hup
  · exact hup
  · cases h

theorem eq_of_step?_eq {p q : Text} (hp : step? p ≠ none) (h : step? p = step? q) : p = q := by
  rcases step?_cases p with hnone | hup | hname
  · contradiction
  · rw [step?_eq_up hup, step?_eq_up (h.symm.trans hup)]
  · rcases step?_cases q with hq | hq | hq <;> simp_all

/-- Pieces that count can be read off their steps. -/
theorem eq_of_filterMap_step? {ps qs : List Text} (hps : ∀ p ∈ ps, step? p ≠ none)
    (hqs : ∀ q ∈ qs, step? q ≠ none) (h : ps.filterMap step? = qs.filterMap step?) : ps = qs := by
  induction ps generalizing qs with
  | nil =>
    cases qs with
    | nil => rfl
    | cons q qs =>
      obtain ⟨s, hs⟩ := Option.ne_none_iff_exists'.1 (hqs q List.mem_cons_self)
      simp [hs] at h
  | cons p ps ih =>
    obtain ⟨hp, hps⟩ := List.forall_mem_cons.1 hps
    obtain ⟨s, hs⟩ := Option.ne_none_iff_exists'.1 hp
    cases qs with
    | nil => simp [hs] at h
    | cons q qs =>
      obtain ⟨hq, hqs⟩ := List.forall_mem_cons.1 hqs
      obtain ⟨r, hr⟩ := Option.ne_none_iff_exists'.1 hq
      rw [List.filterMap_cons_some hs, List.filterMap_cons_some hr, List.cons.injEq] at h
      obtain ⟨rfl, hrest⟩ := h
      rw [eq_of_step?_eq hp (hs.trans hr.symm), ih hps hqs hrest]

/-- The pieces that count give no `.` at the start. -/
theorem filter_filterMap_step? (ps : List Text) :
    (ps.filterMap step?).filter (· ≠ .here) = ps.filterMap step? := by
  refine List.filter_eq_self.2 fun s hs => ?_
  obtain ⟨p, -, hp⟩ := List.mem_filterMap.1 hs
  rcases step?_cases p with h | h | h <;> rw [h] at hp <;> cases hp <;> rfl

/-- The course starts at the root if the path does. -/
theorem course_eq (t : Text) :
    course t = (if isAbsolute t then [.root] else []) ++ (pieces t).filterMap step? := by
  obtain ⟨first, rest, hpieces⟩ := List.exists_cons_of_ne_nil (pieces_ne_nil t)
  unfold course steps
  rw [hpieces]
  dsimp only
  rw [List.filter_append, filter_filterMap_step?, isAbsolute_eq hpieces]
  by_cases hempty : first = []
  · subst hempty
    cases rest with
    | nil => rfl
    | cons next more => simp [step?]
  · by_cases hdot : first = ['.']
    · subst hdot
      simp [step?]
    · rw [if_neg hempty, if_neg hdot]
      rcases step?_cases first with hs | hs | hs <;> simp [hs, hempty]

/-- No piece leads to the root. -/
theorem filterMap_step?_ne_root_cons (ps : List Text) (rest : List Step) :
    ps.filterMap step? ≠ .root :: rest := by
  intro h
  have hroot : Step.root ∈ ps.filterMap step? := by
    rw [h]
    exact List.mem_cons_self
  obtain ⟨p, -, hp⟩ := List.mem_filterMap.1 hroot
  rcases step?_cases p with hs | hs | hs <;> simp [hs] at hp

/-- The course tells whether a path is absolute. -/
theorem isAbsolute_of_course {a b : Text} (h : course a = course b) :
    isAbsolute a = isAbsolute b := by
  rw [course_eq, course_eq] at h
  cases ha : isAbsolute a <;> cases hb : isAbsolute b <;> simp only [ha, hb] at h
  · rfl
  · exact absurd h (filterMap_step?_ne_root_cons _ _)
  · exact absurd h.symm (filterMap_step?_ne_root_cons _ _)
  · rfl

/-! Tidy paths -/

/-- A tidy path is shown by the pieces of its course. -/
theorem Tidy.exists_pieces {t : Text} (h : Tidy t) (hcourse : course t ≠ []) :
    ∃ ps : List Text, (∀ p ∈ ps, step? p ≠ none) ∧
      ps.filterMap step? = (pieces t).filterMap step? ∧
      bare (Walker.slashes t) =
        Walker.slashes ((if isAbsolute t then ['/'] else []) ++ ofPieces ps) := by
  obtain ⟨first, rest, hpieces⟩ := List.exists_cons_of_ne_nil (pieces_ne_nil t)
  have hcounts : ∀ p ∈ rest, step? p ≠ none := by simpa [hpieces] using h.counts
  have ht : t = ofPieces (first :: rest) := by rw [← hpieces, ofPieces_pieces]
  rw [course_eq] at hcourse
  by_cases hfirst : step? first = none
  · rw [hpieces, List.filterMap_cons_none hfirst] at hcourse ⊢
    obtain ⟨next, more, rfl⟩ : ∃ next more, rest = next :: more := by
      refine List.exists_cons_of_ne_nil ?_
      rintro rfl
      simp [isAbsolute_eq hpieces] at hcourse
    refine ⟨next :: more, hcounts, rfl, ?_⟩
    rcases step?_eq_none.1 hfirst with rfl | rfl
    · rw [isAbsolute_eq hpieces, ht]
      rfl
    · rw [isAbsolute_eq hpieces, ht]
      rfl
  · have hrelative : isAbsolute t = false := by
      rw [isAbsolute_eq hpieces, decide_eq_false_iff_not]
      rintro ⟨rfl, -⟩
      exact hfirst rfl
    refine ⟨first :: rest, List.forall_mem_cons.2 ⟨hfirst, hcounts⟩, by rw [hpieces], ?_⟩
    rw [hrelative, ← ht]
    refine bare_of_not_prefix fun hprefix => ?_
    rcases prefix_slashes hprefix with ⟨more, hmore⟩ | hback
    · have hpieces' := pieces_append_slash ['.'] more
      rw [show ['.'] ++ '/' :: more = t from hmore, hpieces] at hpieces'
      obtain ⟨rfl, -⟩ := List.cons.inj hpieces'
      exact hfirst rfl
    · exact h.front hback

/-- Tidy spellings of one path are shown alike. -/
theorem Tidy.displayPath_eq {a b : String} (ha : Tidy a.toList) (hb : Tidy b.toList)
    (hcourse : course a.toList ≠ []) (h : SameFile a b) :
    Walker.displayPath a = Walker.displayPath b := by
  obtain ⟨ps, hps, hpath, hshown⟩ := ha.exists_pieces hcourse
  obtain ⟨qs, hqs, hqath, hshown'⟩ := hb.exists_pieces (h ▸ hcourse)
  have habsolute : isAbsolute a.toList = isAbsolute b.toList := isAbsolute_of_course h
  have hcourses : course a.toList = course b.toList := h
  rw [course_eq, course_eq, habsolute, List.append_cancel_left_eq, ← hpath, ← hqath] at hcourses
  rw [Path.displayPath_eq, Path.displayPath_eq, hshown, hshown', habsolute,
    eq_of_filterMap_step? hps hqs hcourses]

/-! Paths below a directory -/

theorem join_eq {base t : Text} (hbase : base ≠ []) (ht : isAbsolute t = false) :
    join base t = chomp base ++ '/' :: t := by
  unfold join chomp
  rw [if_neg (by simp [hbase, ht])]
  split
  · next hlast =>
    obtain ⟨front, rfl⟩ := List.getLast?_eq_some_iff.1 hlast
    simp
  · rfl

/-- Names below a tidy path make a tidy path. -/
theorem Tidy.join {base t : Text} (h : Tidy (chomp base)) (hbase : base ≠ [])
    (ht : isAbsolute t = false) (hcounts : ∀ p ∈ pieces t, step? p ≠ none) :
    Tidy (join base t) := by
  rw [join_eq hbase ht]
  constructor
  · intro p hp
    rw [pieces_append_slash, List.tail_append_of_ne_nil (pieces_ne_nil _)] at hp
    rcases List.mem_append.1 hp with hp | hp
    · exact h.counts p hp
    · exact hcounts p hp
  · intro hprefix
    rcases hfront : chomp base with _ | ⟨a, _ | ⟨b, more⟩⟩
    · simp [hfront] at hprefix
    · simp [hfront] at hprefix
    · rw [hfront] at hprefix
      refine h.front ?_
      rw [hfront]
      simpa using hprefix

end Path
end SourceMend
