import SourceMend.Pattern.Match

/-!
Paths through matching programs. A path is a way from an instruction to the end of the program
that reads the text from a place on; its trail notes where it ends and where the groups start and
stop. Everything that `explore` finds is the trail of a path, whatever was known before, so every
match of a survey belongs to a path from the entry of the program.
-/
namespace SourceMend.Pattern
namespace Cursor

/-- The place behind the next character; the end of the text has no place behind it. -/
def advance (k : Cursor) : Cursor :=
  match k.rest with
  | [] => k
  | c :: cs => ⟨some c, cs, k.pos + c.utf8Size⟩

/-- From the place `k` the text `s` leads to the place `l`. -/
structure Reads (k : Cursor) (s : Text) (l : Cursor) : Prop where
  rest : k.rest = s ++ l.rest
  pos : l.pos = k.pos + Text.size s
  prev : l.prev = s.getLast?.or k.prev

theorem Reads.refl (k : Cursor) : k.Reads [] k := ⟨rfl, rfl, rfl⟩

theorem Reads.eq_of_nil {k l : Cursor} (h : k.Reads [] l) : k = l := by
  obtain ⟨hr, hp, hv⟩ := h
  cases k
  cases l
  simp_all

theorem Reads.trans {k l m : Cursor} {s r : Text} (h : k.Reads s l) (h' : l.Reads r m) :
    k.Reads (s ++ r) m := by
  refine ⟨?_, ?_, ?_⟩
  · rw [h.rest, h'.rest, List.append_assoc]
  · rw [h'.pos, h.pos, Text.size_append, Nat.add_assoc]
  · rw [h'.prev, h.prev, List.getLast?_append, Option.or_assoc]

theorem Reads.upTo {k l : Cursor} {s : Text} (h : k.Reads s l) : k.upTo l = s := by
  unfold Cursor.upTo
  rw [h.rest, h.pos, Nat.add_sub_cancel_left, Text.takeBytes_size_append]

theorem reads_advance {k : Cursor} {c : Char} (h : k.next = some c) : k.Reads [c] k.advance := by
  obtain ⟨prev, rest, pos⟩ := k
  cases rest with
  | nil => simp [Cursor.next] at h
  | cons d cs =>
    obtain rfl : d = c := by simpa [Cursor.next] using h
    exact ⟨rfl, by simp [advance], rfl⟩

theorem places_nil {k : Cursor} (h : k.rest = []) : k.places = [k] := by
  obtain ⟨prev, rest, pos⟩ := k
  obtain rfl : rest = [] := h
  rfl

theorem places_cons {k : Cursor} (h : k.rest ≠ []) : k.places = k :: k.advance.places := by
  obtain ⟨prev, rest, pos⟩ := k
  cases rest with
  | nil => contradiction
  | cons c cs => rfl

theorem length_advance_rest {k : Cursor} (h : k.rest ≠ []) :
    k.advance.rest.length < k.rest.length := by
  obtain ⟨prev, rest, pos⟩ := k
  cases rest with
  | nil => contradiction
  | cons c cs => simp [advance]

end Cursor

/-- From the instruction at an address and the place `k` there is a way to the end of at most `n`
instructions with the trail `t`. -/
def Path (code : Code) : Nat → Nat → Cursor → Trail → Prop
  | 0, _, _, _ => False
  | n + 1, address, k, t =>
    match code.getD address .accept with
    | .accept => t = { stop := k }
    | .char set next _ =>
      ∃ c, k.next = some c ∧ set.contains c = true ∧ Path code n next k.advance t
    | .look l next => l.holds k = true ∧ Path code n next k t
    | .fork first second => Path code n first k t ∨ Path code n second k t
    | .opening i next => ∃ u, t = u.opened i k ∧ Path code n next k u
    | .closing i next => ∃ u, t = u.closed i k ∧ Path code n next k u

namespace Path

theorem succ {code : Code} {n address : Nat} {k : Cursor} {t : Trail}
    (h : Path code n address k t) : Path code (n + 1) address k t := by
  induction n generalizing address k t with
  | zero => exact h.elim
  | succ n ih =>
    rw [Path] at h ⊢
    split at h
    · exact h
    · obtain ⟨c, hc, hs, hp⟩ := h
      exact ⟨c, hc, hs, ih hp⟩
    · exact ⟨h.1, ih h.2⟩
    · exact h.imp ih ih
    · obtain ⟨u, hu, hp⟩ := h
      exact ⟨u, hu, ih hp⟩
    · obtain ⟨u, hu, hp⟩ := h
      exact ⟨u, hu, ih hp⟩

end Path

/-- Every way on in a table is the trail of a path from the place `k`. -/
def Table.Sound (code : Code) (k : Cursor) (table : Table) : Prop :=
  ∀ address t, table.getD address none = some t → ∃ n, Path code n address k t

/-- Every way on that is known at the place `k` is the trail of a path. -/
def Known.Sound (code : Code) (k : Cursor) (known : Known) : Prop :=
  ∀ address t, known.getD address (some none) = some (some t) → ∃ n, Path code n address k t

theorem getD_setIfInBounds_self {α : Type} {xs : Array α} {i : Nat} (h : i < xs.size) (v d : α) :
    (xs.setIfInBounds i v).getD i d = v := by
  simp [Array.getD_eq_getD_getElem?, h]

theorem getD_setIfInBounds_ne {α : Type} {xs : Array α} {i j : Nat} (h : i ≠ j) (v d : α) :
    (xs.setIfInBounds i v).getD j d = xs.getD j d := by
  simp [Array.getD_eq_getD_getElem?, h]

theorem getD_setIfInBounds_cases {α : Type} (xs : Array α) (i j : Nat) (v d : α) :
    (xs.setIfInBounds i v).getD j d = v ∧ i = j ∨
      (xs.setIfInBounds i v).getD j d = xs.getD j d := by
  by_cases hij : i = j
  · subst hij
    by_cases hi : i < xs.size
    · exact .inl ⟨getD_setIfInBounds_self hi v d, rfl⟩
    · exact .inr (by simp [Array.getD_eq_getD_getElem?, hi])
  · exact .inr (getD_setIfInBounds_ne hij v d)

namespace Known.Sound

variable {code : Code} {k : Cursor} {known : Known}

/-- Noting that an instruction is being passed claims nothing. -/
theorem passing (h : Known.Sound code k known) (address : Nat) :
    Known.Sound code k (known.setIfInBounds address (some none)) := by
  intro a t ha
  rcases getD_setIfInBounds_cases known address a (some none) (some none) with ⟨hv, _⟩ | hv
  · simp [hv] at ha
  · exact h a t (hv ▸ ha)

theorem passed (h : Known.Sound code k known) {address : Nat} {way : Option Trail}
    (hw : ∀ t, way = some t → ∃ n, Path code n address k t) :
    Known.Sound code k (known.setIfInBounds address (some way)) := by
  intro a t ha
  rcases getD_setIfInBounds_cases known address a (some way) (some none) with ⟨hv, rfl⟩ | hv
  · rw [hv] at ha
    exact hw t (Option.some.inj ha)
  · exact h a t (hv ▸ ha)

end Known.Sound

/-- One instruction gives the trail of a path, if those behind it do. -/
theorem follow_sound {code : Code} {k : Cursor} {later : Table}
    (hl : Table.Sound code k.advance later) {go : Nat → Known → Option Trail × Known}
    (hg : ∀ address known, Known.Sound code k known →
      (∀ t, (go address known).1 = some t → ∃ n, Path code n address k t) ∧
        Known.Sound code k (go address known).2)
    (address : Nat) {known : Known} (hk : Known.Sound code k known) :
    (∀ t, ((code.getD address .accept).follow k later go known).1 = some t →
      ∃ n, Path code n address k t) ∧
      Known.Sound code k ((code.getD address .accept).follow k later go known).2 := by
  cases hi : code.getD address .accept with
  | accept =>
    refine ⟨fun t ht => ⟨1, ?_⟩, hk⟩
    have ht : some { stop := k } = some t := ht
    simp only [Path, hi, Option.some.inj ht]
  | char set next need =>
    refine ⟨fun t ht => ?_, hk⟩
    simp only [Instr.follow] at ht
    split at ht
    · next hc =>
      obtain ⟨c, hc, hs⟩ := (Option.any_eq_true _ _).1 hc
      obtain ⟨n, hn⟩ := hl next t ht
      exact ⟨n + 1, by simpa only [Path, hi] using ⟨c, hc, hs, hn⟩⟩
    · contradiction
  | look l next =>
    simp only [Instr.follow]
    split
    · next hh =>
      refine ⟨fun t ht => ?_, (hg next known hk).2⟩
      obtain ⟨n, hn⟩ := (hg next known hk).1 t ht
      exact ⟨n + 1, by simpa only [Path, hi] using ⟨hh, hn⟩⟩
    · exact ⟨by simp, hk⟩
  | fork first second =>
    have h1 := hg first known hk
    simp only [Instr.follow]
    split
    · next way known' he =>
      rw [he] at h1
      refine ⟨fun t ht => ?_, h1.2⟩
      obtain ⟨n, hn⟩ := h1.1 t ht
      exact ⟨n + 1, by simpa only [Path, hi] using .inl hn⟩
    · next known' he =>
      rw [he] at h1
      have h2 := hg second known' h1.2
      refine ⟨fun t ht => ?_, h2.2⟩
      obtain ⟨n, hn⟩ := h2.1 t ht
      exact ⟨n + 1, by simpa only [Path, hi] using .inr hn⟩
  | opening i next =>
    refine ⟨fun t ht => ?_, (hg next known hk).2⟩
    obtain ⟨u, hu, rfl⟩ := Option.map_eq_some_iff.1 ht
    obtain ⟨n, hn⟩ := (hg next known hk).1 u hu
    exact ⟨n + 1, by simpa only [Path, hi] using ⟨u, rfl, hn⟩⟩
  | closing i next =>
    refine ⟨fun t ht => ?_, (hg next known hk).2⟩
    obtain ⟨u, hu, rfl⟩ := Option.map_eq_some_iff.1 ht
    obtain ⟨n, hn⟩ := (hg next known hk).1 u hu
    exact ⟨n + 1, by simpa only [Path, hi] using ⟨u, rfl, hn⟩⟩

/-- What `explore` finds is the trail of a path, and it spoils nothing that is known. -/
theorem explore_sound {code : Code} {k : Cursor} {later : Table}
    (hl : Table.Sound code k.advance later) (fuel address : Nat) (known : Known)
    (hk : Known.Sound code k known) :
    (∀ t, (explore code k later fuel address known).1 = some t → ∃ n, Path code n address k t) ∧
      Known.Sound code k (explore code k later fuel address known).2 := by
  induction fuel generalizing address known with
  | zero => exact ⟨by simp [explore], hk⟩
  | succ fuel ih =>
    rw [explore]
    split
    · next way hway =>
      exact ⟨fun t ht => hk address t (by rw [hway, show way = some t from ht]), hk⟩
    · have h := follow_sound hl ih address (hk.passing address)
      exact ⟨h.1, h.2.passed h.1⟩

namespace Program

variable (p : Program)

theorem getD_noTable (address : Nat) : p.noTable.getD address none = none := by
  simp only [noTable, Array.getD_eq_getD_getElem?, Array.getElem?_replicate]
  split <;> rfl

theorem noTable_sound (k : Cursor) : Table.Sound p.code k p.noTable := by
  intro address t h
  rw [getD_noTable] at h
  contradiction

theorem unknown_sound (k : Cursor) : Known.Sound p.code k p.unknown := by
  intro address t h
  simp [unknown, Array.getD_eq_getD_getElem?, Array.getElem?_replicate] at h
  split at h <;> simp at h

theorem table_sound {k : Cursor} {later : Table} (hl : Table.Sound p.code k.advance later)
    (left : Nat) : Table.Sound p.code k (p.table k left later) := by
  unfold table
  generalize p.arrivals.filter (·.need ≤ left) = reachable
  -- The invariant of the fold: both the table and what is known hold trails of paths only.
  suffices h : ∀ (targets : List Target) (s : Table × Known), Table.Sound p.code k s.1 →
      Known.Sound p.code k s.2 → Table.Sound p.code k (targets.foldl (fun s target =>
        let found := explore p.code k later p.code.size target.address s.2
        (s.1.setIfInBounds target.address found.1, if p.revisits then p.unknown else found.2))
          s).1 from
    h reachable _ (p.noTable_sound k) (p.unknown_sound k)
  intro targets
  induction targets with
  | nil => exact fun s hs _ => hs
  | cons target targets ih =>
    intro s hs hk
    have he := explore_sound hl p.code.size target.address s.2 hk
    refine ih _ (fun address t ht => ?_) ?_
    · rcases getD_setIfInBounds_cases s.1 target.address address
        (explore p.code k later p.code.size target.address s.2).1 none with ⟨hv, rfl⟩ | hv
      · exact he.1 t (hv ▸ ht)
      · exact hs address t (hv ▸ ht)
    · dsimp only
      split
      · exact p.unknown_sound k
      · exact he.2

/-- The places from `k` on, with their tables. -/
def visit (k : Cursor) : Visit := k.places.foldr (Visit.extend p) { table := p.noTable }

theorem visit_nil {k : Cursor} (h : k.rest = []) :
    p.visit k = Visit.extend p k { table := p.noTable } := by
  simp only [visit, Cursor.places_nil h, List.foldr_cons, List.foldr_nil]

theorem visit_cons {k : Cursor} (h : k.rest ≠ []) :
    p.visit k = Visit.extend p k (p.visit k.advance) := by
  simp only [visit, Cursor.places_cons h, List.foldr_cons]

theorem visit_sound (k : Cursor) : Table.Sound p.code k (p.visit k).table := by
  by_cases h : k.rest = []
  · rw [visit_nil p h]
    exact p.table_sound (p.noTable_sound _) _
  · rw [visit_cons p h]
    exact p.table_sound (visit_sound k.advance) _
termination_by k.rest.length
decreasing_by exact Cursor.length_advance_rest h

/-- The preferred match that starts at `k`. -/
def find? (k : Cursor) : Option Match :=
  ((p.visit k).table.getD p.entry none).map fun t => ⟨k, t.stop, t.starts, t.stops⟩

theorem find?_path {k : Cursor} {m : Match} (h : p.find? k = some m) :
    m.start = k ∧ ∃ n, Path p.code n p.entry k ⟨m.stop, m.starts, m.stops⟩ := by
  obtain ⟨t, ht, rfl⟩ := Option.map_eq_some_iff.1 h
  exact ⟨rfl, p.visit_sound k p.entry t ht⟩

/-- A survey holds the preferred match of each place. -/
theorem survey_eq (k : Cursor) : p.survey k = k.places.map fun l => ⟨l, p.find? l⟩ := by
  change (p.visit k).places = _
  by_cases h : k.rest = []
  · simp only [find?, visit_nil p h, Cursor.places_nil h, List.map_cons, List.map_nil, Visit.extend]
  · have ih : (p.visit k.advance).places = _ := survey_eq k.advance
    simp only [find?, visit_cons p h, Cursor.places_cons h, List.map_cons, Visit.extend] at ih ⊢
    rw [ih]
termination_by k.rest.length
decreasing_by exact Cursor.length_advance_rest h

end Program
end SourceMend.Pattern
