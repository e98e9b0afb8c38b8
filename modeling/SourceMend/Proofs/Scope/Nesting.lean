import SourceMend.Proofs.Scope.Brackets
import SourceMend.Proofs.Scope.Passes
import SourceMend.Scope.Map

/-!
Frames and the stack of the scanner. The frames of a scope map are nested or apart, and those around
a place are exactly the brackets that are open when the scanner comes to it, so that looking a place
up in the list of frames gives the top of the stack.
-/
namespace SourceMend

/-- The greatest index with the property; none if no index has it. -/
def Latest (P : Nat → Prop) (i? : Option Nat) : Prop := (∀ i ∈ i?, P i) ∧ ∀ j, P j → ∃ i ∈ i?, j ≤ i

theorem Latest.congr {P Q : Nat → Prop} {i? : Option Nat} (h : Latest P i?) (hPQ : ∀ i, Q i ↔ P i) :
    Latest Q i? :=
  ⟨fun i hi => (hPQ i).2 (h.1 i hi), fun j hj => h.2 j ((hPQ j).1 hj)⟩

/-- In a decreasing list the head is the greatest. -/
theorem latest_head? {l : List Nat} (h : l.Pairwise (· > ·)) : Latest (· ∈ l) l.head? := by
  cases l with
  | nil => exact ⟨by simp, by simp⟩
  | cons i l =>
    refine ⟨by simp, fun j hj => ⟨i, rfl, ?_⟩⟩
    rcases List.mem_cons.1 hj with rfl | hj
    · exact Nat.le_refl _
    · exact Nat.le_of_lt (List.rel_of_pairwise_cons h hj)

/-- The byte lies behind the opening bracket, and not behind the closing one if that is known. -/
def Bracket.Encloses (b : Bracket) (o : Nat) : Prop := b.start < o ∧ ∀ p ∈ b.stop, o ≤ p

namespace Scope

def Control.EnclosedBy (k : Control) (o i : Nat) : Prop :=
  ∃ b, k.brackets[i]? = some b ∧ b.Encloses o

/-! The invariant -/

/-- Before byte `pos` is read: what the stack has to do with the recorded brackets, and how these
lie to each other. -/
structure Nested (pos : Nat) (k : Control) : Prop where
  mem_opened : ∀ i, i ∈ k.opened ↔ ∃ b, k.brackets[i]? = some b ∧ b.stop = none
  sorted : k.opened.Pairwise (· > ·)
  within : ∀ (i : Nat) (b : Bracket), k.brackets[i]? = some b →
    b.start < pos ∧ ∀ p ∈ b.stop, b.start < p ∧ p < pos
  ordered : ∀ (i j : Nat) (a b : Bracket), i < j →
    k.brackets[i]? = some a → k.brackets[j]? = some b →
    a.start < b.start ∧ ∀ p ∈ a.stop, p < b.start ∨ ∃ q ∈ b.stop, q ≤ p
  parent : ∀ (i : Nat) (b : Bracket), k.brackets[i]? = some b →
    Latest (k.EnclosedBy b.start) b.parent

namespace Nested

variable {pos pos' o : Nat} {k : Control} {c : Char} {st : Step}

theorem start (pos : Nat) : Nested pos {} where
  mem_opened := by simp [Control.opened]
  sorted := .nil
  within := by simp
  ordered := by simp
  parent := by simp

/-- The brackets around a place that the scanner comes to are the open ones. -/
theorem enclosedBy_iff (h : Nested pos k) (ho : pos ≤ o) (i : Nat) :
    k.EnclosedBy o i ↔ i ∈ k.opened := by
  rw [h.mem_opened]
  refine exists_congr fun b => and_congr_right fun hb => ⟨fun henc => ?_, fun hstop => ⟨?_, ?_⟩⟩
  · refine Option.eq_none_iff_forall_ne_some.2 fun p hp => ?_
    have hbehind := henc.2 p hp
    have hbefore := ((h.within i b hb).2 p hp).2
    omega
  · have := (h.within i b hb).1
    omega
  · simp [hstop]

theorem stop_eq_none_iff (h : Nested pos k) {i : Nat} {b : Bracket}
    (hb : k.brackets[i]? = some b) : b.stop = none ↔ i ∈ k.opened := by
  rw [h.mem_opened]
  simp [hb]

theorem latest (h : Nested pos k) (ho : pos ≤ o) : Latest (k.EnclosedBy o) k.opened.head? :=
  (latest_head? h.sorted).congr (h.enclosedBy_iff ho)

/-- A step does not change which brackets lie around the places up to the token that it reads. -/
theorem enclosedBy_moves (h : Nested pos k) (hm : Moves pos c k st) (cs : Text)
    (ho : o < pos + Text.size (c :: cs.take st.extent)) (i : Nat) :
    st.control.EnclosedBy o i ↔ k.EnclosedBy o i := by
  unfold Control.EnclosedBy
  cases hm with
  | keeping hbrackets hopened => rw [hbrackets]
  | opening b hextent hc hstart hstop hparent hbrackets hopened =>
    have hle : o ≤ pos := by
      rw [hextent] at ho
      simp only [List.take_zero, Text.size_cons, hc, Text.size_nil] at ho
      omega
    rw [hbrackets]
    refine exists_congr fun b' => ?_
    rw [Array.getElem?_push]
    split
    · next hi =>
      have hnone : k.brackets[i]? = none := Array.getElem?_eq_none (Nat.le_of_eq hi.symm)
      rw [hnone]
      refine iff_of_false ?_ (by simp)
      rintro ⟨hb, henc⟩
      obtain rfl := Option.some.inj hb
      have := henc.1
      omega
    · exact Iff.rfl
  | closing indices hextent hc hopened hbrackets =>
    have hle : o ≤ pos := by
      rw [hextent] at ho
      simp only [List.take_zero, Text.size_cons, hc, Text.size_nil] at ho
      omega
    rw [hbrackets, Control.getElem?_closeAll]
    cases hb : k.brackets[i]? with
    | none => simp
    | some b =>
      simp only [Option.map_some, Option.some.injEq, exists_eq_left']
      split
      · next hi =>
        obtain ⟨b', hb', hstop⟩ := (h.mem_opened i).1 (hopened ▸ List.mem_append_left _ hi)
        obtain rfl : b = b' := Option.some.inj (hb.symm.trans hb')
        simp [Bracket.Encloses, hstop, hle]
      · exact Iff.rfl

/-- The parent of a bracket stays the innermost one around it. -/
theorem parent_moves (h : Nested pos k) (hm : Moves pos c k st) {i : Nat} {b b' : Bracket}
    (hb : k.brackets[i]? = some b) (hstart : b'.start = b.start) (hparent : b'.parent = b.parent) :
    Latest (st.control.EnclosedBy b'.start) b'.parent := by
  have hlt := (h.within i b hb).1
  rw [hstart, hparent]
  exact (h.parent i b hb).congr (h.enclosedBy_moves hm [] (by omega))

theorem keeping (h : Nested pos k) (hpos : pos < pos') {k' : Control}
    (hbrackets : k'.brackets = k.brackets) (hopened : k'.opened = k.opened) : Nested pos' k' where
  mem_opened := hbrackets ▸ hopened ▸ h.mem_opened
  sorted := hopened ▸ h.sorted
  within i b hb := by
    obtain ⟨hlt, hstops⟩ := h.within i b (hbrackets ▸ hb)
    refine ⟨by omega, fun p hp => ?_⟩
    have := hstops p hp
    omega
  ordered := hbrackets ▸ h.ordered
  parent i b hb := (h.parent i b (hbrackets ▸ hb)).congr fun j => by
    rw [Control.EnclosedBy, Control.EnclosedBy, hbrackets]

theorem opening (h : Nested pos k) (hpos : pos < pos') (hm : Moves pos c k st) {b : Bracket}
    (hstart : b.start = pos) (hstop : b.stop = none) (hparent : b.parent = k.opened.head?)
    (hbrackets : st.control.brackets = k.brackets.push b)
    (hopened : st.control.opened = k.brackets.size :: k.opened) : Nested pos' st.control := by
  have hget (i : Nat) : st.control.brackets[i]? =
      if i = k.brackets.size then some b else k.brackets[i]? := by
    rw [hbrackets, Array.getElem?_push]
  constructor
  case mem_opened =>
    intro i
    rw [hopened, List.mem_cons, hget]
    split
    · next hi => simp [hi, hstop]
    · next hi => simp [hi, h.mem_opened]
  case sorted =>
    rw [hopened, List.pairwise_cons]
    refine ⟨fun i hi => ?_, h.sorted⟩
    obtain ⟨b', hb', -⟩ := (h.mem_opened i).1 hi
    exact (Array.getElem?_eq_some_iff.1 hb').1
  case within =>
    intro i b' hb'
    rw [hget] at hb'
    split at hb'
    · obtain rfl := Option.some.inj hb'
      simp [hstart, hstop, hpos]
    · obtain ⟨hlt, hstops⟩ := h.within i b' hb'
      refine ⟨by omega, fun p hp => ?_⟩
      have := hstops p hp
      omega
  case ordered =>
    intro i j a b' hij ha hb'
    have hj := (Array.getElem?_eq_some_iff.1 hb').1
    rw [hbrackets, Array.size_push] at hj
    rw [hget, if_neg (by omega)] at ha
    rw [hget] at hb'
    split at hb'
    · obtain rfl := Option.some.inj hb'
      obtain ⟨hlt, hstops⟩ := h.within i a ha
      exact ⟨by omega, fun p hp => .inl (by have := hstops p hp; omega)⟩
    · exact h.ordered i j a b' hij ha hb'
  case parent =>
    intro i b' hb'
    rw [hget] at hb'
    split at hb'
    · obtain rfl := Option.some.inj hb'
      rw [hparent, hstart]
      have hsize := Char.utf8Size_pos c
      exact (h.latest (Nat.le_refl pos)).congr
        (h.enclosedBy_moves hm [] (by simp only [Text.size_cons]; omega))
    · exact h.parent_moves hm hb' rfl rfl

theorem closing (h : Nested pos k) (hpos : pos < pos') (hm : Moves pos c k st)
    {indices : List Nat} (hopened : k.opened = indices ++ st.control.opened)
    (hbrackets : st.control.brackets = Control.closeAll k.brackets indices pos) :
    Nested pos' st.control := by
  have hsorted := h.sorted
  rw [hopened, List.pairwise_append] at hsorted
  obtain ⟨-, hstill, habove⟩ := hsorted
  have hopen {i : Nat} {b : Bracket} (hb : k.brackets[i]? = some b) :
      b.stop = none ↔ i ∈ indices ∨ i ∈ st.control.opened := by
    rw [h.stop_eq_none_iff hb, hopened, List.mem_append]
  constructor
  case mem_opened =>
    intro i
    rw [hbrackets, Control.getElem?_closeAll]
    cases hb : k.brackets[i]? with
    | none =>
      have hmem : i ∉ k.opened := fun hi => by simpa [hb] using (h.mem_opened i).1 hi
      rw [hopened, List.mem_append, not_or] at hmem
      simp [hmem.2]
    | some b =>
      simp only [Option.map_some, Option.some.injEq, exists_eq_left']
      split
      · next hi => exact iff_of_false (fun hi' => Nat.lt_irrefl i (habove i hi i hi')) (by simp)
      · next hi => simp [hopen hb, hi]
  case sorted => exact hstill
  case within =>
    intro i b' hb'
    obtain ⟨b, hb, hstart, -, hstop⟩ := Control.exists_of_closeAll (hbrackets ▸ hb')
    obtain ⟨hlt, hstops⟩ := h.within i b hb
    rw [hstart]
    refine ⟨by omega, fun p hp => ?_⟩
    rcases hstop with ⟨-, hstop⟩ | ⟨-, hstop⟩
    · obtain rfl := Option.some.inj (hstop.symm.trans hp)
      exact ⟨hlt, hpos⟩
    · have := hstops p (hstop ▸ hp)
      omega
  case ordered =>
    intro i j a' b' hij ha' hb'
    obtain ⟨a, ha, hastart, -, hastop⟩ := Control.exists_of_closeAll (hbrackets ▸ ha')
    obtain ⟨b, hb, hbstart, -, hbstop⟩ := Control.exists_of_closeAll (hbrackets ▸ hb')
    obtain ⟨hlt, hstops⟩ := h.ordered i j a b hij ha hb
    rw [hastart, hbstart]
    refine ⟨hlt, fun p hp => ?_⟩
    rcases hastop with ⟨hi, hastop⟩ | ⟨-, hastop⟩
    · -- All that was opened inside is closed by now.
      obtain rfl := Option.some.inj (hastop.symm.trans hp)
      right
      rcases hbstop with ⟨-, hbstop⟩ | ⟨hj, hbstop⟩
      · exact ⟨_, hbstop, Nat.le_refl _⟩
      · rw [hbstop]
        cases hq : b.stop with
        | none =>
          have hj' := ((hopen hb).1 hq).resolve_left hj
          have := habove i hi j hj'
          omega
        | some q => exact ⟨q, rfl, Nat.le_of_lt ((h.within j b hb).2 q hq).2⟩
    · rcases hstops p (hastop ▸ hp) with hp | ⟨q, hq, hqp⟩
      · exact .inl hp
      · rcases hbstop with ⟨hj, -⟩ | ⟨-, hbstop⟩
        · rw [(hopen hb).2 (.inl hj)] at hq
          cases hq
        · exact .inr ⟨q, hbstop ▸ hq, hqp⟩
  case parent =>
    intro i b' hb'
    obtain ⟨b, hb, hstart, hparent, -⟩ := Control.exists_of_closeAll (hbrackets ▸ hb')
    exact h.parent_moves hm hb hstart hparent

theorem moves (h : Nested pos k) (hm : Moves pos c k st) (hpos : pos < pos') :
    Nested pos' st.control := by
  cases hm with
  | keeping hbrackets hopened => exact h.keeping hpos hbrackets hopened
  | opening b hextent hc hstart hstop hparent hbrackets hopened =>
    exact h.opening hpos (.opening b hextent hc hstart hstop hparent hbrackets hopened) hstart
      hstop hparent hbrackets hopened
  | closing indices hextent hc hopened hbrackets =>
    exact h.closing hpos (.closing indices hextent hc hopened hbrackets) hopened hbrackets

end Nested

/-! Runs -/

namespace State

variable {d : Dialect} {s t : State} {o : Nat}

theorem nested_advance (h : Nested s.pos s.control) (hrest : s.rest ≠ []) :
    Nested (s.advance d).pos (s.advance d).control := by
  have hlt := pos_lt_advance (d := d) hrest
  obtain ⟨rest, pos, pieces, k⟩ := s
  obtain ⟨c, cs, rfl⟩ := List.exists_cons_of_ne_nil hrest
  have hmoves : Moves pos c k (step d k pos c cs) := moves_step
  exact h.moves hmoves hlt

theorem enclosedBy_advance (h : Nested s.pos s.control) (hrest : s.rest ≠ [])
    (ho : o < (s.advance d).pos) (i : Nat) :
    (s.advance d).control.EnclosedBy o i ↔ s.control.EnclosedBy o i := by
  obtain ⟨rest, pos, pieces, k⟩ := s
  obtain ⟨c, cs, rfl⟩ := List.exists_cons_of_ne_nil hrest
  have hmoves : Moves pos c k (step d k pos c cs) := moves_step
  exact h.enclosedBy_moves hmoves cs ho i

theorem Passes.nested (h : Passes d s t) (hs : Nested s.pos s.control) :
    Nested t.pos t.control := by
  induction h with
  | here => exact hs
  | next hrest _ ih => exact ih (nested_advance hs hrest)

/-- Which brackets lie around a place is settled when the token there is read. -/
theorem Passes.enclosedBy_iff (h : Passes d s t) (hs : Nested s.pos s.control)
    (ho : o < (s.advance d).pos) (i : Nat) :
    t.control.EnclosedBy o i ↔ s.control.EnclosedBy o i := by
  induction h with
  | here => exact Iff.rfl
  | @next s t hrest hpass ih =>
    have hnext : o < ((s.advance d).advance d).pos := by
      by_cases hend : (s.advance d).rest = []
      · rwa [advance_of_rest_nil hend]
      · exact Nat.lt_trans ho (pos_lt_advance hend)
    rw [ih (nested_advance hs hrest) hnext, enclosedBy_advance hs hrest ho]

/-- The token that holds the byte is read next, or the text ends there. -/
def Faces (d : Dialect) (s : State) (o : Nat) : Prop :=
  s.pos ≤ o ∧ (o < (s.advance d).pos ∨ s.rest = [] ∧ o = s.pos)

theorem exists_faces (d : Dialect) (s : State) {o : Nat} (hle : s.pos ≤ o)
    (ho : o ≤ (s.run d).pos) : ∃ t, Passes d s t ∧ t.Faces d o := by
  fun_induction run d s with
  | case1 s h => exact ⟨s, .here s, hle, .inr ⟨h, by omega⟩⟩
  | case2 s h ih =>
    by_cases hlt : o < (s.advance d).pos
    · exact ⟨s, .here s, hle, .inl hlt⟩
    · obtain ⟨t, hpass, hfaces⟩ := ih (by omega) ho
      exact ⟨t, .next h hpass, hfaces⟩

theorem Passes.faces_le (h : Passes d s t) (hfaces : t.Faces d o) : o ≤ (s.run d).pos := by
  rw [h.run_eq]
  by_cases hend : t.rest = []
  · have hpos := (passes_run d t).pos_le
    rw [Faces, advance_of_rest_nil hend] at hfaces
    omega
  · have hpos := (passes_run d (t.advance d)).pos_le
    rw [run, if_neg hend]
    rcases hfaces.2 with hlt | ⟨hrest, -⟩
    · omega
    · contradiction

/-- The brackets around a place, once the text is read, are those that were open when the scanner
came to it. -/
theorem enclosedBy_run (hpass : Passes d s t) (hs : Nested s.pos s.control) (hfaces : t.Faces d o)
    (i : Nat) : (s.run d).control.EnclosedBy o i ↔ i ∈ t.control.opened := by
  have ht := hpass.nested hs
  rw [hpass.run_eq, ← ht.enclosedBy_iff hfaces.1]
  rcases hfaces.2 with hlt | ⟨hend, -⟩
  · exact (passes_run d t).enclosedBy_iff ht hlt i
  · rw [run_of_rest_nil hend]

end State
end Scope

/-! Frames -/

/-- In a list sorted by `start` the frames that start before a place come first. -/
theorem takeWhile_start_eq_filter {frames : List Frame}
    (h : frames.Pairwise fun f g => f.start < g.start) (o : Nat) :
    frames.takeWhile (·.start < o) = frames.filter (·.start < o) := by
  induction frames with
  | nil => rfl
  | cons f frames ih =>
    obtain ⟨hf, hframes⟩ := List.pairwise_cons.1 h
    by_cases hlt : f.start < o
    · rw [List.takeWhile_cons_of_pos (by simpa using hlt),
        List.filter_cons_of_pos (by simpa using hlt), ih hframes]
    · have hnone : ∀ g ∈ frames, ¬ decide (g.start < o) = true := by
        intro g hg
        have := hf g hg
        simp
        omega
      rw [List.takeWhile_cons_of_neg (by simpa using hlt),
        List.filter_cons_of_neg (by simpa using hlt), List.filter_eq_nil_iff.2 hnone]

namespace ScopeMap

open Scope (State)

def EnclosedBy (m : ScopeMap) (o i : Nat) : Prop :=
  ∃ f, m.frames[i]? = some f ∧ f.encloses o = true

/-- The innermost frame at a place is the last one around it. -/
theorem frameAt_of_latest {m : ScopeMap} {o : Nat} {i? : Option Nat}
    (h : Latest (m.EnclosedBy o) i?) (ho : o ≤ m.size) :
    m.frameAt o = (i?.bind (m.frames[·]?)).map (·.kind) := by
  have hencloses (f : Frame) : (f.encloses o && decide (o ≤ m.size)) = f.encloses o := by
    simp [ho]
  have hfind : m.frames.reverse.find? (·.encloses o) = i?.bind (m.frames[·]?) := by
    cases i? with
    | none =>
      refine List.find?_eq_none.2 fun f hf henc => ?_
      obtain ⟨j, hj⟩ := List.getElem?_of_mem (List.mem_reverse.1 hf)
      obtain ⟨i, hi, -⟩ := h.2 j ⟨f, hj, henc⟩
      cases hi
    | some i =>
      obtain ⟨f, hf, henc⟩ := h.1 i rfl
      obtain ⟨hi, hget⟩ := List.getElem?_eq_some_iff.1 hf
      have hsplit : m.frames = m.frames.take i ++ f :: m.frames.drop (i + 1) := by
        rw [← hget, ← List.drop_eq_getElem_cons hi, List.take_append_drop]
      have hreverse : m.frames.reverse =
          (m.frames.drop (i + 1)).reverse ++ f :: (m.frames.take i).reverse := by
        simpa using congrArg List.reverse hsplit
      refine Eq.trans ?_ hf.symm
      refine List.find?_eq_some_iff_append.2 ⟨henc, _, _, hreverse, fun g hg => ?_⟩
      obtain ⟨j, hj⟩ := List.getElem?_of_mem (List.mem_reverse.1 hg)
      rw [List.getElem?_drop] at hj
      cases hgo : g.encloses o with
      | false => rfl
      | true =>
        obtain ⟨i', hi', hle⟩ := h.2 _ ⟨g, hj, hgo⟩
        obtain rfl := Option.some.inj hi'
        omega
  simp only [frameAt, hencloses, hfind]

theorem getElem?_frames_ofState (s : State) (i : Nat) : (ofState s).frames[i]? =
    s.control.brackets[i]?.map (settle s.control.brackets s.pieces.reverse s.pos) := by
  simp [ofState]

/-- Within the text the frames lie around a place as the brackets do. -/
theorem enclosedBy_ofState {s : State} {o : Nat} (ho : o ≤ s.pos) (i : Nat) :
    (ofState s).EnclosedBy o i ↔ s.control.EnclosedBy o i := by
  unfold EnclosedBy Scope.Control.EnclosedBy
  rw [getElem?_frames_ofState]
  cases s.control.brackets[i]? with
  | none => simp
  | some b =>
    cases hstop : b.stop <;> simp [Frame.encloses, settle, Bracket.Encloses, hstop, ho]

end ScopeMap

namespace ScopeMap

variable (text : Text) (d : Dialect)

theorem nested_run : Scope.Nested (scan text d).size
    (({ rest := text } : Scope.State).run d).control :=
  (Scope.State.passes_run d { rest := text }).nested (.start 0)

variable {text d}

/-- The bracket of a frame. -/
theorem exists_bracket {i : Nat} {f : Frame} (hf : (scan text d).frames[i]? = some f) :
    ∃ b, (({ rest := text } : Scope.State).run d).control.brackets[i]? = some b ∧
      b.start = f.start ∧ f.stop = b.stop.getD (scan text d).size := by
  obtain ⟨b, hb, rfl⟩ := Option.map_eq_some_iff.1 (getElem?_frames_ofState _ i ▸ hf)
  exact ⟨b, hb, rfl, rfl⟩

theorem frame_bounds {f : Frame} (hf : f ∈ (scan text d).frames) :
    f.start < f.stop ∧ f.stop ≤ (scan text d).size := by
  obtain ⟨i, hi⟩ := List.getElem?_of_mem hf
  obtain ⟨b, hb, hstart, hstop⟩ := exists_bracket hi
  obtain ⟨hlt, hstops⟩ := (nested_run text d).within i b hb
  rw [← hstart, hstop]
  cases hp : b.stop with
  | none => exact ⟨hlt, Nat.le_refl _⟩
  | some p => exact ⟨(hstops p hp).1, Nat.le_of_lt (hstops p hp).2⟩

theorem pairwise_frames (text : Text) (d : Dialect) : (scan text d).frames.Pairwise fun f g =>
    f.start < g.start ∧ (g.stop ≤ f.stop ∨ f.stop < g.start) := by
  rw [List.pairwise_iff_getElem]
  intro i j hi hj hij
  obtain ⟨a, ha, hastart, hastop⟩ := exists_bracket (List.getElem?_eq_getElem hi)
  obtain ⟨b, hb, hbstart, hbstop⟩ := exists_bracket (List.getElem?_eq_getElem hj)
  obtain ⟨hlt, hstops⟩ := (nested_run text d).ordered i j a b hij ha hb
  refine ⟨by rwa [← hastart, ← hbstart], ?_⟩
  cases hp : a.stop with
  | none =>
    left
    rw [hastop, hp]
    exact (frame_bounds (List.getElem_mem hj)).2
  | some p =>
    rw [hp] at hastop
    rcases hstops p hp with hbefore | ⟨q, hq, hle⟩
    · exact .inr (by rwa [hastop, ← hbstart])
    · rw [hq] at hbstop
      exact .inl (by rwa [hastop, hbstop])

/-- The frames that start before a place come first, and the lookup goes through them backwards. -/
theorem frameAt_eq_takeWhile (text : Text) (d : Dialect) (o : Nat) :
    let m := scan text d
    m.frameAt o = ((m.frames.takeWhile (·.start < o)).reverse.find? fun f =>
      o ≤ f.stop && o ≤ m.size).map (·.kind) := by
  intro m
  have hfilter : m.frames.takeWhile (·.start < o) = m.frames.filter (·.start < o) :=
    takeWhile_start_eq_filter ((pairwise_frames text d).imp And.left) o
  rw [hfilter, ← List.filter_reverse, List.find?_filter]
  simp only [frameAt, Frame.encloses, Bool.and_assoc, Bool.decide_and, Bool.decide_eq_true]

end ScopeMap

/-- The kind of frame at a place is that of the innermost bracket that the scanner has open when it
comes there. The frames are in the order of their opening brackets, every frame ends behind its
opening bracket and within the text, and of two frames the later one lies in the earlier one or
behind it. The parent of a bracket is the innermost frame around it. -/
theorem ScopeMap.frames_nested (text : Text) (d : Dialect) :
    let start : Scope.State := { rest := text }
    let m := scan text d
    m.size = Text.size text ∧
    (∀ o ≤ m.size, ∃ s, Scope.State.Passes d start s ∧ s.Faces d o) ∧
    (∀ s o, Scope.State.Passes d start s → s.Faces d o →
      (∀ i ∈ s.control.opened, i < m.frames.length) ∧
      m.frameAt o = (s.control.currentBracket.bind (m.frames[·]?)).map (·.kind)) ∧
    (∀ o, m.size < o → m.frameAt o = none) ∧
    m.frames.Pairwise (fun f g => f.start < g.start ∧ (g.stop ≤ f.stop ∨ f.stop < g.start)) ∧
    (∀ f ∈ m.frames, f.start < f.stop ∧ f.stop ≤ m.size) ∧
    ∀ (i : Nat) (f : Frame), m.frames[i]? = some f →
      ∃ b, (start.run d).control.brackets[i]? = some b ∧ b.start = f.start ∧
        Latest (m.EnclosedBy f.start) b.parent := by
  intro start m
  refine ⟨?size, fun o ho => Scope.State.exists_faces d start (Nat.zero_le o) ho, ?lookup, ?past,
    pairwise_frames text d, fun f => frame_bounds, ?parent⟩
  case size => simp [m, scan, ofState, Scope.State.pos_run]
  case lookup =>
    intro s o hpass hfaces
    have hle : o ≤ m.size := hpass.faces_le hfaces
    have hiff (i : Nat) : m.EnclosedBy o i ↔ i ∈ s.control.opened :=
      (enclosedBy_ofState hle i).trans (Scope.State.enclosedBy_run hpass (.start 0) hfaces i)
    refine ⟨fun i hi => ?_, ?_⟩
    · obtain ⟨f, hf, -⟩ := (hiff i).2 hi
      exact (List.getElem?_eq_some_iff.1 hf).1
    · rw [Scope.Control.currentBracket_eq]
      exact frameAt_of_latest ((latest_head? (hpass.nested (.start 0)).sorted).congr hiff) hle
  case past =>
    intro o ho
    simp [frameAt, Nat.not_le.2 ho]
  case parent =>
    intro i f hf
    obtain ⟨b, hb, hstart, -⟩ := exists_bracket hf
    refine ⟨b, hb, hstart, ?_⟩
    have hnested := nested_run text d
    rw [← hstart]
    exact (hnested.parent i b hb).congr
      (enclosedBy_ofState (Nat.le_of_lt (hnested.within i b hb).1))

/-- The closing parenthesis ends the brace as well, and both frames reach up to it. -/
theorem ScopeMap.frames_nested_lopsided :
    let start : Scope.State := { rest := "f(\x7bx) ".toList }
    let m := ScopeMap.scan "f(\x7bx) ".toList .script
    m.frames = [⟨.parens, 1, 4⟩, ⟨.block, 2, 4⟩] ∧
    (∃ s, Scope.State.Passes .script start s ∧ s.Faces .script 4 ∧ s.control.opened = [1, 0]) ∧
    m.frameAt 4 = some .block ∧ m.frameAt 7 = none ∧
    (start.run .script).control.brackets[1]?.map (·.parent) = some (some 0) := by
  intro start m
  let s := start.advance .script |>.advance .script |>.advance .script |>.advance .script
  have hpass : Scope.State.Passes .script start s :=
    .next (by decide) <| .next (by decide +kernel) <| .next (by decide +kernel) <|
      .next (by decide +kernel) (.here _)
  have hfaces : s.Faces .script 4 := by
    unfold Scope.State.Faces
    decide +kernel
  obtain ⟨-, -, hlookup, hpast, -, -, -⟩ := frames_nested "f(\x7bx) ".toList .script
  have hframes : m.frames = [⟨.parens, 1, 4⟩, ⟨.block, 2, 4⟩] := by decide +kernel
  have hopened : s.control.opened = [1, 0] := by decide +kernel
  have hfour := (hlookup s 4 hpass hfaces).2
  rw [Scope.Control.currentBracket_eq, hopened] at hfour
  refine ⟨hframes, ⟨s, hpass, hfaces, hopened⟩, hfour.trans ?_, hpast 7 (by decide +kernel),
    by decide +kernel⟩
  show Option.map (·.kind) (m.frames[1]?) = _
  rw [hframes]
  rfl

end SourceMend
