import SourceMend.Pattern.Basic
import SourceMend.Proofs.Pattern.Path

/-!
The meaning of patterns. A node relates the place where it starts and the trail from there on to
the place where it stops and the trail from there on. The instructions that `emit` writes follow
this relation: a path through them is a way through the node and a path behind it. So every match
that a survey finds is a way through the node of its pattern.
-/
namespace SourceMend

theorem CharSet.eq_of_contains_singleton {c d : Char} (h : (CharSet.singleton c).contains d) :
    d = c := by
  have hn : d.toNat = c.toNat := by
    simp [CharSet.contains, CharSet.singleton, CharSet.containsCode] at h
    omega
  exact Char.toNat_inj.1 hn

namespace Pattern

/-- A relation between the points of a way: a place and the trail from there on. -/
abbrev Leads := Cursor → Trail → Cursor → Trail → Prop

/-- `n` steps of a relation. -/
def Times (R : Leads) : Nat → Leads
  | 0, k, t, l, u => k = l ∧ t = u
  | n + 1, k, t, l, u => ∃ m v, R k t m v ∧ Times R n m v l u

theorem Times.append {R : Leads} {i j : Nat} {k l m : Cursor} {t u v : Trail}
    (h : Times R i k t l u) (h' : Times R j l u m v) : Times R (i + j) k t m v := by
  induction i generalizing k t with
  | zero =>
    obtain ⟨rfl, rfl⟩ := h
    simpa only [Nat.zero_add] using h'
  | succ i ih =>
    obtain ⟨m', v', hR, hT⟩ := h
    rw [Nat.add_right_comm]
    exact ⟨m', v', hR, ih hT⟩

theorem Times.one {R : Leads} {k l : Cursor} {t u : Trail} (h : R k t l u) :
    Times R 1 k t l u := ⟨l, u, h, rfl, rfl⟩

/-- A way through the node leads from the place `k` to the place `l`; when the trail from `l` on
is `u`, the trail from `k` on is `t`. -/
def Node.Way : Node → Leads
  | .empty, k, t, l, u => k = l ∧ t = u
  | .literal text, k, t, l, u => k.Reads text l ∧ t = u
  | .one set, k, t, l, u => (∃ c, set.contains c = true ∧ k.Reads [c] l) ∧ t = u
  | .look a, k, t, l, u => a.holds k = true ∧ k = l ∧ t = u
  | .seq a b, k, t, l, u => ∃ m v, a.Way k t m v ∧ b.Way m v l u
  | .alt a b, k, t, l, u => a.Way k t l u ∨ b.Way k t l u
  | .group i _ a, k, t, l, u => ∃ v, t = v.opened i k ∧ a.Way k v l (u.closed i l)
  | .rep a least most _, k, t, l, u =>
    ∃ n, least ≤ n ∧ (∀ m ∈ most, n ≤ max least m) ∧ Times a.Way n k t l u

theorem Times.reads {R : Leads} {n : Nat} {k l : Cursor} {t u : Trail}
    (hR : ∀ {k t l u}, R k t l u → ∃ s, k.Reads s l) (h : Times R n k t l u) :
    ∃ s, k.Reads s l := by
  induction n generalizing k t with
  | zero => exact ⟨[], h.1 ▸ Cursor.Reads.refl k⟩
  | succ n ih =>
    obtain ⟨m, v, hm, hT⟩ := h
    obtain ⟨s, hs⟩ := hR hm
    obtain ⟨r, hr⟩ := ih hT
    exact ⟨s ++ r, hs.trans hr⟩

/-- A way reads a piece of the text. -/
theorem Node.Way.reads {a : Node} {k l : Cursor} {t u : Trail} (h : a.Way k t l u) :
    ∃ s, k.Reads s l := by
  induction a generalizing k t l u with
  | empty => exact ⟨[], h.1 ▸ Cursor.Reads.refl k⟩
  | literal text => exact ⟨text, h.1⟩
  | one set =>
    obtain ⟨⟨c, _, hc⟩, _⟩ := h
    exact ⟨[c], hc⟩
  | look a => exact ⟨[], h.2.1 ▸ Cursor.Reads.refl k⟩
  | seq a b iha ihb =>
    obtain ⟨m, v, ha, hb⟩ := h
    obtain ⟨s, hs⟩ := iha ha
    obtain ⟨r, hr⟩ := ihb hb
    exact ⟨s ++ r, hs.trans hr⟩
  | alt a b iha ihb => exact h.elim iha ihb
  | group i name a ih =>
    obtain ⟨v, _, ha⟩ := h
    exact ih ha
  | rep a min max greedy ih =>
    obtain ⟨n, _, _, hT⟩ := h
    exact hT.reads ih

/-- All along a way the trail stops at the same place. -/
theorem Node.Way.stop_eq {a : Node} {k l : Cursor} {t u : Trail} (h : a.Way k t l u) :
    t.stop = u.stop := by
  induction a generalizing k t l u with
  | empty | literal _ | one _ => exact h.2 ▸ rfl
  | look a => exact h.2.2 ▸ rfl
  | seq a b iha ihb =>
    obtain ⟨m, v, ha, hb⟩ := h
    exact (iha ha).trans (ihb hb)
  | alt a b iha ihb => exact h.elim iha ihb
  | group i name a ih =>
    obtain ⟨v, rfl, ha⟩ := h
    have hv : v.stop = (u.closed i l).stop := ih ha
    exact hv
  | rep a least most greedy ih =>
    obtain ⟨n, hT⟩ : ∃ n, Times a.Way n k t l u := h.imp fun n hn => hn.2.2
    clear h
    induction n generalizing k t with
    | zero => exact hT.2 ▸ rfl
    | succ n ihn =>
      obtain ⟨m, v, hm, hT⟩ := hT
      exact (ih hm).trans (ihn hT)

namespace Code

/-- What was written stays, and more may follow. -/
def Extends (code more : Code) : Prop :=
  code.size ≤ more.size ∧ ∀ i < code.size, more[i]? = code[i]?

theorem Extends.refl (code : Code) : Extends code code := ⟨Nat.le_refl _, fun _ _ => rfl⟩

theorem Extends.trans {a b c : Code} (h : Extends a b) (h' : Extends b c) : Extends a c := by
  refine ⟨Nat.le_trans h.1 h'.1, fun i hi => ?_⟩
  rw [h'.2 i (by have := h.1; omega), h.2 i hi]

theorem extends_push (code : Code) (i : Instr) : Extends code (code.push i) := by
  refine ⟨by simp, fun j hj => ?_⟩
  rw [Array.getElem?_push, if_neg (by omega)]

/-- A program holds the instructions of `code` from the address `lo` on. -/
def Covers (whole code : Code) (lo : Nat) : Prop :=
  ∀ i, lo ≤ i → i < code.size → whole[i]? = code[i]?

theorem Covers.of_extends {whole code more : Code} {lo : Nat} (h : Covers whole more lo)
    (he : Extends code more) : Covers whole code lo := by
  intro i hlo hi
  rw [h i hlo (by have := he.1; omega), he.2 i hi]

theorem Covers.of_le {whole code : Code} {lo lo' : Nat} (h : Covers whole code lo)
    (hl : lo ≤ lo') : Covers whole code lo' := fun i hi => h i (Nat.le_trans hl hi)

theorem Covers.getD_push {whole code : Code} {i : Instr} {lo : Nat}
    (h : Covers whole (code.push i) lo) (hl : lo ≤ code.size) :
    whole.getD code.size .accept = i := by
  have := h code.size hl (by simp)
  simp [Array.getD_eq_getD_getElem?, this]

end Code

/-- What writes instructions that follow a relation: a path through them is a step of the relation
and a path behind them. -/
structure Emits (body : Target → Code → Target × Code) (R : Leads) : Prop where
  grows : ∀ next code, Code.Extends code (body next code).2
  path : ∀ {whole} next code, Code.Covers whole (body next code).2 code.size →
    ∀ {n k t}, Path whole n (body next code).1.address k t →
      ∃ l u, R k t l u ∧ Path whole n next.address l u

namespace Emits

variable {body other : Target → Code → Target × Code} {R S : Leads}

/-- Weakens the relation. -/
theorem imp (h : Emits body R) (hRS : ∀ {k t l u}, R k t l u → S k t l u) : Emits body S := by
  refine ⟨h.grows, fun next code hc _ _ _ hp => ?_⟩
  obtain ⟨l, u, hR, hn⟩ := h.path next code hc hp
  exact ⟨l, u, hRS hR, hn⟩

theorem nothing : Emits (fun next code => (next, code)) (fun k t l u => k = l ∧ t = u) :=
  ⟨fun _ code => Code.Extends.refl code, fun _ _ _ _ k t hp => ⟨k, t, ⟨rfl, rfl⟩, hp⟩⟩

/-- What is written last comes first on a path. -/
theorem before (ha : Emits body R) (hb : Emits other S) :
    Emits (fun next code => body (other next code).1 (other next code).2)
      (fun k t l u => ∃ m v, R k t m v ∧ S m v l u) := by
  refine ⟨fun next code => (hb.grows next code).trans (ha.grows _ _),
    fun next code hc _ k t hp => ?_⟩
  obtain ⟨m, v, hR, hm⟩ := ha.path _ _ (hc.of_le (hb.grows next code).1) hp
  obtain ⟨l, u, hS, hl⟩ := hb.path next code (hc.of_extends (ha.grows _ _)) hm
  exact ⟨l, u, ⟨m, v, hR, hS⟩, hl⟩

/-- A single instruction. -/
theorem write {i : Target → Instr} {need : Target → Nat}
    (h : ∀ {whole : Code} {next : Target} {a n : Nat} {k : Cursor} {t : Trail},
      whole.getD a .accept = i next → Path whole (n + 1) a k t →
        ∃ l u, R k t l u ∧ Path whole n next.address l u) :
    Emits (fun next code => code.write (i next) (need next)) R := by
  refine ⟨fun _ code => Code.extends_push code _, fun next code hc n k t hp => ?_⟩
  cases n with
  | zero => exact hp.elim
  | succ n =>
    obtain ⟨l, u, hR, hl⟩ := h (hc.getD_push (Nat.le_refl _)) hp
    exact ⟨l, u, hR, hl.succ⟩

theorem writeChar (set : CharSet) (bytes : Nat) :
    Emits (fun next code => code.writeChar set bytes next) (Node.one set).Way := by
  refine write fun {whole next a n k t} hi hp => ?_
  simp only [Path, hi] at hp
  obtain ⟨c, hc, hs, hp⟩ := hp
  exact ⟨k.advance, t, ⟨⟨c, hs, Cursor.reads_advance hc⟩, rfl⟩, hp⟩

theorem writeText (text : Text) :
    Emits (fun next code => code.writeText text next) (Node.literal text).Way := by
  induction text with
  | nil => exact nothing.imp fun ⟨hk, ht⟩ => ⟨hk ▸ Cursor.Reads.refl _, ht⟩
  | cons c cs ih =>
    refine ((writeChar (CharSet.singleton c) c.utf8Size).before ih).imp ?_
    rintro k t l u ⟨m, v, ⟨⟨d, hd, hkm⟩, rfl⟩, hml, rfl⟩
    obtain rfl : d = c := CharSet.eq_of_contains_singleton hd
    exact ⟨hkm.trans hml, rfl⟩

theorem look (l : Look) :
    Emits (fun next code => code.write (.look l next.address) next.need) (Node.look l).Way := by
  refine write fun {whole next a n k t} hi hp => ?_
  simp only [Path, hi] at hp
  exact ⟨k, t, ⟨hp.1, rfl, rfl⟩, hp.2⟩

theorem fork (ha : Emits body R) (hb : Emits other S) :
    Emits (fun next code =>
      let (second, code) := other next code
      let (first, code) := body next code
      code.write (.fork first.address second.address) (Nat.min first.need second.need))
      (fun k t l u => R k t l u ∨ S k t l u) := by
  refine ⟨fun next code => ((hb.grows next code).trans (ha.grows _ _)).trans
    (Code.extends_push _ _), fun next code hc n k t hp => ?_⟩
  have hgb := hb.grows next code
  have hga := ha.grows next (other next code).2
  have hi := hc.getD_push (Nat.le_trans hgb.1 hga.1)
  have hc' := hc.of_extends (Code.extends_push _ _)
  cases n with
  | zero => exact hp.elim
  | succ n =>
    simp only [Path, Code.write, hi] at hp
    rcases hp with hp | hp
    · obtain ⟨l, u, hR, hl⟩ := ha.path _ _ (hc'.of_le hgb.1) hp.succ
      exact ⟨l, u, .inl hR, hl⟩
    · obtain ⟨l, u, hS, hl⟩ := hb.path _ _ (hc'.of_extends hga) hp.succ
      exact ⟨l, u, .inr hS, hl⟩

theorem opening (i : Nat) :
    Emits (fun next code => code.write (.opening i next.address) next.need)
      (fun k t l u => k = l ∧ t = u.opened i k) := by
  refine write fun {whole next a n k t} hi hp => ?_
  simp only [Path, hi] at hp
  obtain ⟨u, hu, hp⟩ := hp
  exact ⟨k, u, ⟨rfl, hu⟩, hp⟩

theorem closing (i : Nat) :
    Emits (fun next code => code.write (.closing i next.address) next.need)
      (fun k t l u => k = l ∧ t = u.closed i k) := by
  refine write fun {whole next a n k t} hi hp => ?_
  simp only [Path, hi] at hp
  obtain ⟨u, hu, hp⟩ := hp
  exact ⟨k, u, ⟨rfl, hu⟩, hp⟩

theorem writeTimes (h : Emits body R) (n : Nat) : Emits (Code.writeTimes body n) (Times R n) := by
  induction n with
  | zero => exact nothing
  | succ n ih =>
    refine (ih.before h).imp ?_
    rintro k t l u ⟨m, v, hT, hR⟩
    exact hT.append (.one hR)

/-- The test of a loop goes on to the body or to the way out. -/
theorem path_loop {whole : Code} {a n start exit : Nat} {greedy : Bool} {k : Cursor} {t : Trail}
    (hi : whole.getD a .accept = .loop greedy start exit) (hp : Path whole (n + 1) a k t) :
    Path whole n start k t ∨ Path whole n exit k t := by
  cases greedy with
  | false =>
    simp only [Path, hi, Instr.loop, Bool.false_eq_true, if_false] at hp
    exact hp.symm
  | true =>
    simp only [Path, hi, Instr.loop, if_true] at hp
    exact hp

theorem grows_writeOptions (h : Emits body R) (greedy : Bool) (exit : Target) (n : Nat)
    (next : Target) (code : Code) :
    Code.Extends code (Code.writeOptions body greedy exit n next code).2 := by
  induction n generalizing next code with
  | zero => exact Code.Extends.refl code
  | succ n ih => exact ((h.grows next code).trans (Code.extends_push _ _)).trans (ih _ _)

/-- A path that enters `n` options leaves them behind some of the bodies, either at the end of the
last one or at the way out. -/
theorem writeOptions_path (h : Emits body R) {greedy : Bool} {exit : Target} (n : Nat)
    {whole code : Code} {next : Target}
    (hc : Code.Covers whole (Code.writeOptions body greedy exit n next code).2 code.size)
    {i : Nat} {k : Cursor} {t : Trail}
    (hp : Path whole i (Code.writeOptions body greedy exit n next code).1.address k t) :
    ∃ j ≤ n, ∃ l u, Times R j k t l u ∧
      (Path whole i next.address l u ∨ Path whole i exit.address l u) := by
  induction n generalizing next code with
  | zero => exact ⟨0, Nat.le_refl 0, k, t, ⟨rfl, rfl⟩, .inl hp⟩
  | succ n ih =>
    have hg := h.grows next code
    have hw := Code.extends_push (body next code).2
      (.loop greedy (body next code).1.address exit.address)
    have ho := grows_writeOptions h greedy exit n
      ⟨(body next code).2.size, exit.need⟩ ((body next code).2.push
        (.loop greedy (body next code).1.address exit.address))
    obtain ⟨j, hj, l, u, hT, hl⟩ := ih (hc.of_le (Nat.le_trans hg.1 hw.1)) hp
    rcases hl with hl | hl
    · have hi := (hc.of_extends ho).getD_push hg.1
      cases i with
      | zero => exact hl.elim
      | succ i =>
        rcases path_loop hi hl with hs | he
        · obtain ⟨m, v, hR, hm⟩ := h.path next code ((hc.of_extends ho).of_extends hw) hs
          exact ⟨j + 1, by omega, m, v, hT.append (.one hR), .inl hm.succ⟩
        · exact ⟨j, by omega, l, u, hT, .inr he.succ⟩
    · exact ⟨j, by omega, l, u, hT, .inr hl⟩

section Loop

variable (h : Emits body R) (greedy : Bool) (next : Target) (code : Code)

include h

theorem grows_writeLoop : Code.Extends code (code.writeLoop body greedy next).2.2 := by
  have hb := h.grows ⟨code.size, next.need⟩ (code.push (.fork next.address next.address))
  have he := (Code.extends_push code _).trans hb
  refine ⟨by simpa [Code.writeLoop] using he.1, fun i hi => ?_⟩
  have hne : code.size ≠ i := by omega
  simpa [Code.writeLoop, Array.getElem?_setIfInBounds, hne] using he.2 i hi

/-- The program holds the test of the loop and the body written behind it. -/
theorem covers_writeLoop {whole : Code}
    (hc : Code.Covers whole (code.writeLoop body greedy next).2.2 code.size) :
    whole.getD code.size .accept =
        .loop greedy (code.writeLoop body greedy next).2.1.address next.address ∧
      Code.Covers whole
        (body ⟨code.size, next.need⟩ (code.push (.fork next.address next.address))).2
        (code.push (.fork next.address next.address)).size := by
  have hb := h.grows ⟨code.size, next.need⟩ (code.push (.fork next.address next.address))
  have hlt : code.size <
      (body ⟨code.size, next.need⟩ (code.push (.fork next.address next.address))).2.size := by
    have := hb.1
    simp only [Array.size_push] at this
    omega
  constructor
  · have := hc code.size (Nat.le_refl _) (by simpa [Code.writeLoop] using hlt)
    simp [Array.getD_eq_getD_getElem?, this, Code.writeLoop, hlt]
  · intro i hi hi'
    rw [Array.size_push] at hi
    have hne : code.size ≠ i := by omega
    have := hc i (by omega) (by simpa [Code.writeLoop] using hi')
    simpa [Code.writeLoop, Array.getElem?_setIfInBounds, hne] using this

/-- From the start of the body a path takes one iteration and comes to the test. -/
theorem loop_start {whole : Code}
    (hc : Code.Covers whole (code.writeLoop body greedy next).2.2 code.size) {n : Nat} {k : Cursor}
    {t : Trail} (hp : Path whole n (code.writeLoop body greedy next).2.1.address k t) :
    ∃ l u, R k t l u ∧ Path whole n code.size l u :=
  h.path ⟨code.size, next.need⟩ _ (covers_writeLoop h greedy next code hc).2 hp

/-- From the test a path takes some iterations and leaves the loop. -/
theorem loop_test {whole : Code}
    (hc : Code.Covers whole (code.writeLoop body greedy next).2.2 code.size) {n : Nat} {k : Cursor}
    {t : Trail} (hp : Path whole n code.size k t) :
    ∃ j l u, Times R j k t l u ∧ Path whole n next.address l u := by
  induction n generalizing k t with
  | zero => exact hp.elim
  | succ n ih =>
    rcases path_loop (covers_writeLoop h greedy next code hc).1 hp with hs | he
    · obtain ⟨m, v, hR, hm⟩ := loop_start h greedy next code hc hs
      obtain ⟨j, l, u, hT, hl⟩ := ih hm
      exact ⟨j + 1, l, u, ⟨m, v, hR, hT⟩, hl.succ⟩
    · exact ⟨0, k, t, ⟨rfl, rfl⟩, he.succ⟩

end Loop
end Emits

theorem emits_unbounded {a : Node} (h : Emits a.emit a.Way) (min : Nat) (greedy : Bool) :
    Emits (Node.rep a min none greedy).emit (Node.rep a min none greedy).Way := by
  have hw (next : Target) (code : Code) := h.grows_writeLoop greedy next code
  refine ⟨fun next code => ?_, fun next code hc n k t hp => ?_⟩
  · simp only [Node.emit]
    split
    · split
      · exact hw next code
      · exact (hw next code).trans (Code.extends_push _ _)
    · exact (hw next code).trans ((h.writeTimes (min - 1)).grows _ _)
  · simp only [Node.emit] at hc hp
    split at hc
    · next hmin =>
      rw [if_pos hmin] at hp
      subst hmin
      split at hc
      · next ha =>
        rw [if_pos ha] at hp
        obtain ⟨j, l, u, hT, hl⟩ := h.loop_test greedy next code hc hp
        exact ⟨l, u, ⟨j, Nat.zero_le j, by simp, hT⟩, hl⟩
      · next ha =>
        rw [if_neg ha] at hp
        have hc' := hc.of_extends (Code.extends_push _ _)
        cases n with
        | zero => exact hp.elim
        | succ n =>
          rcases Emits.path_loop (hc.getD_push (hw next code).1) hp with hs | he
          · obtain ⟨m, v, hR, hm⟩ := h.loop_start greedy next code hc' hs
            obtain ⟨j, l, u, hT, hl⟩ := h.loop_test greedy next code hc' hm
            exact ⟨l, u, ⟨j + 1, Nat.zero_le _, by simp, m, v, hR, hT⟩, hl.succ⟩
          · exact ⟨k, t, ⟨0, Nat.le_refl 0, by simp, rfl, rfl⟩, he.succ⟩
    · next hmin =>
      rw [if_neg hmin] at hp
      have hg := (h.writeTimes (min - 1)).grows (code.writeLoop a.emit greedy next).2.1
        (code.writeLoop a.emit greedy next).2.2
      have hc' := hc.of_extends hg
      obtain ⟨l₁, u₁, hT₁, hs⟩ := (h.writeTimes (min - 1)).path _ _ (hc.of_le (hw next code).1) hp
      obtain ⟨l₂, u₂, hR, ht⟩ := h.loop_start greedy next code hc' hs
      obtain ⟨j, l, u, hT, hl⟩ := h.loop_test greedy next code hc' ht
      exact ⟨l, u, ⟨min - 1 + (j + 1), by omega, by simp, hT₁.append ⟨l₂, u₂, hR, hT⟩⟩, hl⟩

theorem emits_bounded {a : Node} (h : Emits a.emit a.Way) (min most : Nat) (greedy : Bool) :
    Emits (Node.rep a min (some most) greedy).emit (Node.rep a min (some most) greedy).Way := by
  have ho (next : Target) (code : Code) :=
    h.grows_writeOptions greedy next (most - min) next code
  refine ⟨fun next code => (ho next code).trans ((h.writeTimes min).grows _ _),
    fun next code hc n k t hp => ?_⟩
  have hg := (h.writeTimes min).grows
    (Code.writeOptions a.emit greedy next (most - min) next code).1
    (Code.writeOptions a.emit greedy next (most - min) next code).2
  obtain ⟨l₁, u₁, hT₁, h₁⟩ := (h.writeTimes min).path _ _ (hc.of_le (ho next code).1) hp
  obtain ⟨j, hj, l, u, hT, hl⟩ := h.writeOptions_path (most - min) (hc.of_extends hg) h₁
  exact ⟨l, u, ⟨min + j, Nat.le_add_right _ _, by simp; omega, hT₁.append hT⟩, hl.elim id id⟩

/-- The instructions of a node follow its meaning. -/
theorem emits_emit (a : Node) : Emits a.emit a.Way := by
  induction a with
  | empty => exact .nothing
  | literal text => exact .writeText text
  | one set => exact .writeChar set _
  | look l => exact .look l
  | seq a b iha ihb => exact iha.before ihb
  | alt a b iha ihb => exact iha.fork ihb
  | group i name a ih =>
    refine ((Emits.opening i).before (ih.before (Emits.closing i))).imp ?_
    rintro k t l u ⟨m, v, ⟨rfl, rfl⟩, m', v', ha, rfl, rfl⟩
    exact ⟨v, rfl, ha⟩
  | rep a min max greedy ih =>
    cases max with
    | none => exact emits_unbounded ih min greedy
    | some most => exact emits_bounded ih min most greedy

/-- The match that a pattern finds at a place is a way through its node. -/
theorem find?_way {a : Node} {k : Cursor} {m : Match} (h : a.program.find? k = some m) :
    m.start = k ∧ a.Way k ⟨m.stop, m.starts, m.stops⟩ m.stop { stop := m.stop } := by
  obtain ⟨hs, n, hp⟩ := a.program.find?_path h
  have hg := (emits_emit a).grows ⟨0, 0⟩ #[.accept]
  obtain ⟨l, u, hw, hl⟩ := (emits_emit a).path ⟨0, 0⟩ #[.accept] (fun _ _ _ => rfl) hp
  have hi : (a.emit ⟨0, 0⟩ #[.accept]).2.getD 0 .accept = .accept := by
    have := hg.2 0 (by simp)
    simp [Array.getD_eq_getD_getElem?, this]
  -- Behind the node only the end of the program is left, where the trail stops.
  cases n with
  | zero => exact hl.elim
  | succ n =>
    obtain rfl : u = { stop := l } := by simpa only [Path, hi] using hl
    have hstop : m.stop = l := hw.stop_eq
    exact ⟨hs, hstop ▸ hw⟩

end Pattern
end SourceMend
