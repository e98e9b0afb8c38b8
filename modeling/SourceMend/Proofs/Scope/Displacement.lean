import SourceMend.Proofs.Scope.Frames
import SourceMend.Proofs.Scope.Literal
import SourceMend.Proofs.Scope.Lookup

/-!
Literals of different lengths in one place. What is recorded before a literal keeps its position and
what is recorded behind it is displaced, so that the kinds and the frames around a literal do not
depend on how long it is.
-/
namespace SourceMend

open Scope (Label Piece State)

/-! Positions -/

/-- The byte `p` when a literal that starts at byte `start` ends at byte `new` and not at `old`. -/
def displace (start old new p : Nat) : Nat := if p ≤ start then p else p - old + new

section Displace

variable {start old new : Nat}

theorem displace_of_le {p : Nat} (h : p ≤ start) : displace start old new p = p := if_pos h

theorem displace_add (hold : start < old) (n : Nat) :
    displace start old new (old + n) = new + n := by
  rw [displace, if_neg (by omega)]
  omega

theorem strictMonoOn_displace (hnew : start < new) :
    StrictMonoOn (displace start old new) {p | p ≤ start ∨ old ≤ p} := by
  intro p hp q hq hlt
  simp only [displace, Set.mem_ofPred_eq] at hp hq ⊢
  split <;> split <;> omega

end Displace

/-! The code behind a bracket -/

namespace ScopeMap

theorem codeAfter_before {q : Nat} {X Y : List Piece} (hne : ∀ p ∈ X ++ Y, p.text ≠ [])
    (h : ∀ p ∈ Y, q ≤ p.start) : codeAfter (X ++ Y) q =
      leadingCode 2 ((X.dropWhile (·.start < q)).flatMap Piece.labels ++
        Y.flatMap Piece.labels) := by
  have hY : Y.dropWhile (·.start < q) = Y := by
    cases Y with
    | nil => rfl
    | cons p Y => exact List.dropWhile_cons_of_neg (by simpa using h p List.mem_cons_self)
  rw [codeAfter_eq hne, List.dropWhile_append, hY]
  split
  · next hnil => rw [List.isEmpty_iff.1 hnil, List.flatMap_nil, List.nil_append]
  · rw [List.flatMap_append]

theorem codeAfter_behind {q : Nat} {X Y : List Piece} (hne : ∀ p ∈ X ++ Y, p.text ≠ [])
    (h : ∀ p ∈ X, p.start < q) : codeAfter (X ++ Y) q =
      leadingCode 2 ((Y.dropWhile (·.start < q)).flatMap Piece.labels) := by
  rw [codeAfter_eq hne, List.dropWhile_append_of_pos fun p hp => by simpa using h p hp]

section Displace

variable {start old new : Nat} {kind : SpanKind} {s t : Text} (hold : start < old)
  (hnew : start < new) (hkind : kind ≠ .code) (hs : s ≠ []) (ht : t ≠ [])

include hold

theorem start_displace (new : Nat) {p : Piece} (h : old ≤ p.start) :
    ∃ n, p.start = old + n ∧ (p.moved (displace start old new)).start = new + n := by
  obtain ⟨n, hn⟩ := Nat.exists_eq_add_of_le h
  refine ⟨n, hn, ?_⟩
  rw [Piece.moved, hn, displace_add hold]

theorem dropWhile_displace {ps : List Piece} (h : ∀ p ∈ ps, old ≤ p.start) (n : Nat) :
    (ps.map (Piece.moved (displace start old new))).dropWhile (·.start < new + n + 1) =
      (ps.dropWhile (·.start < old + n + 1)).map (Piece.moved (displace start old new)) := by
  induction ps with
  | nil => rfl
  | cons p ps ih =>
    obtain ⟨hp, hps⟩ := List.forall_mem_cons.1 h
    obtain ⟨m, hm, hstart⟩ := start_displace hold new hp
    rw [List.map_cons, List.dropWhile_cons, List.dropWhile_cons, hstart, hm, ih hps]
    by_cases hle : m < n + 1
    · rw [if_pos (by simp; omega), if_pos (by simp; omega)]
    · rw [if_neg (by simp; omega), if_neg (by simp; omega), List.map_cons]

include hnew hkind hs ht

/-- What code comes next behind a bracket depends on no literal. -/
theorem codeAfter_displace {front mid mid' back : List Piece}
    (hfront : ∀ p ∈ front, p.text ≠ [] ∧ p.start < start) (hmid : Fills start old kind s mid)
    (hmid' : Fills start new kind t mid') (hback : ∀ p ∈ back, p.text ≠ [] ∧ old ≤ p.start)
    {p : Nat} (hp : p < start ∨ old ≤ p) :
    codeAfter (front ++ mid' ++ back.map (Piece.moved (displace start old new)))
        (displace start old new p + 1) =
      codeAfter (front ++ mid ++ back) (p + 1) := by
  have hne : ∀ x ∈ front ++ mid ++ back, x.text ≠ [] := by
    simp only [List.forall_mem_append]
    exact ⟨⟨fun x hx => (hfront x hx).1, fun x hx => (hmid.pieces x hx).1⟩,
      fun x hx => (hback x hx).1⟩
  have hne' : ∀ x ∈ front ++ mid' ++ back.map (Piece.moved (displace start old new)),
      x.text ≠ [] := by
    simp only [List.forall_mem_append, List.forall_mem_map]
    exact ⟨⟨fun x hx => (hfront x hx).1, fun x hx => (hmid'.pieces x hx).1⟩,
      fun x hx => (hback x hx).1⟩
  rcases hp with hp | hp
  · -- Before the literal, the code that comes next may lie on either side of it.
    rw [displace_of_le (by omega)]
    rw [List.append_assoc] at hne hne' ⊢
    rw [List.append_assoc, codeAfter_before hne', codeAfter_before hne]
    · simp only [List.flatMap_append, hmid.labels, hmid'.labels, Scope.labels_moved]
      exact leadingCode_literal 2 _ _ hkind ht hs
    · intro x hx
      rcases List.mem_append.1 hx with hx | hx
      · have := hmid.pieces x hx
        omega
      · have := hback x hx
        omega
    · intro x hx
      rcases List.mem_append.1 hx with hx | hx
      · have := hmid'.pieces x hx
        omega
      · obtain ⟨y, hy, rfl⟩ := List.mem_map.1 hx
        obtain ⟨n, -, hn⟩ := start_displace hold new (hback y hy).2
        rw [hn]
        omega
  · obtain ⟨n, rfl⟩ := Nat.exists_eq_add_of_le hp
    rw [displace_add hold, codeAfter_behind hne', codeAfter_behind hne,
      dropWhile_displace hold fun x hx => (hback x hx).2, Scope.labels_moved]
    · exact List.forall_mem_append.2 ⟨fun x hx => by have := hfront x hx; omega,
        fun x hx => by have := hmid.pieces x hx; omega⟩
    · exact List.forall_mem_append.2 ⟨fun x hx => by have := hfront x hx; omega,
        fun x hx => by have := hmid'.pieces x hx; omega⟩

/-- The frames before and behind a literal do not depend on it. -/
theorem frameAt_displace {r : State} {front mid mid' : List Piece}
    (hfront : ∀ p ∈ front, p.text ≠ [] ∧ p.start < start)
    (hmid : Fills start old kind s mid.reverse) (hmid' : Fills start new kind t mid'.reverse)
    (hback : ∀ p ∈ r.pieces, p.text ≠ [] ∧ old ≤ p.start)
    (hin : r.control.Within fun p => p < start ∨ old ≤ p) (hend : old ≤ r.pos) {o : Nat}
    (ho : o ≤ start ∨ old ≤ o) :
    (ofState ((r.moved (displace start old new)).behind (mid' ++ front))).frameAt
        (displace start old new o) =
      (ofState (r.behind (mid ++ front))).frameAt o := by
  refine frameAt_moved (strictMonoOn_displace hnew)
    (frames_moved (s := r.behind (mid ++ front)) rfl rfl ?_) rfl ?_ (.inr hend) ho
  · intro b hb p hp
    have hreverse (φ : Nat → Nat) : ((r.moved φ).behind (mid' ++ front)).pieces.reverse =
        front.reverse ++ mid'.reverse ++ r.pieces.reverse.map (Piece.moved φ) := by
      simp [State.behind, State.moved]
    have hreverse' : (r.behind (mid ++ front)).pieces.reverse =
        front.reverse ++ mid.reverse ++ r.pieces.reverse := by
      simp [State.behind]
    rw [hreverse, hreverse']
    refine codeAfter_displace hold hnew hkind hs ht ?_ hmid hmid' ?_ ((hin b hb).2 p hp)
    · simpa using hfront
    · simpa using hback
  · intro f hf
    obtain ⟨b, hb, rfl⟩ := List.mem_map.1 hf
    obtain ⟨hstart, hstop⟩ := hin b (by simpa [State.behind] using hb)
    refine ⟨hstart.imp_left Nat.le_of_lt, ?_⟩
    show b.stop.getD r.pos ≤ start ∨ old ≤ b.stop.getD r.pos
    cases hb : b.stop with
    | none => exact .inr hend
    | some p => exact (hstop p hb).imp_left Nat.le_of_lt

end Displace

end ScopeMap

/-- Labels before and behind a run of one kind, looked up by byte. -/
theorem kindAtByte_around {X R : List Label} {A s t : Text} {kind : SpanKind}
    (hX : X.map Prod.snd = A) (hs : s ≠ []) (ht : t ≠ []) :
    (∀ o ≤ Text.size A, kindAtByte (X ++ (t.map (Prod.mk kind) ++ R)) o =
      kindAtByte (X ++ (s.map (Prod.mk kind) ++ R)) o) ∧
    ∀ o, kindAtByte (X ++ (t.map (Prod.mk kind) ++ R)) (Text.size (A ++ t) + o) =
      kindAtByte (X ++ (s.map (Prod.mk kind) ++ R)) (Text.size (A ++ s) + o) := by
  subst hX
  have hstart {u : Text} (hu : u ≠ []) : kindAtByte (X ++ (u.map (Prod.mk kind) ++ R))
      (Text.size (X.map Prod.snd)) = kind := by
    have hpos := Text.size_pos hu
    have hright := kindAtByte_append_right X (u.map (Prod.mk kind) ++ R) 0
    rw [Nat.add_zero] at hright
    rw [hright, kindAtByte_append_left R (by rwa [Scope.map_snd_mk]), kindAtByte_run kind u hpos]
  have hbehind (u : Text) (o : Nat) : kindAtByte (X ++ (u.map (Prod.mk kind) ++ R))
      (Text.size (X.map Prod.snd ++ u) + o) = kindAtByte R o := by
    have hright := kindAtByte_append_right (X ++ u.map (Prod.mk kind)) R o
    rwa [List.map_append, Scope.map_snd_mk, List.append_assoc] at hright
  constructor
  · intro o ho
    rcases Nat.lt_or_eq_of_le ho with hlt | rfl
    · rw [kindAtByte_append_left _ hlt, kindAtByte_append_left _ hlt]
    · rw [hstart ht, hstart hs]
  · intro o
    rw [hbehind, hbehind]

end SourceMend
