import Mathlib.Data.List.TakeWhile
import Mathlib.Tactic.Conv
import SourceMend.Proofs.Scope.Lookup

/-!
Where the spans lie. They stay within the text, and each byte has the kind of the span that holds
it.
-/
namespace SourceMend

theorem Covers.bounds {pos : Nat} {spans : List Span} {L : List Scope.Label}
    (h : Covers pos spans L) {s : Span} (hs : s ∈ spans) :
    pos ≤ s.start ∧ s.start < s.stop ∧ s.stop ≤ pos + Text.size (L.map Prod.snd) := by
  induction h with
  | nil => cases hs
  | @cons kind pos t spans L ht _ _ ih =>
    have hsize := Text.size_pos ht
    rw [List.map_append, Scope.map_snd_mk, Text.size_append]
    rcases List.mem_cons.1 hs with rfl | hs
    · dsimp only
      omega
    · have := ih hs
      omega

/-- The kind of a byte is that of the span that holds it. -/
theorem Covers.kindIn_of_mem {pos : Nat} {spans : List Span} {L : List Scope.Label}
    (h : Covers pos spans L) {s : Span} (hs : s ∈ spans) {i : Nat} (hle : s.start ≤ i)
    (hlt : i < s.stop) : Span.kindIn spans i = s.kind := by
  induction h with
  | nil => cases hs
  | cons _ _ hcov ih =>
    rw [Span.kindIn_cons]
    rcases List.mem_cons.1 hs with rfl | hs
    · rw [if_pos hlt]
    · have := (hcov.bounds hs).1
      rw [if_neg (by dsimp only; omega), ih hs]

theorem ScopeMap.kindAt_of_mem {text : Text} {d : Dialect} {s : Span}
    (hs : s ∈ (ScopeMap.scan text d).spans) {i : Nat} (hle : s.start ≤ i) (hlt : i < s.stop) :
    (ScopeMap.scan text d).kindAt i = s.kind :=
  (covers_scan text d).kindIn_of_mem hs hle hlt

theorem ScopeMap.stop_le_size {text : Text} {d : Dialect} {s : Span}
    (hs : s ∈ (ScopeMap.scan text d).spans) : s.stop ≤ Text.size text := by
  have hstop := ((covers_scan text d).bounds hs).2.2
  rwa [Scope.map_snd_labels, Nat.zero_add] at hstop

/-- Every span that reaches into a range of code is code. -/
theorem ScopeMap.kind_of_isCode {text : Text} {d : Dialect} {start stop : Nat}
    (h : (ScopeMap.scan text d).isCode start stop = true) (hlt : start < stop) {s : Span}
    (hs : s ∈ (ScopeMap.scan text d).spans) (hstart : s.start < stop) (hstop : start < s.stop) :
    s.kind = .code := by
  have hspan := ((covers_scan text d).bounds hs).2.1
  have hcode := (isCode_iff text d hlt).1 h (max start s.start) (by omega) (by omega)
  rwa [kindAt_of_mem hs (by omega) (by omega)] at hcode

/-- The literals one after the other are the characters whose labels are not code. -/
theorem flatMap_literalRuns (L : List Scope.Label) :
    (literalRuns L).flatMap Prod.snd = (L.filter (·.1 ≠ .code)).map Prod.snd := by
  fun_induction literalRuns L with
  | case1 => rfl
  | case2 c L ih => rw [ih, List.filter_cons_of_neg (by simp)]
  | case3 kind c L hkind ih =>
    have htake : (L.takeWhile (·.1 = kind)).filter (·.1 ≠ .code) = L.takeWhile (·.1 = kind) := by
      refine List.filter_eq_self.2 fun l hl => ?_
      have heq : l.1 = kind := by simpa using List.mem_takeWhile_imp hl
      simpa [heq] using hkind
    rw [List.flatMap_cons, ih, List.filter_cons_of_pos (by simpa using hkind)]
    conv_rhs => rw [← List.takeWhile_append_dropWhile (p := fun l => l.1 = kind) (l := L)]
    rw [List.filter_append, htake]
    simp

end SourceMend
