import SourceMend.Proofs.Scope.Spans

/-!
Lookups by bisection. The spans end one behind the other, so for any byte those that end there or
before it come first, and halving the list finds how many they are. The span behind these is the
only one that can hold the byte, and the spans from there on that start before the end of a range
are those that reach into it.
-/
namespace SourceMend

variable {o m n : Nat} {spans : List Span}

def Span.holds (s : Span) (o : Nat) : Bool := s.start ≤ o && o < s.stop

/-- The first `n` spans end at byte `o` or before it, and the others behind it. -/
structure Span.Parted (spans : List Span) (o n : Nat) : Prop where
  le_length : n ≤ spans.length
  stop_le : ∀ s ∈ spans.take n, s.stop ≤ o
  lt_stop : ∀ s ∈ spans.drop n, o < s.stop

/-- Halves the range from `lo` to `hi` until it is down to the number of spans that end at byte `o`
or before it. -/
def Span.bisect (spans : List Span) (o lo hi : Nat) : Nat :=
  if lo < hi then
    let mid := lo + (hi - lo) / 2
    if spans[mid]?.any (·.stop ≤ o) then bisect spans o (mid + 1) hi else bisect spans o lo mid
  else lo
termination_by hi - lo

namespace Span.Parted

theorem dropWhile_eq (h : Parted spans o n) : spans.dropWhile (·.stop ≤ o) = spans.drop n := by
  conv_lhs => rw [← List.take_append_drop n spans]
  rw [List.dropWhile_append_of_pos (by simpa using h.stop_le)]
  have hlt := h.lt_stop
  cases hd : spans.drop n with
  | nil => rfl
  | cons s rest =>
    rw [hd] at hlt
    exact List.dropWhile_cons_of_neg (by simpa using hlt s List.mem_cons_self)

theorem find?_eq (h : Parted spans o n) : (spans.find? fun s => o < s.stop) = spans[n]? := by
  rw [← List.head?_drop, ← h.dropWhile_eq, ← List.find?_not_eq_head?_dropWhile]
  simp only [← decide_not, Nat.not_le]

theorem unique (h : Parted spans o m) (h' : Parted spans o n) : m = n := by
  have hlength := congrArg List.length (h.dropWhile_eq.symm.trans h'.dropWhile_eq)
  have hm := h.le_length
  have hn := h'.le_length
  rw [List.length_drop, List.length_drop] at hlength
  omega

theorem any_getElem?_iff (h : Parted spans o n) {i : Nat} (hi : i < spans.length) :
    spans[i]?.any (·.stop ≤ o) = true ↔ i < n := by
  rw [List.getElem?_eq_getElem hi, Option.any_some, decide_eq_true_iff]
  constructor
  · intro hstop
    refine Nat.not_le.1 fun hle => Nat.not_lt.2 hstop (h.lt_stop _ ?_)
    exact List.mem_drop_iff_getElem.2 ⟨i - n, by omega, by simp only [Nat.add_sub_cancel' hle]⟩
  · intro hlt
    exact h.stop_le _ (List.mem_take_iff_getElem.2 ⟨i, by omega, rfl⟩)

/-- The place where the spans are parted stays in the range that is left. -/
theorem bisect_eq (h : Parted spans o n) {lo hi : Nat} (hlo : lo ≤ n) (hhi : n ≤ hi)
    (hlength : hi ≤ spans.length) : bisect spans o lo hi = n := by
  fun_induction bisect spans o lo hi with
  | case1 lo hi hlt mid hany ih =>
    have hmid := (h.any_getElem?_iff (i := mid) (by omega)).1 hany
    exact ih hmid hhi hlength
  | case2 lo hi hlt mid hany ih =>
    have hmid := mt (h.any_getElem?_iff (i := mid) (by omega)).2 hany
    exact ih hlo (Nat.not_lt.1 hmid) (by omega)
  | case3 lo hi hlt => omega

end Span.Parted

section Covers

variable {pos : Nat} {L : List Scope.Label}

theorem Covers.exists_parted (h : Covers pos spans L) (o : Nat) : ∃ n, Span.Parted spans o n := by
  induction h with
  | nil => exact ⟨0, Nat.le_refl _, by simp, by simp⟩
  | @cons kind pos t spans L _ _ hcov ih =>
    by_cases hend : pos + Text.size t ≤ o
    · obtain ⟨n, hparted⟩ := ih
      exact ⟨n + 1, Nat.succ_le_succ hparted.le_length,
        List.forall_mem_cons.2 ⟨hend, hparted.stop_le⟩, hparted.lt_stop⟩
    · refine ⟨0, Nat.zero_le _, by simp, List.forall_mem_cons.2 ⟨Nat.not_le.1 hend, ?_⟩⟩
      intro s hs
      have := hcov.bounds hs
      omega

/-- A byte among those of the labels is held by exactly one span. -/
theorem Covers.exists_filter_holds (h : Covers pos spans L) (hle : pos ≤ o)
    (hlt : o < pos + Text.size (L.map Prod.snd)) : ∃ s, spans.filter (·.holds o) = [s] := by
  induction h with
  | nil => exact absurd hlt (Nat.not_lt.2 hle)
  | @cons kind pos t spans L _ _ hcov ih =>
    rw [List.map_append, Scope.map_snd_mk, Text.size_append, ← Nat.add_assoc] at hlt
    by_cases hend : o < pos + Text.size t
    · have hnone : spans.filter (·.holds o) = [] := by
        refine List.filter_eq_nil_iff.2 fun s hs => ?_
        have := (hcov.bounds hs).1
        simp only [Span.holds, Bool.and_eq_true, decide_eq_true_eq]
        omega
      refine ⟨⟨kind, pos, pos + Text.size t⟩, ?_⟩
      rw [List.filter_cons_of_pos (by simp [Span.holds, hle, hend]), hnone]
    · obtain ⟨s, hs⟩ := ih (Nat.not_lt.1 hend) hlt
      exact ⟨s, by rw [List.filter_cons_of_neg (by simp [Span.holds, hend]), hs]⟩

end Covers

namespace ScopeMap

variable {text : Text} {d : Dialect}

theorem kindAt_of_parted {scope : ScopeMap} (h : Span.Parted scope.spans o n) :
    scope.kindAt o = (scope.spans[n]?.map (·.kind)).getD .code := by
  rw [kindAt, h.find?_eq]

theorem isCode_of_parted {scope : ScopeMap} (h : Span.Parted scope.spans o n) {stop : Nat}
    (hlt : o < stop) : scope.isCode o stop =
      ((scope.spans.drop n).takeWhile (·.start < stop)).all (·.kind = .code) := by
  rw [isCode, if_neg (Nat.not_le.2 hlt), h.dropWhile_eq]

theorem isCode_empty_iff (scope : ScopeMap) {start stop : Nat} (h : stop ≤ start) :
    scope.isCode start stop = true ↔ scope.kindAt start = .code := by
  rw [isCode, if_pos h, decide_eq_true_iff]

theorem kindAt_of_size_le (h : Text.size text ≤ o) : (scan text d).kindAt o = .code := by
  have hnone : ((scan text d).spans.find? fun s => o < s.stop) = none := by
    refine List.find?_eq_none.2 fun s hs => ?_
    simpa using (stop_le_size hs).trans h
  rw [kindAt, hnone]
  rfl

end ScopeMap

/-- The kind at a byte of the text is that of the one span that holds it, and past the end
everything is code. A range is code when every byte in it is, also where it goes past the end, and
an empty one when the byte where it starts is. Bisection finds how many spans end at a byte or
before it: the kind is that of the next span, and a range from that byte on is code when the spans
from the next one on are, as far as they start in the range. -/
theorem ScopeMap.lookups_exact (text : Text) (d : Dialect) :
    let scope := scan text d
    (∀ o < Text.size text,
      ∃ s, scope.spans.filter (·.holds o) = [s] ∧ scope.kindAt o = s.kind) ∧
    (∀ o, Text.size text ≤ o → scope.kindAt o = .code) ∧
    (∀ start stop, start < stop → (scope.isCode start stop = true ↔
      ∀ i, start ≤ i → i < stop → scope.kindAt i = .code)) ∧
    (∀ start stop, stop ≤ start →
      (scope.isCode start stop = true ↔ scope.kindAt start = .code)) ∧
    ∀ o,
      let n := Span.bisect scope.spans o 0 scope.spans.length
      (∀ k, Span.Parted scope.spans o k ↔ k = n) ∧
      scope.kindAt o = (scope.spans[n]?.map (·.kind)).getD .code ∧
      ∀ stop, o < stop → scope.isCode o stop =
        ((scope.spans.drop n).takeWhile (·.start < stop)).all (·.kind = .code) := by
  intro scope
  have hcov := covers_scan text d
  refine ⟨?inside, fun o => kindAt_of_size_le, fun start stop => isCode_iff text d,
    fun start stop => scope.isCode_empty_iff, ?bisect⟩
  case inside =>
    intro o ho
    obtain ⟨s, hs⟩ := hcov.exists_filter_holds (Nat.zero_le o)
      (by rwa [Scope.map_snd_labels, Nat.zero_add])
    have hmem : s ∈ scope.spans.filter (·.holds o) := by
      rw [hs]
      exact List.mem_singleton_self s
    obtain ⟨hspan, hholds⟩ := List.mem_filter.1 hmem
    simp only [Span.holds, Bool.and_eq_true, decide_eq_true_eq] at hholds
    exact ⟨s, hs, kindAt_of_mem hspan hholds.1 hholds.2⟩
  case bisect =>
    intro o n
    obtain ⟨k, hk⟩ := hcov.exists_parted o
    have hparted : Span.Parted scope.spans o n := by
      rwa [← hk.bisect_eq (Nat.zero_le k) hk.le_length (Nat.le_refl _)] at hk
    exact ⟨fun k => ⟨fun hk => hk.unique hparted, fun hk => hk ▸ hparted⟩, kindAt_of_parted hparted,
      fun stop => isCode_of_parted hparted⟩

/-- Byte 4 is inside the accented letter of the string. The ranges touch the string, go past the
end behind it and stand empty at its start. -/
theorem ScopeMap.lookups_exact_quoted :
    let scope := scan "a \"é\"".toList .script
    scope.spans = [⟨.code, 0, 2⟩, ⟨.string, 2, 6⟩] ∧
    scope.kindAt 4 = .string ∧ scope.kindAt 6 = .code ∧
    scope.isCode 0 2 = true ∧ scope.isCode 1 3 = false ∧ scope.isCode 6 9 = true ∧
    scope.isCode 2 2 = false ∧ Span.bisect scope.spans 2 0 scope.spans.length = 1 := by
  intro scope
  obtain ⟨hinside, hpast, hrange, hempty, hparted⟩ := lookups_exact "a \"é\"".toList .script
  have hspans : scope.spans = [⟨.code, 0, 2⟩, ⟨.string, 2, 6⟩] := by decide +kernel
  have hkind (s : Span) {o : Nat} (ho : o < Text.size "a \"é\"".toList)
      (hs : scope.spans.filter (·.holds o) = [s]) : scope.kindAt o = s.kind := by
    obtain ⟨t, ht, hkind⟩ := hinside o ho
    rw [hkind, List.singleton_inj.1 (ht.symm.trans hs)]
  have htwo : scope.kindAt 2 = .string :=
    hkind ⟨.string, 2, 6⟩ (by decide +kernel) (by rw [hspans]; rfl)
  refine ⟨hspans, hkind ⟨.string, 2, 6⟩ (by decide +kernel) (by rw [hspans]; rfl),
    hpast 6 (by decide +kernel), (hrange 0 2 (by decide)).2 fun i _ hi => ?code, ?touching,
    (hrange 6 9 (by decide)).2 fun i hi _ => hpast i (Nat.le_trans (by decide +kernel) hi),
    ?empty, ?bisect⟩
  case code =>
    refine hkind ⟨.code, 0, 2⟩ (Nat.lt_trans hi (by decide +kernel)) ?_
    rw [hspans]
    obtain rfl | rfl : i = 0 ∨ i = 1 := by omega
    · rfl
    · rfl
  case touching =>
    rw [← Bool.not_eq_true, hrange 1 3 (by decide)]
    intro hall
    have hcode := htwo.symm.trans (hall 2 (by decide) (by decide))
    cases hcode
  case empty =>
    rw [← Bool.not_eq_true, hempty 2 2 (by decide), htwo]
    decide
  case bisect =>
    refine (((hparted 2).1 1).1 ⟨?_, ?_, ?_⟩).symm <;> rw [hspans] <;> decide

end SourceMend
