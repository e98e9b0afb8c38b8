import SourceMend.Proofs.Bytes.Scanner

/-!
Steps go on. A step of the scanner over bytes marks some bytes and goes on to some byte, and nothing
in it ties the one to the other. All branches agree on them: a step marks the bytes from where it
starts up to where it goes on, one at least, and none behind the end of the text.
-/
namespace SourceMend.Bytes

open Scope (Control)

/-! Loops -/

/-- A loop from byte `i` on does not end before that byte, nor behind the last one. -/
def Onward (src : List UInt8) (i : Nat) (x : Option Nat) : Prop :=
  ∀ stop ∈ x, min i src.length ≤ stop ∧ stop ≤ src.length

section Loops

variable (src : List UInt8) {i : Nat}

theorem runEnd_onward (p : Char → Bool) (hi : i ≤ src.length) :
    Onward src i (runEnd src p i) := by
  have hle := (List.takeWhile_prefix (l := src.drop i) fun b => p (seen b)).length_le
  rw [List.length_drop] at hle
  rw [runEnd_eq_takeWhile p hi]
  rintro stop ⟨⟩
  omega

theorem findClose_le {l : List UInt8} {n : Nat} (h : findClose l = some n) : n + 2 ≤ l.length := by
  fun_induction findClose l generalizing n with
  | case1 a b rest hclose =>
    obtain rfl := Option.some.inj h
    simp
  | case2 a b rest hclose ih =>
    obtain ⟨m, hm, rfl⟩ := Option.map_eq_some_iff.1 h
    exact Nat.succ_le_succ (ih hm)
  | case3 => contradiction

theorem commentEnd_onward : Onward src i (commentEnd src i) := by
  unfold commentEnd
  split
  · split
    · next n hclose =>
      have hle := findClose_le hclose
      rw [List.length_drop] at hle
      rintro stop ⟨⟩
      omega
    · rintro stop ⟨⟩
      omega
  · nofun

theorem stringEnd_onward (q : Char) (i : Nat) : Onward src i (stringEnd src q i) := by
  by_cases hi : i < src.length
  · have hnext {j : Nat} (hj : i < j) (h : Onward src j (stringEnd src q j)) :
        Onward src i (stringEnd src q j) := fun stop hstop => by
      have := h stop hstop
      omega
    rw [stringEnd_byte q (List.getElem?_eq_getElem hi)]
    split
    · exact hnext (by omega) (stringEnd_onward q (i + 2))
    split
    · rintro stop ⟨⟩
      omega
    split
    · rintro stop ⟨⟩
      omega
    · exact hnext (by omega) (stringEnd_onward q (i + 1))
  · rw [stringEnd_of_le (Nat.not_lt.1 hi)]
    rintro stop ⟨⟩
    omega
termination_by src.length - i

theorem regexEnd_onward (inClass : Bool) (i : Nat) : Onward src i (regexEnd src inClass i) := by
  by_cases hi : i < src.length
  · have hnext {j : Nat} {x : Option Nat} (hj : i < j) (h : Onward src j x) : Onward src i x :=
      fun stop hstop => by
        have := h stop hstop
        omega
    rw [regexEnd_byte inClass (List.getElem?_eq_getElem hi)]
    split
    · exact hnext (by omega) (regexEnd_onward inClass (i + 2))
    split
    · rintro stop ⟨⟩
      omega
    split
    · exact hnext (by omega) (regexEnd_onward true (i + 1))
    split
    · exact hnext (by omega) (regexEnd_onward false (i + 1))
    split
    · exact hnext (by omega) (runEnd_onward src Char.isAlpha hi)
    · exact hnext (by omega) (regexEnd_onward inClass (i + 1))
  · rw [regexEnd_of_le (Nat.not_lt.1 hi)]
    rintro stop ⟨⟩
    omega
termination_by src.length - i

/-- A comment goes on behind the slash that it starts with. -/
theorem lineEnd_bounds {b : UInt8} (hget : src[i]? = some b) (hb : seen b ≠ '\n') {stop : Nat}
    (h : lineEnd src i = some stop) : i < stop ∧ stop ≤ src.length := by
  obtain ⟨hi, rfl⟩ := List.getElem?_eq_some_iff.1 hget
  have hle : (src.drop i).findIdx (seen · = '\n') ≤ (src.drop i).length :=
    List.findIdx_le_length
  rw [List.length_drop] at hle
  rw [lineEnd, if_pos (Nat.le_of_lt hi)] at h
  obtain rfl := Option.some.inj h
  have hpos : 0 < (src.drop i).findIdx (seen · = '\n') := by
    rw [List.drop_eq_getElem_cons hi, List.findIdx_cons]
    simp [hb]
  omega

end Loops

/-! Steps -/

/-- A step from byte `start` marks the bytes from there up to where it goes on, one at least, and
none behind the end of the text. -/
structure Step.Tight (src : List UInt8) (start : Nat) (st : Step) : Prop where
  marks : st.marked.start = start ∧ st.marked.stop = st.next
  moves : start < st.next
  inside : st.next ≤ src.length

section Steps

variable {src : List UInt8} {text : Text} {start : Nat}

theorem Onward.behind {x : Option Nat} (h : Onward src (start + 1) x) (hlt : start < src.length) :
    ∀ stop ∈ x, start < stop ∧ stop ≤ src.length := by
  intro stop hstop
  have := h stop hstop
  omega

theorem ite_tight {p : Prop} [Decidable p] {x y : Option Step}
    (hx : p → ∀ st ∈ x, st.Tight src start) (hy : ∀ st ∈ y, st.Tight src start) :
    ∀ st ∈ if p then x else y, st.Tight src start := by
  split
  · next h => exact hx h
  · exact hy

theorem bind_tight {f : UInt8 → Option Step}
    (h : ∀ b, src[start]? = some b → ∀ st ∈ f b, st.Tight src start) :
    ∀ st ∈ src[start]?.bind f, st.Tight src start := by
  intro st hst
  obtain ⟨b, hb, hst⟩ := Option.bind_eq_some_iff.1 hst
  exact h b hb st hst

/-- A token of as many bytes as a branch says. -/
theorem tight_upto {stop : Nat} (hlt : start < stop) (hle : stop ≤ src.length) (kind : SpanKind)
    (k : Control) : ∀ st ∈ some (⟨⟨kind, start, stop⟩, stop, k⟩ : Step), st.Tight src start := by
  rintro st ⟨⟩
  exact ⟨⟨rfl, rfl⟩, hlt, hle⟩

/-- A token of two bytes, the second of which has been looked at. -/
theorem tight_two {c : Char} (h : src[start + 1]?.map seen = some c) (kind : SpanKind)
    (k : Control) :
    ∀ st ∈ some (⟨⟨kind, start, start + 2⟩, start + 2, k⟩ : Step), st.Tight src start := by
  obtain ⟨b, hb, -⟩ := Option.map_eq_some_iff.1 h
  exact tight_upto (by omega) (List.getElem?_eq_some_iff.1 hb).1 kind k

/-- A token that a loop reads. -/
theorem tight_loop {x : Option Nat} (hx : ∀ stop ∈ x, start < stop ∧ stop ≤ src.length)
    (kind : SpanKind) (k : Control) :
    ∀ st ∈ x.map fun stop => (⟨⟨kind, start, stop⟩, stop, k⟩ : Step), st.Tight src start := by
  intro st hst
  obtain ⟨stop, hstop, rfl⟩ := Option.map_eq_some_iff.1 hst
  obtain ⟨hmoves, hinside⟩ := hx stop hstop
  exact ⟨⟨rfl, rfl⟩, hmoves, hinside⟩

theorem stepCode_tight (d : Dialect) (k : Control) :
    ∀ st ∈ stepCode text d k start, st.Tight (Text.utf8 text) start := by
  refine bind_tight fun b hb => ?_
  have hlt := (List.getElem?_eq_some_iff.1 hb).1
  have one {kind : SpanKind} {k : Control} {p : Prop} : p → ∀ st ∈ some (⟨⟨kind, start, start + 1⟩,
      start + 1, k⟩ : Step), st.Tight (Text.utf8 text) start :=
    fun _ => tight_upto (Nat.lt_succ_self start) hlt kind k
  refine
    ite_tight (fun hc => ?lineComment) <| ite_tight (fun hc => ?blockComment) <|
    ite_tight (fun _ => ?regex) <| ite_tight (fun _ => ?string) <|
    ite_tight one <| ite_tight one <| ite_tight one <| ite_tight one <| ite_tight one <|
    ite_tight one <| ite_tight one <| ite_tight one <| ite_tight one <| ite_tight one <|
    ite_tight one <| ite_tight (fun _ => ?word) <| ite_tight (fun _ => ?number) <| one trivial
  case lineComment =>
    exact tight_loop (fun stop hstop => lineEnd_bounds _ hb (by rw [hc.1]; decide) hstop) _ _
  case blockComment =>
    refine tight_loop (fun stop hstop => ?_) _ _
    obtain ⟨b', hb', -⟩ := Option.map_eq_some_iff.1 hc.2
    have hnext := (List.getElem?_eq_some_iff.1 hb').1
    have := commentEnd_onward _ stop hstop
    omega
  case regex => exact tight_loop ((regexEnd_onward _ false _).behind hlt) _ _
  case string => exact tight_loop ((stringEnd_onward _ _ _).behind hlt) _ _
  case word =>
    intro st hst
    obtain ⟨stop, hstop, hst⟩ := Option.bind_eq_some_iff.1 hst
    obtain ⟨word, -, hst⟩ := Option.bind_eq_some_iff.1 hst
    obtain ⟨hmoves, hinside⟩ := (runEnd_onward _ _ hlt).behind hlt stop hstop
    exact tight_upto hmoves hinside _ _ st hst
  case number => exact tight_loop ((runEnd_onward _ _ hlt).behind hlt) _ _

theorem stepTemplate_tight (k : Control) :
    ∀ st ∈ stepTemplate text k start, st.Tight (Text.utf8 text) start := by
  refine bind_tight fun b hb => ?_
  have hlt := (List.getElem?_eq_some_iff.1 hb).1
  refine
    ite_tight (fun _ => tight_upto (by omega) (Nat.min_le_right _ _) _ _) <|
    ite_tight (fun _ => tight_upto (Nat.lt_succ_self start) hlt _ _) <|
    ite_tight (fun hc => tight_two hc.2 _ _) <|
    tight_upto (Nat.lt_succ_self start) hlt _ _

theorem stepTag_tight (k : Control) (depth : UInt32) (closing : Bool) :
    ∀ st ∈ stepTag text k depth closing start, st.Tight (Text.utf8 text) start := by
  refine bind_tight fun b hb => ?_
  have hlt := (List.getElem?_eq_some_iff.1 hb).1
  refine
    ite_tight (fun _ => tight_loop ((stringEnd_onward _ _ _).behind hlt) _ _) <|
    ite_tight (fun _ => tight_upto (Nat.lt_succ_self start) hlt _ _) <|
    ite_tight (fun hc => tight_two hc.2 _ _) <|
    ite_tight (fun _ => tight_upto (Nat.lt_succ_self start) hlt _ _) <|
    tight_upto (Nat.lt_succ_self start) hlt _ _

theorem stepChildren_tight (k : Control) (depth : UInt32) :
    ∀ st ∈ stepChildren text k depth start, st.Tight (Text.utf8 text) start := by
  refine bind_tight fun b hb => ?_
  have hlt := (List.getElem?_eq_some_iff.1 hb).1
  refine
    ite_tight (fun hc => tight_two hc.2 _ _) <|
    ite_tight (fun _ => tight_upto (Nat.lt_succ_self start) hlt _ _) <|
    ite_tight (fun _ => tight_upto (Nat.lt_succ_self start) hlt _ _) <|
    tight_upto (Nat.lt_succ_self start) hlt _ _

/-- A step marks what it moves over. -/
theorem step_tight {d : Dialect} {k : Control} {st : Step} (h : step text d k start = some st) :
    st.Tight (Text.utf8 text) start := by
  unfold step at h
  split at h
  · split at h
    · split at h
      · exact stepCode_tight d k st h
      · contradiction
    · exact stepTemplate_tight k st h
    · exact stepTag_tight k _ _ st h
    · exact stepChildren_tight k _ st h
  · contradiction

end Steps

end SourceMend.Bytes
