import Mathlib.Data.List.Basic
import SourceMend.Finding

/-!
Places and names of findings. Reading on moves a place on, as long as lines and columns fit a word.
The name of a finding gives back its place, but of its rule and its path only what they are
together: an id may go on with a slash into what looks like a folder.
-/
namespace SourceMend

namespace Location

/-- Lines and columns of a text that is short enough are counted without loss. -/
theorem toNat_after {before : Text} (h : before.length + 1 < UInt64.size) :
    (after before).line.toNat = before.count '\n' + 1 ∧
      (after before).col.toNat = (before.reverse.takeWhile (· ≠ '\n')).length + 1 := by
  have hcount : before.count '\n' ≤ before.length := List.count_le_length
  have hline : (before.reverse.takeWhile (· ≠ '\n')).length ≤ before.length :=
    Nat.le_trans (List.takeWhile_sublist _).length_le (Nat.le_of_eq List.length_reverse)
  constructor
  · exact UInt64.toNat_ofNat_of_lt' (by omega)
  · exact UInt64.toNat_ofNat_of_lt' (by omega)

/-- Behind more text there is a later place. -/
theorem precedes_after {before more : Text} (hmore : more ≠ [])
    (h : (before ++ more).length + 1 < UInt64.size) :
    (after before).precedes (after (before ++ more)) = true := by
  have hlength := List.length_pos_iff.2 hmore
  have hbefore : before.length + 1 < UInt64.size := by
    rw [List.length_append] at h
    omega
  obtain ⟨hline, hcol⟩ := toNat_after hbefore
  obtain ⟨hline', hcol'⟩ := toNat_after h
  simp only [precedes, Bool.or_eq_true, Bool.and_eq_true, decide_eq_true_eq,
    UInt64.lt_iff_toNat_lt, ← UInt64.toNat_inj, hline, hcol, hline', hcol', List.count_append]
  by_cases hbreak : '\n' ∈ more
  · have := List.count_pos_iff.2 hbreak
    exact .inl (by omega)
  · have hplain : ∀ c ∈ more.reverse, decide (c ≠ '\n') = true := by
      intro c hc
      simpa using fun he : c = '\n' => hbreak (he ▸ List.mem_reverse.1 hc)
    rw [List.count_eq_zero_of_not_mem hbreak, List.reverse_append,
      List.takeWhile_append_of_pos hplain, List.length_append, List.length_reverse]
    exact .inr ⟨rfl, by omega⟩

theorem not_precedes_self (a : Location) : a.precedes a = false := by
  simp [precedes, UInt64.lt_irrefl]

end Location

/-- Two texts with a separator that does not come again have the same parts. -/
theorem Text.append_sep_inj {sep : Char} {a b x y : Text} (hx : sep ∉ x) (hy : sep ∉ y) :
    a ++ sep :: x = b ++ sep :: y ↔ a = b ∧ x = y := by
  constructor
  · intro h
    rcases List.append_eq_append_iff.1 h with ⟨c, rfl, hc⟩ | ⟨c, rfl, hc⟩
    · cases c with
      | nil => simpa using hc
      | cons d c =>
        obtain ⟨-, rfl⟩ := List.cons.inj hc
        exact absurd (List.mem_append_right c List.mem_cons_self) hx
    · cases c with
      | nil => simpa [eq_comm] using hc
      | cons d c =>
        obtain ⟨-, rfl⟩ := List.cons.inj hc
        exact absurd (List.mem_append_right c List.mem_cons_self) hy
  · rintro ⟨rfl, rfl⟩
    rfl

theorem toDigits_inj {m n : Nat} : Nat.toDigits 10 m = Nat.toDigits 10 n ↔ m = n := by
  refine ⟨fun h => ?_, congrArg _⟩
  have hvalue := congrArg (Nat.ofDigitChars 10 · 0) h
  simpa [Nat.ofDigitChars_toDigits] using hvalue

theorem colon_not_mem_toDigits (n : Nat) : ':' ∉ Nat.toDigits 10 n := fun h =>
  absurd (Nat.isDigit_of_mem_toDigits (by decide) (by decide) h) (by decide)

namespace Finding

theorem toList_fingerprint (f : Finding) : f.fingerprint.toList =
    ((f.ruleId.toList ++ '/' :: f.path.toList) ++ ':' :: Nat.toDigits 10 f.location.line.toNat) ++
      ':' :: Nat.toDigits 10 f.location.col.toNat := by
  have hself (s : String) : toString s = s := rfl
  simp [fingerprint, hself]

/-- The id of `g` goes on with a folder, which the path of `f` has in front. -/
def Shifted (f g : Finding) : Prop :=
  ∃ folder, g.ruleId = f.ruleId ++ "/" ++ folder ∧ f.path = folder ++ "/" ++ g.path

/-- The paths of shifted findings differ. -/
theorem not_shifted_of_path_eq {f g : Finding} (h : f.path = g.path) :
    ¬ (f.Shifted g ∨ g.Shifted f) := by
  rintro (⟨folder, -, hpath⟩ | ⟨folder, -, hpath⟩) <;>
  · have hlength := congrArg String.length hpath
    simp [h] at hlength

/-- If the id of `g` goes on behind that of `f` by what the path of `g` lacks, then by nothing or by
a folder. -/
theorem shifted_of_append {f g : Finding} {c : Text}
    (hid : g.ruleId.toList = f.ruleId.toList ++ c)
    (hpath : '/' :: f.path.toList = c ++ '/' :: g.path.toList) :
    f.ruleId = g.ruleId ∧ f.path = g.path ∨ f.Shifted g := by
  cases c with
  | nil =>
    rw [List.append_nil, String.toList_inj] at hid
    exact .inl ⟨hid.symm, String.toList_inj.1 (List.cons.inj hpath).2⟩
  | cons d folder =>
    obtain ⟨rfl, htail⟩ := List.cons.inj hpath
    refine .inr ⟨String.ofList folder, ?_, ?_⟩
    · rw [← String.toList_inj, hid]
      simp
    · rw [← String.toList_inj, htail]
      simp

/-- Findings have one name if they are at one place, with the same id and path or with a folder
that stands in the id of one and in the path of the other. -/
theorem fingerprint_eq_iff (f g : Finding) : f.fingerprint = g.fingerprint ↔
    f.location = g.location ∧
      (f.ruleId = g.ruleId ∧ f.path = g.path ∨ f.Shifted g ∨ g.Shifted f) := by
  have hsame : f.location = g.location ↔
      f.location.line.toNat = g.location.line.toNat ∧
        f.location.col.toNat = g.location.col.toNat := by
    rw [Location.mk.injEq, UInt64.toNat_inj, UInt64.toNat_inj]
  rw [← String.toList_inj, toList_fingerprint, toList_fingerprint,
    Text.append_sep_inj (colon_not_mem_toDigits _) (colon_not_mem_toDigits _),
    Text.append_sep_inj (colon_not_mem_toDigits _) (colon_not_mem_toDigits _),
    toDigits_inj, toDigits_inj, and_assoc, ← hsame, and_comm]
  refine and_congr_right fun _ => ⟨fun h => ?_, ?_⟩
  · rcases List.append_eq_append_iff.1 h with ⟨c, hid, hpath⟩ | ⟨c, hid, hpath⟩
    · exact (shifted_of_append hid hpath).imp_right .inl
    · exact (shifted_of_append hid hpath).imp (And.imp .symm .symm) .inr
  · rintro (⟨hid, hpath⟩ | ⟨folder, hid, hpath⟩ | ⟨folder, hid, hpath⟩)
    · rw [hid, hpath]
    · simp [hid, hpath]
    · simp [hid, hpath]

/-- Different findings at one place have one name exactly if a folder is in the id of one of them
and in the path of the other. -/
theorem fingerprint_eq_iff_shifted {f g : Finding}
    (h : f.location = g.location → ¬ (f.ruleId = g.ruleId ∧ f.path = g.path)) :
    f.fingerprint = g.fingerprint ↔ f.location = g.location ∧ (f.Shifted g ∨ g.Shifted f) := by
  rw [fingerprint_eq_iff]
  refine and_congr_right fun hplace => ?_
  exact or_iff_right (h hplace)

end Finding
end SourceMend
