/-!
Tallies: counts by name, kept in the order of the names. Two tallies with the same counts are
equal, because a name comes at most once and the names rise.
-/
namespace SourceMend

structure Tally where
  entries : List (String × UInt64)
  sorted : entries.Pairwise fun a b => a.1 < b.1
  deriving DecidableEq

namespace Tally

def empty : Tally := ⟨[], .nil⟩

instance : Inhabited Tally := ⟨empty⟩

/-- Changes the count of `key`, which is `none` when there was none so far. -/
def alterEntries (key : String) (f : Option UInt64 → UInt64) :
    List (String × UInt64) → List (String × UInt64)
  | [] => [(key, f none)]
  | (k, n) :: rest =>
    if key < k then (key, f none) :: (k, n) :: rest
    else if key = k then (k, f (some n)) :: rest
    else (k, n) :: alterEntries key f rest

theorem mem_alterEntries {key : String} {f : Option UInt64 → UInt64}
    {es : List (String × UInt64)} {e : String × UInt64} (h : e ∈ alterEntries key f es) :
    e.1 = key ∨ ∃ e' ∈ es, e'.1 = e.1 := by
  induction es with
  | nil => simp [alterEntries] at h; simp [h]
  | cons p rest ih =>
    obtain ⟨k, n⟩ := p
    simp only [alterEntries] at h
    split at h
    · rcases List.mem_cons.1 h with rfl | h
      · exact .inl rfl
      · exact .inr ⟨e, h, rfl⟩
    · split at h
      · rcases List.mem_cons.1 h with rfl | h
        · exact .inr ⟨(k, n), by simp, rfl⟩
        · exact .inr ⟨e, by simp [h], rfl⟩
      · rcases List.mem_cons.1 h with rfl | h
        · exact .inr ⟨(k, n), by simp, rfl⟩
        · rcases ih h with h | ⟨e', he', hk⟩
          · exact .inl h
          · exact .inr ⟨e', by simp [he'], hk⟩

theorem alterEntries_sorted (key : String) (f : Option UInt64 → UInt64)
    {es : List (String × UInt64)} (h : es.Pairwise fun a b => a.1 < b.1) :
    (alterEntries key f es).Pairwise fun a b => a.1 < b.1 := by
  induction es with
  | nil => simp [alterEntries]
  | cons p rest ih =>
    obtain ⟨k, n⟩ := p
    obtain ⟨hk, hr⟩ := List.pairwise_cons.1 h
    simp only [alterEntries]
    split
    · next hlt =>
      refine List.pairwise_cons.2 ⟨fun e he => ?_, h⟩
      rcases List.mem_cons.1 he with rfl | he
      · exact hlt
      · exact String.lt_trans hlt (hk e he)
    · next hlt =>
      split
      · exact List.pairwise_cons.2 ⟨hk, hr⟩
      · next hne =>
        refine List.pairwise_cons.2 ⟨fun e he => ?_, ih hr⟩
        rcases mem_alterEntries he with h' | ⟨e', he', h'⟩
        · exact h' ▸ Std.lt_of_le_of_ne (String.not_lt.1 hlt) (Ne.symm hne)
        · exact h' ▸ hk e' he'

/-- Adds `n` to the count of `key`. -/
def add (t : Tally) (key : String) (n : UInt64) : Tally :=
  ⟨alterEntries key (fun old => old.getD 0 + n) t.entries, alterEntries_sorted _ _ t.sorted⟩

/-- Sets the count of `key`. -/
def set (t : Tally) (key : String) (n : UInt64) : Tally :=
  ⟨alterEntries key (fun _ => n) t.entries, alterEntries_sorted _ _ t.sorted⟩

def merge (t u : Tally) : Tally := u.entries.foldl (fun t (key, n) => t.add key n) t

def ofList (es : List (String × UInt64)) : Tally := es.foldl (fun t (key, n) => t.set key n) empty

def get? (t : Tally) (key : String) : Option UInt64 := t.entries.lookup key

def isEmpty (t : Tally) : Bool := t.entries.isEmpty

end Tally
end SourceMend
