import Mathlib.Data.List.Induction
import Mathlib.Data.List.Sort
import Mathlib.Data.String.Basic
import SourceMend.Disk.Listing
import SourceMend.Proofs.Disk.Commit

/-!
Disks as trees of files. The list of a disk's entries gives one entry to a key, so the files below a
directory are the same, and in the same order, on every disk that differs only in bytes.
-/
namespace SourceMend.Disk

variable {d d' : Disk} {key k : Key} {e : Entry} {names : Key}

/-- No key has two entries, and the top directory is not one of them. -/
structure Proper (d : Disk) : Prop where
  nodup : (d.entries.map Prod.fst).Nodup
  ne_nil : ∀ entry ∈ d.entries, entry.1 ≠ []

theorem lookup_eq_some_of_nodup {es : List (Key × Entry)} (h : (es.map Prod.fst).Nodup) :
    es.lookup k = some e ↔ (k, e) ∈ es := by
  induction es with
  | nil => simp
  | cons entry es ih =>
    obtain ⟨key, entry⟩ := entry
    obtain ⟨hkey, hes⟩ := List.nodup_cons.1 h
    by_cases hk : k = key
    · subst hk
      have hnone : (k, e) ∉ es := fun he => hkey (List.mem_map.2 ⟨_, he, rfl⟩)
      simp [hnone, eq_comm]
    · have hb : (k == key) = false := by simpa using hk
      rw [List.lookup_cons, hb, ih hes]
      simp [hk]

namespace Proper

/-! What the operations keep -/

theorem filter (h : d.Proper) (keep : Key × Entry → Bool) :
    Proper { d with entries := d.entries.filter keep } where
  nodup := h.nodup.sublist (List.filter_sublist.map _)
  ne_nil entry he := h.ne_nil entry (List.mem_filter.1 he).1

theorem erase (h : d.Proper) (key : Key) : (d.erase key).Proper := h.filter _

theorem put (h : d.Proper) (hkey : key ≠ []) (e : Entry) : (d.put key e).Proper where
  nodup := by
    refine List.nodup_cons.2 ⟨?_, (h.filter _).nodup⟩
    simp
  ne_nil entry he := by
    rcases List.mem_cons.1 he with rfl | he
    · exact hkey
    · exact (h.filter _).ne_nil entry he

theorem commit (h : d.Proper) (device : Device) (id : String) {path : String} {content new : Text}
    (hread : d.readText path = .ok content) :
    (d.commit device id (.of path content) new).2.Proper := by
  rcases commit_cases device id new hread with ⟨cause, heq⟩ | ⟨receipt, key, heq, -, -, -, hfile⟩
  · rwa [heq]
  · rw [heq]
    exact h.put (key_ne_nil_of_file hfile) _

/-! What there is below a directory -/

variable {wanted : Entry → Bool}

theorem mem_namesBelow (h : d.Proper) : names ∈ d.namesBelow wanted key ↔
    names ≠ [] ∧ ∃ e, wanted e = true ∧ d.get? (key ++ names) = some e := by
  unfold namesBelow
  rw [List.mem_mergeSort, List.mem_filterMap]
  constructor
  · rintro ⟨⟨k, e⟩, he, hnames⟩
    obtain ⟨⟨hwanted, hbelow, hne⟩, rfl⟩ :
        (wanted e = true ∧ key.isPrefixOf k = true ∧ k ≠ key) ∧ k.drop key.length = names := by
      simpa using hnames
    obtain ⟨rest, rfl⟩ := List.isPrefixOf_iff_prefix.1 hbelow
    have hrest : rest ≠ [] := by simpa using hne
    rw [List.drop_left]
    refine ⟨hrest, e, hwanted, ?_⟩
    rw [get?, if_neg (by simp [hrest]), lookup_eq_some_of_nodup h.nodup]
    exact he
  · rintro ⟨hne, e, hwanted, he⟩
    rw [get?, if_neg (by simp [hne]), lookup_eq_some_of_nodup h.nodup] at he
    exact ⟨_, he, by simp [hwanted, hne]⟩

theorem mem_filesBelow (h : d.Proper) : names ∈ d.filesBelow key ↔
    names ≠ [] ∧ ∃ bytes, d.get? (key ++ names) = some (.file bytes) := by
  rw [filesBelow, h.mem_namesBelow]
  refine and_congr_right fun _ => ⟨?_, fun ⟨bytes, he⟩ => ⟨_, rfl, he⟩⟩
  rintro ⟨e, hfile, he⟩
  cases e with
  | file bytes => exact ⟨bytes, he⟩
  | directory => contradiction

theorem nodup_namesBelow (h : d.Proper) (key : Key) : (d.namesBelow wanted key).Nodup := by
  have hsplit {k names : Key} {e : Entry} (hnames : (if wanted e = true ∧ key.isPrefixOf k = true ∧
      k ≠ key then some (k.drop key.length) else none) = some names) : k = key ++ names := by
    obtain ⟨⟨-, hbelow, -⟩, rfl⟩ :
        (wanted e = true ∧ key.isPrefixOf k = true ∧ k ≠ key) ∧ k.drop key.length = names := by
      simpa using hnames
    obtain ⟨rest, rfl⟩ := List.isPrefixOf_iff_prefix.1 hbelow
    rw [List.drop_left]
  unfold namesBelow
  rw [(List.mergeSort_perm _ _).nodup_iff]
  refine List.Pairwise.filterMap _ ?_ (List.pairwise_map.1 h.nodup)
  rintro ⟨k, e⟩ ⟨k', e'⟩ hne names hnames names' hnames' rfl
  exact hne ((hsplit hnames).trans (hsplit hnames').symm)

theorem pairwise_namesBelow (d : Disk) (key : Key) :
    (d.namesBelow wanted key).Pairwise (· ≤ ·) := by
  have hle (a b : Key) : (!b.lex a) = decide (a ≤ b) := by
    have hlt : b.lex a = true ↔ b < a := List.lex_eq_true_iff_lt
    rw [Bool.eq_iff_iff, decide_eq_true_iff, ← not_lt, ← hlt, Bool.not_eq_true', Bool.not_eq_true]
  unfold namesBelow
  simp only [hle]
  refine (List.pairwise_mergeSort ?_ ?_ _).imp of_decide_eq_true
  · intro a b c hab hbc
    exact decide_eq_true (le_trans (of_decide_eq_true hab) (of_decide_eq_true hbc))
  · exact fun a b => by simpa using le_total a b

/-- What there is below a directory does not depend on what is in the files. -/
theorem namesBelow_eq (h : d.Proper) (h' : d'.Proper) (htree : d.SameTree d')
    (hwanted : ∀ a b, wanted (.file a) = wanted (.file b)) (key : Key) :
    d'.namesBelow wanted key = d.namesBelow wanted key := by
  have hperm : (d'.namesBelow wanted key).Perm (d.namesBelow wanted key) := by
    refine (List.perm_ext_iff_of_nodup (h'.nodup_namesBelow key) (h.nodup_namesBelow key)).2 ?_
    intro names
    rw [h'.mem_namesBelow, h.mem_namesBelow]
    by_cases hsame : d'.get? (key ++ names) = d.get? (key ++ names)
    · rw [hsame]
    · obtain ⟨old, new, hold, hnew⟩ := htree.files _ hsame
      simp [hold, hnew, hwanted new old]
  exact hperm.eq_of_pairwise' (pairwise_namesBelow d' key) (pairwise_namesBelow d key)

end Proper

/-! Sightings -/

theorem mem_sightings_file {root : String} : .file names ∈ d.sightings root key ↔
    names ∈ d.filesBelow key ∧ d.isOpen root key names = true := by
  unfold sightings closedBelow straysBelow
  simp [List.mem_mergeSort]

/-- What one comes by below a directory does not depend on what is in the files. -/
theorem Proper.sightings_eq (h : d.Proper) (h' : d'.Proper) (htree : d.SameTree d')
    (root : String) (key : Key) : d'.sightings root key = d.sightings root key := by
  have hclosed : d'.closed = d.closed := congrArg Ground.closed htree.ground
  have hstrays : d'.strays = d.strays := congrArg Ground.strays htree.ground
  have hobstacle : d'.obstacle? root = d.obstacle? root := by
    unfold obstacle?
    rw [hclosed]
  have hopen : d'.isOpen root = d.isOpen root := by
    unfold isOpen
    rw [hobstacle]
  unfold sightings closedBelow straysBelow filesBelow
  rw [hstrays, hobstacle, hopen, h.namesBelow_eq h' htree (fun _ _ => rfl),
    h.namesBelow_eq h' htree (fun _ _ => rfl)]

/-! Trees -/

/-- A name that a directory can give to what is in it. -/
def IsName (name : String) : Prop :=
  '/' ∉ name.toList ∧ Path.step? name.toList = some (.name name.toList) ∧
    Text.size name.toList ≤ maxName

instance (name : String) : Decidable (IsName name) := inferInstanceAs (Decidable (_ ∧ _ ∧ _))

/-- Every entry has names, and lies in a directory. -/
structure WellFormed (d : Disk) : Prop extends Proper d where
  named : ∀ entry ∈ d.entries, ∀ name ∈ entry.1, IsName name
  parent : ∀ entry ∈ d.entries, d.get? entry.1.dropLast = some .directory

theorem mem_entries_of_get? (h : d.get? k = some e) (hk : k ≠ []) : (k, e) ∈ d.entries := by
  unfold get? at h
  rw [if_neg hk] at h
  obtain ⟨front, back, hentries, -⟩ := List.lookup_eq_some_iff.1 h
  rw [hentries]
  simp

namespace WellFormed

/-- Whatever lies above an entry is a directory. -/
theorem folder_above (h : d.WellFormed) (hk : (d.get? k).isSome) {above : Key}
    (hp : above <+: k) (hne : above ≠ k) : d.get? above = some .directory := by
  induction k using List.reverseRecOn with
  | nil => exact absurd (List.prefix_nil.1 hp) hne
  | append_singleton front name ih =>
    obtain ⟨e, he⟩ := Option.isSome_iff_exists.1 hk
    have hparent := h.parent _ (mem_entries_of_get? he (by simp))
    rw [List.dropLast_concat] at hparent
    rcases List.prefix_concat_iff.1 hp with heq | hp
    · exact absurd heq hne
    · by_cases heq : above = front
      · rw [heq, hparent]
      · exact ih (by rw [hparent]; rfl) hp heq

/-- The names of an entry lead to it. -/
theorem follow_names (h : d.WellFormed) (he : (d.get? (key ++ names)).isSome) :
    d.follow key (names.map String.toList) = .ok (key ++ names) := by
  induction names generalizing key with
  | nil => simp [follow]
  | cons name names ih =>
    obtain ⟨e, hentry⟩ := Option.isSome_iff_exists.1 he
    obtain ⟨-, hstep, hsize⟩ :=
      h.named _ (mem_entries_of_get? hentry (by simp)) name (by simp)
    have hkey : d.get? key = some .directory := h.folder_above he (List.prefix_append _ _) (by simp)
    have hturn : turn? key name.toList = some (key ++ [name]) := by
      unfold turn? enter
      rw [hstep]
      simp [Nat.not_lt.2 hsize, Except.toOption]
    rw [List.append_cons] at he ⊢
    exact follow_cons_eq_ok.2 ⟨hkey, _, hturn, ih he⟩

end WellFormed

end SourceMend.Disk
