import SourceMend.Path

/-!
The pieces of paths. Joining paths by a slash puts their pieces side by side, and the parent of a
path has no pieces of its own.
-/
namespace SourceMend.Path

theorem pieces_append_slash (a b : Text) : pieces (a ++ '/' :: b) = pieces a ++ pieces b := by
  induction a with
  | nil => rfl
  | cons c a ih =>
    by_cases h : c = '/'
    · simp [pieces, h, ih]
    · obtain ⟨p, ps, hp⟩ := List.exists_cons_of_ne_nil (pieces_ne_nil a)
      simp [pieces, h, ih, hp]

theorem pieces_of_not_mem {t : Text} (h : '/' ∉ t) : pieces t = [t] := by
  induction t with
  | nil => rfl
  | cons c t ih =>
    obtain ⟨hc, ht⟩ : '/' ≠ c ∧ '/' ∉ t := by simpa using h
    simp [pieces, Ne.symm hc, ih ht]

theorem not_mem_of_mem_pieces {t p : Text} (h : p ∈ pieces t) : '/' ∉ p := by
  induction t generalizing p with
  | nil =>
    obtain rfl : p = [] := by simpa [pieces] using h
    simp
  | cons c t ih =>
    obtain ⟨q, qs, hq⟩ := List.exists_cons_of_ne_nil (pieces_ne_nil t)
    rw [hq] at ih
    by_cases hc : c = '/'
    · simp only [pieces, hc, if_true, hq] at h
      rcases List.mem_cons.1 h with rfl | h
      · simp
      · exact ih h
    · simp only [pieces, hc, if_false, hq] at h
      rcases List.mem_cons.1 h with rfl | h
      · have := ih List.mem_cons_self
        simp [Ne.symm hc, this]
      · exact ih (List.mem_cons_of_mem q h)

theorem pieces_ofPieces {ps : List Text} (hne : ps ≠ []) (h : ∀ p ∈ ps, '/' ∉ p) :
    pieces (ofPieces ps) = ps := by
  induction ps with
  | nil => contradiction
  | cons p ps ih =>
    obtain ⟨hp, hps⟩ := List.forall_mem_cons.1 h
    cases ps with
    | nil => exact pieces_of_not_mem hp
    | cons q qs =>
      rw [ofPieces, pieces_append_slash, ih (List.cons_ne_nil q qs) hps, pieces_of_not_mem hp]
      · rfl
      · simp

theorem trimEnd_subset (ps : List Text) : trimEnd ps ⊆ ps := by
  fun_induction trimEnd ps with
  | case1 => simp
  | case2 p => simp
  | case3 p ps hne q hq hblank ih => simp
  | case4 p ps hne q hq hblank ih =>
    rw [hq] at ih
    simpa using List.mem_cons_of_mem p (ih List.mem_cons_self)
  | case5 p ps hne hq ih => exact List.cons_subset_cons p ih

/-- The last step of a path that ends in a name. -/
theorem getLast?_steps {t name : Text} {front : List Text} (h : pieces t = front ++ [name])
    (hname : step? name = some (.name name)) : (steps t).getLast? = some (.name name) := by
  have hne : name ≠ [] ∧ name ≠ ['.'] := by
    constructor <;> rintro rfl <;> simp [step?] at hname
  unfold steps
  rw [h]
  cases front with
  | nil => simp [hne, hname]
  | cons first front => simp [List.filterMap_append, hname]

theorem step?_cases (p : Text) :
    step? p = none ∨ step? p = some .up ∨ step? p = some (.name p) := by
  unfold step?
  by_cases hblank : p = [] ∨ p = ['.']
  · simp [hblank]
  · by_cases hup : p = ['.', '.'] <;> simp [hblank, hup]

theorem trimEnd_concat {name : Text} (front : List Text)
    (hname : step? name = some (.name name)) : trimEnd (front ++ [name]) = front ++ [name] := by
  have hne : name ≠ [] ∧ name ≠ ['.'] := by
    constructor <;> rintro rfl <;> simp [step?] at hname
  induction front with
  | nil => rfl
  | cons first front ih =>
    cases front with
    | nil => simp [trimEnd, hne]
    | cons next front =>
      simp only [List.cons_append] at ih ⊢
      rw [trimEnd, ih]
      · cases front <;> rfl
      · simp

theorem head?_trimEnd (ps : List Text) : (trimEnd ps).head? = ps.head? := by
  fun_cases trimEnd ps <;> simp_all

/-- A path is absolute if its first piece is empty and not the only one. -/
theorem isAbsolute_eq {t first : Text} {rest : List Text} (h : pieces t = first :: rest) :
    isAbsolute t = decide (first = [] ∧ rest ≠ []) := by
  cases t with
  | nil =>
    obtain ⟨rfl, rfl⟩ := List.cons.inj h
    rfl
  | cons c t =>
    obtain ⟨p, ps, hp⟩ := List.exists_cons_of_ne_nil (pieces_ne_nil t)
    by_cases hc : c = '/'
    · obtain ⟨rfl, rfl⟩ : [] = first ∧ pieces t = rest := by simpa [pieces, hc] using h
      simp [isAbsolute, hc, hp]
    · obtain ⟨rfl, -⟩ : c :: p = first ∧ ps = rest := by simpa [pieces, hc, hp] using h
      simp [isAbsolute, hc]

theorem isAbsolute_join {base t : Text} (hbase : base ≠ []) (ht : isAbsolute t = false) :
    isAbsolute (join base t) = isAbsolute base := by
  obtain ⟨c, cs, rfl⟩ := List.exists_cons_of_ne_nil hbase
  unfold join
  rw [if_neg (by simp [ht])]
  split <;> rfl

theorem ofPieces_eq_nil {ps : List Text} : ofPieces ps = [] ↔ ps = [] ∨ ps = [[]] := by
  rcases ps with _ | ⟨p, _ | ⟨q, qs⟩⟩ <;> simp [ofPieces]

/-- The directory of a path that ends in a name. -/
theorem folder?_eq {t name : Text} {front : List Text} (h : pieces t = front ++ [name])
    (hname : step? name = some (.name name)) :
    folder? t =
      if front = [] then none
      else some (if trimEnd front = [[]] then ['/'] else ofPieces (trimEnd front)) := by
  unfold folder? parent?
  rw [getLast?_steps h hname, h]
  dsimp only
  rw [trimEnd_concat front hname, List.dropLast_concat]
  by_cases hfront : front = []
  · subst hfront
    rfl
  · have htrim : trimEnd front ≠ [] := by
      intro hnil
      have hhead := head?_trimEnd front
      rw [hnil] at hhead
      exact hfront (List.head?_eq_none_iff.1 hhead.symm)
    rw [if_neg hfront]
    by_cases hroot : trimEnd front = [[]]
    · simp [hroot]
    · have hne : ofPieces (trimEnd front) ≠ [] := mt ofPieces_eq_nil.1 (not_or.2 ⟨htrim, hroot⟩)
      simp [hroot, hne]

/-- The directory has the pieces in front of the name, apart from some that count for nothing. -/
theorem exists_folder? {t name : Text} {front : List Text} (h : pieces t = front ++ [name])
    (hname : step? name = some (.name name)) (hfront : front ≠ []) :
    ∃ base, folder? t = some base ∧ base ≠ [] ∧ isAbsolute base = isAbsolute t ∧
      (pieces base = trimEnd front ∨ trimEnd front = [[]] ∧ pieces base = [[], []]) := by
  obtain ⟨first, rest, rfl⟩ := List.exists_cons_of_ne_nil hfront
  obtain ⟨more, hmore⟩ : ∃ more, trimEnd (first :: rest) = first :: more := by
    refine List.head?_eq_some_iff.1 ?_
    rw [head?_trimEnd]
    rfl
  have habsolute : isAbsolute t = decide (first = []) := by simp [isAbsolute_eq h]
  rw [folder?_eq h hname, if_neg hfront, habsolute]
  by_cases hroot : trimEnd (first :: rest) = [[]]
  · obtain ⟨rfl, -⟩ : first = [] ∧ more = [] := by simpa [hmore] using hroot
    exact ⟨['/'], by rw [if_pos hroot], by simp, rfl, .inr ⟨hroot, rfl⟩⟩
  · have hpieces : pieces (ofPieces (first :: more)) = first :: more := by
      refine pieces_ofPieces (by simp) fun p hp => not_mem_of_mem_pieces (t := t) ?_
      rw [h]
      exact List.mem_append_left _ (trimEnd_subset _ (hmore ▸ hp))
    rw [hmore] at hroot ⊢
    refine ⟨ofPieces (first :: more), by rw [if_neg hroot], ?_, ?_, .inl hpieces⟩
    · simpa [ofPieces_eq_nil] using hroot
    · rw [isAbsolute_eq hpieces]
      simp_all

end SourceMend.Path
