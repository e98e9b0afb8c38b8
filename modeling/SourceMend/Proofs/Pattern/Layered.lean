import SourceMend.Proofs.Pattern.Path

/-!
Programs in layers. When a rank falls along every way between instructions at one place, no
instruction is met again while it is being passed. What is known then holds nothing but preferred
ways, and the matches of a survey can be had without any memory, by following the instructions.
-/
namespace SourceMend.Pattern

/-- The addresses that an instruction goes on to at the same place. -/
def Instr.onward : Instr → List Nat
  | .accept | .char _ _ _ => []
  | .look _ next | .opening _ next | .closing _ next => [next]
  | .fork first second => [first, second]

/-- The preferred way on from one instruction, where `go` and `later` give the preferred ways on
at the same place and at the place behind. -/
def Instr.prefer (i : Instr) (k : Cursor) (later go : Nat → Option Trail) : Option Trail :=
  match i with
  | .accept => some { stop := k }
  | .char set next _ => if k.next.any set.contains then later next else none
  | .look l next => if l.holds k then go next else none
  | .fork first second => (go first).or (go second)
  | .opening i next => (go next).map (·.opened i k)
  | .closing i next => (go next).map (·.closed i k)

theorem Instr.prefer_congr {i : Instr} {k : Cursor} {later go go' : Nat → Option Trail}
    (h : ∀ a ∈ i.onward, go a = go' a) : i.prefer k later go = i.prefer k later go' := by
  cases i <;> simp_all [Instr.prefer, Instr.onward]

/-- The preferred way on from an address at the place `k`, without memory. -/
def prefer (code : Code) (k : Cursor) (later : Nat → Option Trail) : Nat → Nat → Option Trail
  | 0, _ => none
  | fuel + 1, address => (code.getD address .accept).prefer k later (prefer code k later fuel)

/-- The rank falls along every way between instructions at one place. -/
def Code.Layered (code : Code) (rank : Nat → Nat) : Prop :=
  ∀ a < code.size, ∀ b ∈ (code.getD a .accept).onward, b < code.size ∧ rank b < rank a

section

variable {code : Code} {rank : Nat → Nat} (hr : code.Layered rank) (k : Cursor)
  (later : Nat → Option Trail)

include hr

/-- Fuel beyond the rank changes nothing. -/
theorem prefer_fuel {a f g : Nat} (ha : a < code.size) (hf : rank a < f) (hg : rank a < g) :
    prefer code k later f a = prefer code k later g a := by
  induction f generalizing a g with
  | zero => omega
  | succ f ih =>
    cases g with
    | zero => omega
    | succ g =>
      refine Instr.prefer_congr fun b hb => ?_
      obtain ⟨hb', hlt⟩ := hr a ha b hb
      exact ih hb' (by omega) (by omega)

end

/-- The preferred way on from an address, with as much fuel as its rank asks for. -/
def preferred (code : Code) (rank : Nat → Nat) (k : Cursor) (later : Nat → Option Trail)
    (a : Nat) : Option Trail := prefer code k later (rank a + 1) a

theorem preferred_eq {code : Code} {rank : Nat → Nat} (hr : code.Layered rank) (k : Cursor)
    (later : Nat → Option Trail) {a : Nat} (ha : a < code.size) :
    preferred code rank k later a =
      (code.getD a .accept).prefer k later (preferred code rank k later) := by
  refine Instr.prefer_congr fun b hb => ?_
  obtain ⟨hb', hlt⟩ := hr a ha b hb
  exact prefer_fuel hr k later hb' hlt (by omega)

/-- What is known below the rank `r` is preferred. -/
structure Known.Exact (code : Code) (rank : Nat → Nat) (k : Cursor) (later : Nat → Option Trail)
    (r : Nat) (known : Known) : Prop where
  size : known.size = code.size
  way : ∀ a < code.size, rank a < r → ∀ w, known.getD a (some none) = some w →
    w = preferred code rank k later a

/-- What `known` says from the rank `r` on is kept in `known'`. -/
def Known.Keeps (rank : Nat → Nat) (r : Nat) (known known' : Known) : Prop :=
  ∀ a, r ≤ rank a → known'.getD a (some none) = known.getD a (some none)

section

variable {code : Code} {rank : Nat → Nat} {k : Cursor} {table : Table}
  {later : Nat → Option Trail}

/-- The outcome of passing from an address below the rank `r`. -/
structure Settles (code : Code) (rank : Nat → Nat) (k : Cursor) (later : Nat → Option Trail)
    (r : Nat) (known : Known) (want : Option Trail) (out : Option Trail × Known) : Prop where
  way : out.1 = want
  exact : Known.Exact code rank k later r out.2
  keeps : Known.Keeps rank r known out.2

theorem follow_settles (ht : ∀ a, table.getD a none = later a)
    {go : Nat → Known → Option Trail × Known} {i : Instr} {r : Nat}
    (hg : ∀ b ∈ i.onward, ∀ known, Known.Exact code rank k later r known →
      Settles code rank k later r known (preferred code rank k later b) (go b known))
    {known : Known} (hk : Known.Exact code rank k later r known) :
    Settles code rank k later r known (i.prefer k later (preferred code rank k later))
      (i.follow k table go known) := by
  cases i with
  | accept => exact ⟨rfl, hk, fun _ _ => rfl⟩
  | char set next need => exact ⟨by simp only [Instr.follow, Instr.prefer, ht], hk, fun _ _ => rfl⟩
  | look l next =>
    simp only [Instr.follow, Instr.prefer]
    split
    · exact hg next (by simp [Instr.onward]) known hk
    · exact ⟨rfl, hk, fun _ _ => rfl⟩
  | fork first second =>
    have h1 := hg first (by simp [Instr.onward]) known hk
    simp only [Instr.follow, Instr.prefer]
    split
    · next way known' he =>
      rw [he] at h1
      exact ⟨by simp [← h1.way], h1.exact, h1.keeps⟩
    · next known' he =>
      rw [he] at h1
      have h2 := hg second (by simp [Instr.onward]) known' h1.exact
      exact ⟨by simp [← h1.way, h2.way], h2.exact,
        fun a ha => (h2.keeps a ha).trans (h1.keeps a ha)⟩
  | opening i next =>
    have h := hg next (by simp [Instr.onward]) known hk
    exact ⟨by simp only [Instr.follow, Instr.prefer, h.way], h.exact, h.keeps⟩
  | closing i next =>
    have h := hg next (by simp [Instr.onward]) known hk
    exact ⟨by simp only [Instr.follow, Instr.prefer, h.way], h.exact, h.keeps⟩

/-- In layers `explore` gives the preferred way, whatever was known before. -/
theorem explore_settles (hr : code.Layered rank) (ht : ∀ a, table.getD a none = later a)
    (fuel : Nat) {address r : Nat} (ha : address < code.size) (hf : rank address < fuel)
    (hlt : rank address < r) {known : Known} (hk : Known.Exact code rank k later r known) :
    Settles code rank k later r known (preferred code rank k later address)
      (explore code k table fuel address known) := by
  induction fuel generalizing address r known with
  | zero => omega
  | succ fuel ih =>
    rw [explore]
    split
    · next way hway => exact ⟨hk.way address ha hlt way hway, hk, fun _ _ => rfl⟩
    · -- While the instruction is passed, only what lies below its rank is used and changed.
      have hk' : Known.Exact code rank k later (rank address)
          (known.setIfInBounds address (some none)) := by
        refine ⟨by simp [hk.size], fun a ha' hlt' w hw => ?_⟩
        have hne : address ≠ a := by rintro rfl; omega
        rw [getD_setIfInBounds_ne hne] at hw
        exact hk.way a ha' (by omega) w hw
      have h := follow_settles ht (fun b hb known' hk'' =>
        ih (hr address ha b hb).1 (by have := (hr address ha b hb).2; omega)
          (hr address ha b hb).2 hk'') hk'
      rw [← preferred_eq hr k later ha] at h
      refine ⟨h.way, ⟨(Array.size_setIfInBounds ..).trans h.exact.size,
        fun a ha' hlt' w hw => ?_⟩, fun a ha' => ?_⟩
      · by_cases hne : address = a
        · subst hne
          rw [getD_setIfInBounds_self (by rw [h.exact.size]; exact ha), h.way] at hw
          exact (Option.some.inj hw).symm
        · rw [getD_setIfInBounds_ne hne] at hw
          by_cases hra : rank a < rank address
          · exact h.exact.way a ha' hra w hw
          · rw [h.keeps a (by omega), getD_setIfInBounds_ne hne] at hw
            exact hk.way a ha' hlt' w hw
      · have hne : address ≠ a := by rintro rfl; omega
        rw [getD_setIfInBounds_ne hne, h.keeps a (by omega), getD_setIfInBounds_ne hne]

/-- What is known holds preferred ways only, at every rank. -/
def Known.AllExact (code : Code) (rank : Nat → Nat) (k : Cursor) (later : Nat → Option Trail)
    (known : Known) : Prop := ∀ r, Known.Exact code rank k later r known

theorem explore_allExact (hr : code.Layered rank) (hs : ∀ a < code.size, rank a < code.size)
    (ht : ∀ a, table.getD a none = later a) {a : Nat} (ha : a < code.size) {known : Known}
    (hk : Known.AllExact code rank k later known) :
    (explore code k table code.size a known).1 = preferred code rank k later a ∧
      Known.AllExact code rank k later (explore code k table code.size a known).2 := by
  have h (r : Nat) := explore_settles hr ht code.size ha (hs a ha)
    (show rank a < max r (rank a + 1) by omega) (hk (max r (rank a + 1)))
  refine ⟨(h 0).way, fun r => ⟨(h r).exact.size, fun b hb hlt => ?_⟩⟩
  exact (h r).exact.way b hb (by omega)

end

namespace Program

/-- A program in layers whose arrivals lie inside it. -/
structure Layered (p : Program) (rank : Nat → Nat) : Prop where
  code : p.code.Layered rank
  rank_lt : ∀ a < p.code.size, rank a < p.code.size
  arrivals : ∀ target ∈ p.arrivals, target.address < p.code.size

/-- The preferred ways on at the place `k`, for the addresses where it can be reached. -/
def waysAt (p : Program) (k : Cursor) (later : Nat → Option Trail) (a : Nat) : Option Trail :=
  if p.arrivals.any fun target => target.address = a && target.need ≤ Text.size k.rest then
    prefer p.code k later p.code.size a
  else none

/-- The preferred ways on from the front of a text, behind the character `prev`. -/
def ways (p : Program) (prev : Option Char) (pos : Nat) : Text → Nat → Option Trail
  | [] => p.waysAt ⟨prev, [], pos⟩ fun _ => none
  | c :: cs => p.waysAt ⟨prev, c :: cs, pos⟩ (p.ways (some c) (pos + c.utf8Size) cs)

variable {p : Program} {rank : Nat → Nat}

theorem unknown_allExact (k : Cursor) (later : Nat → Option Trail) :
    Known.AllExact p.code rank k later p.unknown := by
  refine fun r => ⟨by simp [unknown], fun a ha _ w hw => ?_⟩
  simp [unknown, Array.getD_eq_getD_getElem?, ha] at hw

theorem table_layered (hp : p.Layered rank) {k : Cursor} {later : Table}
    {later' : Nat → Option Trail} (ht : ∀ a, later.getD a none = later' a) (a : Nat) :
    (p.table k (Text.size k.rest) later).getD a none = p.waysAt k later' a := by
  unfold table waysAt
  -- The invariant of the fold: the table holds the preferred ways of the targets passed so far.
  suffices h : ∀ (targets : List Target) (s : Table × Known),
      (∀ target ∈ targets, target.address < p.code.size) → s.1.size = p.code.size →
      Known.AllExact p.code rank k later' s.2 →
      (targets.foldl (fun s target =>
        let found := explore p.code k later p.code.size target.address s.2
        (s.1.setIfInBounds target.address found.1, if p.revisits then p.unknown else found.2))
          s).1.getD a none =
        if targets.any (·.address = a) then preferred p.code rank k later' a
        else s.1.getD a none by
    refine (h _ _ (fun t ht => hp.arrivals t (List.mem_filter.1 ht).1) (by simp [noTable])
      (unknown_allExact k later')).trans ?_
    rw [List.any_filter, getD_noTable]
    simp only [Bool.and_comm (decide (_ ≤ _))]
    split
    · next hany =>
      obtain ⟨target, hmem, hta⟩ := List.any_eq_true.1 hany
      obtain rfl : target.address = a := of_decide_eq_true (Bool.and_eq_true_iff.1 hta).1
      have ha := hp.arrivals target hmem
      exact prefer_fuel hp.code k later' ha (Nat.lt_succ_self _) (hp.rank_lt _ ha)
    · rfl
  intro targets
  induction targets with
  | nil => simp
  | cons target targets ih =>
    intro s hts hsize hk
    have ha := hts target (by simp)
    have he := explore_allExact hp.code hp.rank_lt ht ha hk
    have hk' : Known.AllExact p.code rank k later' (if p.revisits then p.unknown else
        (explore p.code k later p.code.size target.address s.2).2) := by
      split
      · exact unknown_allExact k later'
      · exact he.2
    rw [List.foldl_cons, ih _ (fun t h => hts t (by simp [h])) (by simpa using hsize) hk']
    simp only [List.any_cons]
    by_cases hta : target.address = a
    · subst hta
      simp [getD_setIfInBounds_self (hsize ▸ ha), he.1]
    · simp [hta, getD_setIfInBounds_ne hta]

theorem visit_left (k : Cursor) : (p.visit k).left = Text.size k.rest := by
  by_cases h : k.rest = []
  · simp [visit_nil p h, Visit.extend, Cursor.next, h]
  · have ih := visit_left k.advance
    rw [visit_cons p h]
    obtain ⟨prev, rest, pos⟩ := k
    cases rest with
    | nil => contradiction
    | cons c cs => simpa [Visit.extend, Cursor.next, Cursor.advance] using ih
termination_by k.rest.length
decreasing_by exact Cursor.length_advance_rest h

theorem visit_layered (hp : p.Layered rank) (prev : Option Char) (pos : Nat) (text : Text)
    (a : Nat) : (p.visit ⟨prev, text, pos⟩).table.getD a none = p.ways prev pos text a := by
  induction text generalizing prev pos a with
  | nil =>
    rw [visit_nil p rfl]
    exact table_layered hp p.getD_noTable a
  | cons c cs ih =>
    rw [visit_cons p (by simp)]
    have hleft : (p.visit ⟨some c, cs, pos + c.utf8Size⟩).left = Text.size cs := visit_left _
    have htable := table_layered hp (fun b => ih (some c) (pos + c.utf8Size) b) a
      (k := ⟨prev, c :: cs, pos⟩)
    simpa only [Visit.extend, Cursor.next, Cursor.advance, List.head?_cons, Option.map_some,
      Option.getD_some, hleft, Text.size_cons, ways] using htable

/-- In layers the preferred match at a place is had without memory. -/
theorem find?_layered (hp : p.Layered rank) (k : Cursor) :
    p.find? k =
      (p.ways k.prev k.pos k.rest p.entry).map fun t => ⟨k, t.stop, t.starts, t.stops⟩ := by
  rw [find?, ← visit_layered hp k.prev k.pos k.rest]

end Program
end SourceMend.Pattern
