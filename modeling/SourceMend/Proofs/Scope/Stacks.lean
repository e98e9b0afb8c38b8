import Mathlib.Data.List.Forall2
import SourceMend.Proofs.Scope.Nesting

/-!
The stacks of the scanner. Code and literal text take turns, from code at the bottom; each
interpolation lies on the literal text that it has interrupted, and every opener has a head of its
own. So no stack runs empty, and where an interpolation ends the scanner goes on with that very
text.
-/
namespace SourceMend.Scope

/-- The number of elements around, for markup. -/
def Mode.depth? : Mode → Option UInt32
  | .tag depth _ | .children depth => some depth
  | _ => none

/-- Each element around takes a byte at least, so that their number is right unless there are more
bytes than it can count. -/
def Mode.Within (n : Nat) (m : Mode) : Prop :=
  n < UInt32.size → ∀ depth ∈ m.depth?, 1 ≤ depth ∧ depth.toNat ≤ n

theorem Mode.Within.mono {m n : Nat} {mode : Mode} (h : mode.Within m) (hle : m ≤ n) :
    mode.Within n := by
  intro hn depth hdepth
  obtain ⟨hpos, hdeep⟩ := h (Nat.lt_of_le_of_lt hle hn) depth hdepth
  exact ⟨hpos, Nat.le_trans hdeep hle⟩

/-- The opener of an interpolation goes with the literal text that it interrupts. -/
inductive Opener.Interrupts : Opener → Mode → Prop
  | template : Interrupts .template .template
  | tag (depth : UInt32) (closing : Bool) : Interrupts .markup (.tag depth closing)
  | children (depth : UInt32) : Interrupts .markup (.children depth)

/-- Whether this is no bracket. -/
def Opener.interpolates : Opener → Bool
  | .bracket _ => false
  | .template | .markup => true

theorem Opener.Interrupts.interpolates {o : Opener} {m : Mode} (h : o.Interrupts m) :
    o.interpolates = true := by
  cases h <;> rfl

theorem Opener.Interrupts.ne_code {o : Opener} {m : Mode} (h : o.Interrupts m) : m ≠ .code := by
  cases h <;> nofun

/-- What lies just below the code modes, apart from the one at the bottom. -/
def belowCode : List Mode → List Mode
  | m :: below :: rest =>
    if m = .code then below :: belowCode (below :: rest) else belowCode (below :: rest)
  | _ => []

theorem belowCode_cons_of_ne {m : Mode} (h : m ≠ .code) (ms : List Mode) :
    belowCode (m :: ms) = belowCode ms := by
  cases ms with
  | nil => rfl
  | cons below rest => rw [belowCode, if_neg h]

theorem belowCode_code_cons (m : Mode) (ms : List Mode) :
    belowCode (.code :: m :: ms) = m :: belowCode (m :: ms) := by
  rw [belowCode, if_pos rfl]

/-- Code and literal text take turns, from code at the bottom. -/
structure Layered (pos : Nat) (modes : List Mode) : Prop where
  bottom : modes.getLast? = some .code
  alternating : modes.IsChain fun m below => (m = .code ↔ below ≠ .code)
  depths : ∀ m ∈ modes, m.Within pos

namespace Layered

variable {pos pos' : Nat} {m m' : Mode} {ms : List Mode}

theorem mono (h : Layered pos ms) (hle : pos ≤ pos') : Layered pos' ms :=
  { h with depths := fun m hm => (h.depths m hm).mono hle }

theorem push (h : Layered pos (m :: ms)) (hturn : m' = .code ↔ m ≠ .code) (hm' : m'.Within pos) :
    Layered pos (m' :: m :: ms) where
  bottom := by rw [List.getLast?_cons_cons, h.bottom]
  alternating := List.isChain_cons_cons.2 ⟨hturn, h.alternating⟩
  depths := List.forall_mem_cons.2 ⟨hm', h.depths⟩

theorem pop (h : Layered pos (m' :: m :: ms)) : Layered pos (m :: ms) where
  bottom := by rw [← h.bottom, List.getLast?_cons_cons]
  alternating := (List.isChain_cons_cons.1 h.alternating).2
  depths := (List.forall_mem_cons.1 h.depths).2

/-- Below literal text lies code. -/
theorem exists_code (h : Layered pos (m :: ms)) (hliteral : m ≠ .code) :
    ∃ rest, ms = .code :: rest := by
  cases ms with
  | nil => exact absurd (Option.some.inj h.bottom) hliteral
  | cons below rest =>
    have hbelow := (List.isChain_cons_cons.1 h.alternating).1
    exact ⟨rest, by rw [not_not.1 (mt hbelow.2 hliteral)]⟩

end Layered

namespace Control

variable {pos pos' : Nat} {k k' : Control}

/-- The open interpolations, the innermost first. -/
def interpolations (k : Control) : List Opener := k.openers.filter Opener.interpolates

/-- The stacks after `pos` bytes. -/
structure Stacked (pos : Nat) (k : Control) : Prop where
  layered : Layered pos k.modes
  heads : k.heads.length = k.openers.length + 1
  interrupted : List.Forall₂ Opener.Interrupts k.interpolations (belowCode k.modes)

/-- What a step at byte `pos` does to the stacks. -/
inductive Shifts (pos : Nat) (k k' : Control) : Prop
  | keeping : k'.modes = k.modes → k'.openers = k.openers → k'.heads.length = k.heads.length →
    Shifts pos k k'
  | entering {m : Mode} {ms : List Mode} : k.modes = .code :: ms → k'.modes = m :: .code :: ms →
    m ≠ .code → m.Within (pos + 1) → k'.openers = k.openers →
    k'.heads.length = k.heads.length → Shifts pos k k'
  | turning {m m' : Mode} {ms : List Mode} : k.modes = m :: ms → k'.modes = m' :: ms →
    m ≠ .code → m' ≠ .code → m'.Within (pos + 1) → k'.openers = k.openers →
    k'.heads.length = k.heads.length → Shifts pos k k'
  | leaving {m : Mode} : k.modes = m :: k'.modes → m ≠ .code → k'.openers = k.openers →
    k'.heads.length = k.heads.length → Shifts pos k k'
  | opening {i : Nat} : k'.modes = k.modes → k'.openers = .bracket i :: k.openers →
    k'.heads.length = k.heads.length + 1 → Shifts pos k k'
  | closing {indices : List Nat} : k'.modes = k.modes →
    k.openers = indices.map .bracket ++ k'.openers →
    k.heads.length = indices.length + k'.heads.length → Shifts pos k k'
  | interrupting {o : Opener} {m : Mode} {ms : List Mode} : k.modes = m :: ms →
    k'.modes = .code :: m :: ms → o.Interrupts m → k'.openers = o :: k.openers →
    k'.heads.length = k.heads.length + 1 → Shifts pos k k'
  | resuming {o : Opener} : k.modes = .code :: k'.modes → o.interpolates = true →
    k.openers = o :: k'.openers → k.heads.length = k'.heads.length + 1 → Shifts pos k k'

namespace Stacked

theorem start (pos : Nat) : Stacked pos {} where
  layered := ⟨rfl, .singleton _, by simp [Mode.Within, Mode.depth?]⟩
  heads := rfl
  interrupted := .nil

theorem heads_ne_nil (h : Stacked pos k) : k.heads ≠ [] :=
  List.length_pos_iff.1 (by rw [h.heads]; omega)

theorem modes_eq (h : Stacked pos k) : k.modes = k.mode :: k.modes.tail := by
  cases hm : k.modes with
  | nil => simpa [hm] using h.layered.bottom
  | cons m ms => simp [mode, hm]

theorem within_mode (h : Stacked pos k) : k.mode.Within pos :=
  h.layered.depths _ (by rw [h.modes_eq]; exact List.mem_cons_self)

/-- Below the code of an interpolation lies the text that it interrupts. -/
theorem exists_literal (h : Stacked pos k) {o : Opener} {openers : List Opener} {ms : List Mode}
    (hm : k.modes = .code :: ms) (ho : k.openers = o :: openers) (hinter : o.interpolates = true) :
    ∃ m rest, ms = m :: rest ∧ o.Interrupts m ∧
      List.Forall₂ Opener.Interrupts (openers.filter Opener.interpolates) (belowCode ms) := by
  have hinterrupted := h.interrupted
  rw [interpolations, hm, ho, List.filter_cons_of_pos hinter] at hinterrupted
  cases ms with
  | nil => cases hinterrupted
  | cons m rest =>
    rw [belowCode_code_cons, List.forall₂_cons] at hinterrupted
    exact ⟨m, rest, rfl, hinterrupted⟩

theorem shift (h : Stacked pos k) (hs : Shifts pos k k') (hpos : pos < pos') : Stacked pos' k' := by
  have hlayered : Layered pos' k.modes := h.layered.mono (Nat.le_of_lt hpos)
  have hheads := h.heads
  have hinterrupted := h.interrupted
  cases hs with
  | keeping hmodes hopeners hlength =>
    exact ⟨hmodes ▸ hlayered, by rw [hlength, hopeners, hheads],
      by rwa [interpolations, hopeners, hmodes]⟩
  | @entering m ms hmodes hmodes' hliteral hwithin hopeners hlength =>
    rw [hmodes] at hlayered hinterrupted
    constructor
    case layered => exact hmodes' ▸ hlayered.push (by simp [hliteral]) (hwithin.mono hpos)
    case heads => rw [hlength, hopeners, hheads]
    case interrupted => rwa [interpolations, hopeners, hmodes', belowCode_cons_of_ne hliteral]
  | @turning m m' ms hmodes hmodes' hliteral hliteral' hwithin hopeners hlength =>
    rw [hmodes] at hlayered hinterrupted
    obtain ⟨rest, rfl⟩ := hlayered.exists_code hliteral
    rw [belowCode_cons_of_ne hliteral] at hinterrupted
    constructor
    case layered => exact hmodes' ▸ hlayered.pop.push (by simp [hliteral']) (hwithin.mono hpos)
    case heads => rw [hlength, hopeners, hheads]
    case interrupted => rwa [interpolations, hopeners, hmodes', belowCode_cons_of_ne hliteral']
  | @leaving m hmodes hliteral hopeners hlength =>
    rw [hmodes] at hlayered hinterrupted
    obtain ⟨rest, hrest⟩ := hlayered.exists_code hliteral
    rw [belowCode_cons_of_ne hliteral] at hinterrupted
    rw [hrest] at hlayered
    exact ⟨hrest ▸ hlayered.pop, by rw [hlength, hopeners, hheads],
      by rwa [interpolations, hopeners]⟩
  | @opening i hmodes hopeners hlength =>
    exact ⟨hmodes ▸ hlayered, by rw [hlength, hopeners, hheads, List.length_cons],
      by rwa [interpolations, hopeners, List.filter_cons_of_neg Bool.false_ne_true, hmodes]⟩
  | @closing indices hmodes hopeners hlength =>
    have hbrackets : (indices.map Opener.bracket).filter Opener.interpolates = [] := by
      simp [List.filter_eq_nil_iff, Opener.interpolates]
    constructor
    case layered => exact hmodes ▸ hlayered
    case heads =>
      rw [hlength, hopeners, List.length_append, List.length_map] at hheads
      omega
    case interrupted =>
      rw [interpolations, hopeners, List.filter_append, hbrackets] at hinterrupted
      rwa [hmodes]
  | @interrupting o m ms hmodes hmodes' hfits hopeners hlength =>
    rw [hmodes] at hlayered hinterrupted
    constructor
    case layered =>
      exact hmodes' ▸ hlayered.push (by simp [hfits.ne_code]) (by simp [Mode.Within, Mode.depth?])
    case heads => rw [hlength, hopeners, hheads, List.length_cons]
    case interrupted =>
      rw [interpolations, hopeners, List.filter_cons_of_pos hfits.interpolates, hmodes',
        belowCode_code_cons]
      exact .cons hfits hinterrupted
  | @resuming o hmodes hinter hopeners hlength =>
    obtain ⟨m, rest, hrest, -, hbelow⟩ := h.exists_literal hmodes hopeners hinter
    rw [hmodes, hrest] at hlayered
    constructor
    case layered => exact hrest ▸ hlayered.pop
    case heads =>
      rw [hlength, hopeners, List.length_cons] at hheads
      omega
    case interrupted => exact hbelow

end Stacked

/-! One step -/

theorem length_heads_setHead (h : k.heads ≠ []) (head : List Token) :
    (k.setHead head).heads.length = k.heads.length := by
  obtain ⟨first, rest, hrest⟩ := List.exists_cons_of_ne_nil h
  simp [setHead, hrest]

theorem length_heads_push (h : k.heads ≠ []) (t : Token) :
    (k.push t).heads.length = k.heads.length :=
  length_heads_setHead h _

theorem Shifts.ite {p : Prop} [Decidable p] {s t : Step} (hs : p → Shifts pos k s.control)
    (ht : Shifts pos k t.control) : Shifts pos k (if p then s else t).control := by
  split
  · next hp => exact hs hp
  · exact ht

namespace Stacked

variable {d : Dialect} {c : Char} {cs : Text}

theorem push (h : Stacked pos k) (t : Token) : Shifts pos k (k.push t) :=
  .keeping rfl rfl (length_heads_setHead h.heads_ne_nil _)

theorem newline (h : Stacked pos k) : Shifts pos k k.newline := by
  unfold Control.newline
  split
  · exact .keeping rfl rfl (length_heads_setHead h.heads_ne_nil _)
  · exact .keeping rfl rfl rfl

theorem closeInterpolation (h : Stacked pos k) (hmode : k.mode = .code) {o : Opener}
    (ho : k.openers.head? = some o) (hinter : o.interpolates = true) :
    Shifts pos k k.closeInterpolation := by
  obtain ⟨openers, hopeners⟩ := List.head?_eq_some_iff.1 ho
  have hheads := h.heads
  refine .resuming (hmode ▸ h.modes_eq) hinter (by simp [Control.closeInterpolation, hopeners]) ?_
  simp only [Control.closeInterpolation, List.length_tail, hheads]
  omega

theorem closeBracket (h : Stacked pos k) : Shifts pos k (k.closeBracket c pos) := by
  unfold Control.closeBracket
  split
  · exact h.push _
  · next indices hpartner =>
    have hopeners := openers_of_partner hpartner
    have hheads := h.heads
    rw [hopeners, List.length_append, List.length_map] at hheads
    -- The head of the statement around the brackets is left.
    have hleft : k.heads.drop indices.length ≠ [] := by
      rw [ne_eq, List.drop_eq_nil_iff]
      omega
    have hlength : k.heads.length = indices.length + (k.heads.drop indices.length).length := by
      rw [List.length_drop]
      omega
    dsimp only
    split
    · refine .closing rfl hopeners (hlength.trans ?_)
      rw [length_heads_push (List.cons_ne_nil _ _), clearHead, length_heads_setHead hleft]
    · refine .closing rfl hopeners (hlength.trans ?_)
      rw [length_heads_push hleft]

theorem leaveElement (h : Stacked pos k) {depth : UInt32} (hdepth : depth ∈ k.mode.depth?) :
    Shifts pos k (k.leaveElement depth) := by
  have hliteral : k.mode ≠ .code := fun hcode => by simp [hcode, Mode.depth?] at hdepth
  unfold Control.leaveElement
  split
  · exact .leaving h.modes_eq hliteral rfl (length_heads_push h.heads_ne_nil _)
  · next hdeep =>
    refine .turning h.modes_eq rfl hliteral nofun (fun hsize n hn => ?_) rfl rfl
    obtain rfl := Option.some.inj hn
    obtain ⟨-, hle⟩ := h.within_mode (Nat.lt_of_succ_lt hsize) depth hdepth
    have hone : 1 < depth := UInt32.not_le.1 hdeep
    have hpred : (depth - 1).toNat = depth.toNat - 1 :=
      UInt32.toNat_sub_of_le _ _ (UInt32.le_of_lt hone)
    rw [UInt32.le_iff_toNat_le, hpred]
    exact ⟨Nat.le_sub_of_add_le (UInt32.lt_iff_toNat_lt.1 hone), by omega⟩

theorem stepCode (h : Stacked pos k) (hmode : k.mode = .code) :
    Shifts pos k (stepCode d k pos c cs).control := by
  have enter {m : Mode} (hliteral : m ≠ .code) (hwithin : m.Within (pos + 1)) :
      Shifts pos k (k.pushMode m) :=
    .entering (hmode ▸ h.modes_eq) (by rw [pushMode, ← hmode, ← h.modes_eq]) hliteral hwithin
      rfl rfl
  have keep {p : Prop} : p → Shifts pos k k := fun _ => .keeping rfl rfl rfl
  have push (t : Token) {p : Prop} : p → Shifts pos k (k.push t) := fun _ => h.push t
  have openBracket {kind : FrameKind} {hint : ParenHint} {p : Prop} :
      p → Shifts pos k (k.openBracket c pos kind hint) := fun _ => .opening rfl rfl rfl
  refine .ite keep <| .ite keep <| .ite (push _) <| .ite (push _) <|
    .ite (fun _ => enter nofun nofun) <| .ite (fun _ => enter nofun ?tag) <|
    .ite openBracket <| .ite openBracket <| .ite openBracket <|
    .ite (fun ho => h.closeInterpolation hmode ho.2 rfl) <|
    .ite (fun ho => h.closeInterpolation hmode ho.2 rfl) <|
    .ite (fun _ => h.closeBracket) <| .ite ?semicolon <| .ite (fun _ => h.newline) <|
    .ite keep <| .ite (push _) <| .ite (push _) <| h.push _
  case tag =>
    intro _ depth hdepth
    obtain rfl := Option.some.inj hdepth
    exact ⟨Nat.le_refl 1, Nat.le_add_left 1 pos⟩
  case semicolon =>
    exact fun _ => .keeping rfl rfl (length_heads_setHead h.heads_ne_nil _)

theorem interrupt (h : Stacked pos k) {o : Opener} (ho : o.Interrupts k.mode) :
    Shifts pos k (k.openInterpolation o) := by
  refine .interrupting h.modes_eq ?_ ho rfl rfl
  rw [← h.modes_eq]
  rfl

theorem turn (h : Stacked pos k) (hliteral : k.mode ≠ .code) {m : Mode} (hm : m ≠ .code)
    (hwithin : m.Within (pos + 1)) : Shifts pos k (k.replaceMode m) :=
  .turning h.modes_eq rfl hliteral hm hwithin rfl rfl

/-- A step moves the stacks in one of these ways, and finds on them what it takes away. -/
theorem step (h : Stacked pos k) : Shifts pos k (step d k pos c cs).control := by
  have hwithin := h.within_mode
  unfold Scope.step
  cases hmode : k.mode with
  | code => exact h.stepCode hmode
  | template =>
    have leave : Shifts pos k (k.popMode.push .value) :=
      .leaving h.modes_eq (by rw [hmode]; nofun) rfl (length_heads_push h.heads_ne_nil _)
    exact .ite (fun _ => .keeping rfl rfl rfl) <| .ite (fun _ => leave) <|
      .ite (fun _ => h.interrupt (hmode ▸ .template)) <| .keeping rfl rfl rfl
  | tag depth closing =>
    rw [hmode] at hwithin
    have hdepth : depth ∈ k.mode.depth? := by rw [hmode]; rfl
    refine .ite (fun _ => .keeping rfl rfl rfl) <|
      .ite (fun _ => h.interrupt (hmode ▸ .tag depth closing)) <|
      .ite (fun _ => h.leaveElement hdepth) <| .ite (fun _ => ?_) <| .keeping rfl rfl rfl
    cases closing with
    | true => exact h.leaveElement hdepth
    | false => exact h.turn (by rw [hmode]; nofun) nofun (hwithin.mono (Nat.le_succ pos))
  | children depth =>
    rw [hmode] at hwithin
    have turn {m : Mode} (hm : m ≠ .code) (hwithin : m.Within (pos + 1)) :
        Shifts pos k (k.replaceMode m) := h.turn (by rw [hmode]; nofun) hm hwithin
    refine .ite (fun _ => turn nofun (hwithin.mono (Nat.le_succ pos))) <|
      .ite (fun _ => turn nofun ?deeper) <|
      .ite (fun _ => h.interrupt (hmode ▸ .children depth)) <| .keeping rfl rfl rfl
    case deeper =>
      intro hsize n hn
      obtain rfl := Option.some.inj hn
      obtain ⟨-, hle⟩ := hwithin (Nat.lt_of_succ_lt hsize) depth rfl
      have hsucc : (depth + 1).toNat = depth.toNat + 1 := by
        rw [UInt32.toNat_add]
        exact Nat.mod_eq_of_lt (Nat.lt_of_le_of_lt (Nat.succ_le_succ hle) hsize)
      rw [UInt32.le_iff_toNat_le, hsucc]
      exact ⟨Nat.le_add_left 1 _, Nat.succ_le_succ hle⟩

end Stacked

/-- A brace that meets an interpolation ends it. -/
theorem stepCode_of_interpolates {d : Dialect} {cs : Text} {o : Opener}
    (ho : k.openers.head? = some o) (hinter : o.interpolates = true) :
    (stepCode d k pos '\x7d' cs).control = k.closeInterpolation := by
  cases o with
  | bracket => cases hinter
  | template => simp [stepCode, ho]
  | markup => simp [stepCode, ho]

/-- Code on top of other modes has been there before the step, or has been put there by it. -/
theorem Shifts.suffix (hs : Shifts pos k k') {rest : List Mode}
    (hrest : .code :: rest <:+ k'.modes) :
    .code :: rest <:+ k.modes ∨ rest = k.modes ∧ k'.modes = .code :: k.modes := by
  have below {m : Mode} {ms : List Mode} (hliteral : m ≠ .code)
      (hm : .code :: rest <:+ m :: ms) : .code :: rest <:+ ms := by
    rcases List.suffix_cons_iff.1 hm with heq | hms
    · exact absurd (List.cons.inj heq).1.symm hliteral
    · exact hms
  cases hs with
  | keeping hmodes => exact .inl (hmodes ▸ hrest)
  | entering hmodes hmodes' hliteral =>
    rw [hmodes'] at hrest
    exact .inl (hmodes ▸ below hliteral hrest)
  | turning hmodes hmodes' hliteral hliteral' =>
    rw [hmodes'] at hrest
    exact .inl (hmodes ▸ (below hliteral' hrest).trans (List.suffix_cons _ _))
  | leaving hmodes => exact .inl (hmodes ▸ hrest.trans (List.suffix_cons _ _))
  | opening hmodes => exact .inl (hmodes ▸ hrest)
  | closing hmodes => exact .inl (hmodes ▸ hrest)
  | interrupting hmodes hmodes' =>
    rw [hmodes', ← hmodes] at hrest
    rcases List.suffix_cons_iff.1 hrest with heq | hms
    · exact .inr ⟨(List.cons.inj heq).2, hmodes ▸ hmodes'⟩
    · exact .inl hms
  | resuming hmodes => exact .inl (hmodes ▸ hrest.trans (List.suffix_cons _ _))

end Control

/-! Runs -/

namespace State

variable {d : Dialect} {s t : State}

/-- The step at the first point has begun an interpolation, and at the second one it is open still:
its code has not been taken off the text that it interrupts. -/
inductive Interrupted (d : Dialect) (s : State) : State → Prop
  | begin : (s.advance d).control.modes = .code :: s.control.modes → Interrupted d s (s.advance d)
  | next {t : State} : Interrupted d s t →
    .code :: s.control.modes <:+ (t.advance d).control.modes → Interrupted d s (t.advance d)

/-- What holds at the start of a run and is kept by each step holds at all points of the run. -/
theorem Passes.induct {P : State → Prop} (h : Passes d s t) (hs : P s)
    (hstep : ∀ u, Passes d s u → u.rest ≠ [] → P u → P (u.advance d)) : P t := by
  induction h with
  | here => exact hs
  | next hrest _ ih =>
    exact ih (hstep _ (.here _) hrest hs) fun u hu => hstep u (.next hrest hu)

theorem shifts_advance (h : s.control.Stacked s.pos) (hrest : s.rest ≠ []) :
    s.control.Shifts s.pos (s.advance d).control := by
  obtain ⟨rest, pos, pieces, k⟩ := s
  obtain ⟨c, cs, rfl⟩ := List.exists_cons_of_ne_nil hrest
  exact h.step

theorem Passes.stacked (h : Passes d s t) (hs : s.control.Stacked s.pos) :
    t.control.Stacked t.pos := by
  induction h with
  | here => exact hs
  | next hrest _ ih => exact ih (hs.shift (shifts_advance hs hrest) (pos_lt_advance hrest))

/-- Each code mode above another mode is that of an interpolation. -/
theorem Passes.exists_interrupted (h : Passes d s t) (hs : s.control.Stacked s.pos)
    (hbottom : s.control.modes = [.code]) : ∀ rest ≠ [], .code :: rest <:+ t.control.modes →
      ∃ u, Passes d s u ∧ u.control.modes = rest ∧ Interrupted d u t := by
  refine h.induct (P := fun t => ∀ rest ≠ [], .code :: rest <:+ t.control.modes →
    ∃ u, Passes d s u ∧ u.control.modes = rest ∧ Interrupted d u t) ?start ?step
  case start =>
    intro rest hne hrest
    rw [hbottom] at hrest
    have hle := hrest.length_le
    simp only [List.length_cons, List.length_nil] at hle
    exact absurd (List.length_eq_zero_iff.1 (by omega)) hne
  case step =>
    intro t hpass htext ih rest hne hrest
    rcases (shifts_advance (hpass.stacked hs) htext).suffix hrest with hold | ⟨rfl, hnew⟩
    · obtain ⟨u, hu, rfl, hinter⟩ := ih rest hne hold
      exact ⟨u, hu, rfl, hinter.next hrest⟩
    · exact ⟨t, hpass, rfl, .begin hnew⟩

end State

/-- What always holds of the memory of the scanner: the stacks fit each other, and the open brackets
are recorded in the order in which they were opened. -/
structure Control.Disciplined (pos : Nat) (k : Control) : Prop extends Control.Stacked pos k where
  valid : ∀ i ∈ k.opened, i < k.brackets.size
  sorted : k.opened.Pairwise (· > ·)

/-- At each point of a run the stacks fit each other, and neither a mode nor a head is ever
missing. Where an interpolation ends, the text goes on that it has interrupted. -/
theorem State.stack_discipline (d : Dialect) (text : Text) {s : State}
    (h : Passes d { rest := text } s) :
    s.control.Disciplined s.pos ∧
    s.control.modes.head? = some s.control.mode ∧ s.control.heads.head? = some s.control.head ∧
    (∀ c indices, Control.partner s.control.brackets c s.control.openers = some indices →
      indices.length < s.control.heads.length) ∧
    ∀ (o : Opener) (cs : Text), s.rest = '\x7d' :: cs → s.control.mode = .code →
      s.control.openers.head? = some o → o.interpolates = true →
      ∃ t, Passes d { rest := text } t ∧ Interrupted d t s ∧ o.Interrupts t.control.mode ∧
        (s.advance d).control.modes = t.control.modes := by
  have hstacked := h.stacked (.start 0)
  have hnested := h.nested (.start 0)
  refine ⟨⟨hstacked, ?valid, hnested.sorted⟩, ?mode, ?head, ?partner, ?ending⟩
  case valid =>
    intro i hi
    obtain ⟨b, hb, -⟩ := (hnested.mem_opened i).1 hi
    exact (Array.getElem?_eq_some_iff.1 hb).1
  case mode =>
    rw [hstacked.modes_eq]
    rfl
  case head =>
    obtain ⟨head, heads, hheads⟩ := List.exists_cons_of_ne_nil hstacked.heads_ne_nil
    simp [Control.head, hheads]
  case partner =>
    intro c indices hpartner
    have hlength := congrArg List.length (Control.openers_of_partner hpartner)
    rw [List.length_append, List.length_map] at hlength
    rw [hstacked.heads]
    omega
  case ending =>
    intro o cs hrest hmode ho hinter
    obtain ⟨openers, hopeners⟩ := List.head?_eq_some_iff.1 ho
    have hmodes : s.control.modes = .code :: s.control.modes.tail := hmode ▸ hstacked.modes_eq
    obtain ⟨m, rest, htail, hfits, -⟩ := hstacked.exists_literal hmodes hopeners hinter
    obtain ⟨t, hpass, ht, hopen⟩ := h.exists_interrupted (.start 0) rfl s.control.modes.tail
      (by rw [htail]; nofun) ⟨[], hmodes.symm⟩
    refine ⟨t, hpass, hopen, ?_, ?_⟩
    · rw [Control.mode, ht, htail]
      exact hfits
    · rw [ht]
      obtain ⟨text, pos, pieces, k⟩ := s
      obtain rfl : text = '\x7d' :: cs := hrest
      have hstep : (step d k pos '\x7d' cs).control = k.closeInterpolation := by
        rw [step, hmode]
        exact Control.stepCode_of_interpolates ho hinter
      simp only [advance, hstep, Control.closeInterpolation]

/-- An interpolation of a template that stands in one of an element. -/
theorem State.stack_discipline_nested :
    let start : State := { rest := "<a>\x7b`$\x7b1\x7d`\x7d</a>".toList }
    ∃ s, Passes .markup start s ∧
      s.control.modes = [.code, .template, .code, .children 1, .code] ∧
      s.control.openers = [.template, .markup] ∧ s.control.Disciplined s.pos ∧
      ∃ t, Passes .markup start t ∧ Interrupted .markup t s ∧ t.control.mode = .template ∧
        (s.advance .markup).control.modes = t.control.modes := by
  intro start
  let s := start.advance .markup |>.advance .markup |>.advance .markup |>.advance .markup
    |>.advance .markup |>.advance .markup |>.advance .markup
  have hpass : Passes .markup start s :=
    .next (by decide) <| .next (by decide +kernel) <| .next (by decide +kernel) <|
      .next (by decide +kernel) <| .next (by decide +kernel) <| .next (by decide +kernel) <|
      .next (by decide +kernel) (.here _)
  have hmodes : s.control.modes = [.code, .template, .code, .children 1, .code] := by
    decide +kernel
  have hopeners : s.control.openers = [.template, .markup] := by decide +kernel
  obtain ⟨hdisciplined, -, -, -, hending⟩ := stack_discipline .markup _ hpass
  obtain ⟨t, ht, hopen, hfits, hafter⟩ := hending .template "`\x7d</a>".toList
    (by decide +kernel) (by decide +kernel) (by rw [hopeners]; rfl) rfl
  refine ⟨s, hpass, hmodes, hopeners, hdisciplined, t, ht, hopen, ?_, hafter⟩
  generalize t.control.mode = m at hfits
  cases hfits
  rfl

end SourceMend.Scope
