import Mathlib.Tactic.SplitIfs
import SourceMend.Proofs.Scope.Brackets
import SourceMend.Proofs.Scope.Passes

/-!
Relocation. The scanner only writes positions down: when the positions in its memory and the one it
has reached are renamed, so are those that it writes down later, and nothing else changes.
-/
namespace SourceMend

def Bracket.moved (φ : Nat → Nat) (b : Bracket) : Bracket :=
  { b with start := φ b.start, stop := b.stop.map φ }

namespace Scope

def Piece.moved (φ : Nat → Nat) (p : Piece) : Piece := { p with start := φ p.start }

def Control.moved (φ : Nat → Nat) (k : Control) : Control :=
  { k with brackets := k.brackets.map (Bracket.moved φ) }

def Step.moved (φ : Nat → Nat) (st : Step) : Step := { st with control := st.control.moved φ }

def State.moved (φ : Nat → Nat) (s : State) : State where
  rest := s.rest
  pos := φ s.pos
  pieces := s.pieces.map (Piece.moved φ)
  control := s.control.moved φ

section Step

variable (φ : Nat → Nat) (k : Control) (c : Char) (cs : Text) (pos : Nat)

namespace Control

theorem currentKind_moved : (k.moved φ).currentKind = k.currentKind := by
  have hat (i : Nat) : ((k.moved φ).brackets[i]?).map (·.kind) = (k.brackets[i]?).map (·.kind) := by
    simp [moved, Function.comp_def, Bracket.moved]
  simp only [currentKind, Option.map_bind, Function.comp_def, hat]
  rfl

theorem braceKind_moved : (k.moved φ).braceKind = k.braceKind := by
  simp only [braceKind, currentKind_moved]
  rfl

theorem openBracket_moved (kind : FrameKind) (hint : ParenHint) :
    (k.moved φ).openBracket c (φ pos) kind hint = (k.openBracket c pos kind hint).moved φ := by
  simp only [openBracket, moved, Array.map_push, Array.size_map]
  rfl

theorem partner_moved (brackets : Array Bracket) (openers : List Opener) :
    partner (brackets.map (Bracket.moved φ)) c openers = partner brackets c openers := by
  induction openers with
  | nil => rfl
  | cons o openers ih =>
    cases o with
    | template => rfl
    | markup => rfl
    | bracket i =>
      rw [partner, partner, ih, Array.getElem?_map]
      cases brackets[i]? <;> rfl

theorem closeAll_moved (brackets : Array Bracket) (indices : List Nat) :
    closeAll (brackets.map (Bracket.moved φ)) indices (φ pos) =
      (closeAll brackets indices pos).map (Bracket.moved φ) := by
  induction indices generalizing brackets with
  | nil => rfl
  | cons i indices ih =>
    have hmodify :
        (brackets.map (Bracket.moved φ)).modify i (fun b => { b with stop := some (φ pos) }) =
        (brackets.modify i fun b => { b with stop := some pos }).map (Bracket.moved φ) := by
      refine Array.ext (by simp) fun j hj _ => ?_
      simp only [Array.getElem_map, Array.getElem_modify]
      split <;> rfl
    simp only [closeAll, List.foldl_cons] at ih ⊢
    rw [hmodify, ih]

theorem closeBracket_moved :
    (k.moved φ).closeBracket c (φ pos) = (k.closeBracket c pos).moved φ := by
  have hkind (indices : List Nat) :
      (indices.getLast?.bind ((k.brackets.map (Bracket.moved φ))[·]?)).map (·.kind) =
        (indices.getLast?.bind (k.brackets[·]?)).map (·.kind) := by
    cases indices.getLast? with
    | none => rfl
    | some i => simp [Function.comp_def, Bracket.moved]
  unfold closeBracket
  simp only [moved, partner_moved, closeAll_moved, hkind]
  split
  · rfl
  · split <;> rfl

theorem newline_moved : (k.moved φ).newline = k.newline.moved φ := by
  unfold newline
  rw [currentKind_moved]
  split <;> split <;> first | rfl | contradiction

theorem leaveElement_moved (depth : UInt32) :
    (k.moved φ).leaveElement depth = (k.leaveElement depth).moved φ := by
  unfold leaveElement
  split <;> rfl

end Control

theorem stepTemplate_moved : stepTemplate (k.moved φ) c cs = (stepTemplate k c cs).moved φ := by
  simp only [stepTemplate, apply_ite (Step.moved φ)]
  rfl

theorem stepTag_moved (depth : UInt32) (closing : Bool) :
    stepTag (k.moved φ) depth closing c cs = (stepTag k depth closing c cs).moved φ := by
  simp only [stepTag, apply_ite (Step.moved φ), Control.leaveElement_moved]
  cases closing <;> rfl

theorem stepChildren_moved (depth : UInt32) :
    stepChildren (k.moved φ) depth c cs = (stepChildren k depth c cs).moved φ := by
  simp only [stepChildren, apply_ite (Step.moved φ)]
  rfl

theorem stepCode_moved (d : Dialect) :
    stepCode d (k.moved φ) (φ pos) c cs = (stepCode d k pos c cs).moved φ := by
  simp only [stepCode, apply_ite (Step.moved φ), Control.openBracket_moved,
    Control.braceKind_moved, Control.closeBracket_moved, Control.newline_moved]
  rfl

/-- One step with all positions renamed. -/
theorem step_moved (d : Dialect) :
    step d (k.moved φ) (φ pos) c cs = (step d k pos c cs).moved φ := by
  have hmode : (k.moved φ).mode = k.mode := rfl
  rw [step, step, hmode]
  cases k.mode with
  | code => exact stepCode_moved φ k c cs pos d
  | template => exact stepTemplate_moved φ k c cs
  | tag depth closing => exact stepTag_moved φ k c cs depth closing
  | children depth => exact stepChildren_moved φ k c cs depth

end Step

namespace State

variable {d : Dialect} {s t : State} {φ : Nat → Nat}

theorem advance_moved (h : ∀ n, φ (s.pos + n) = φ s.pos + n) :
    (s.moved φ).advance d = (s.advance d).moved φ := by
  obtain ⟨rest, pos, pieces, k⟩ := s
  cases rest with
  | nil => rfl
  | cons c cs =>
    simp only [moved, advance, step_moved, h]
    rfl

/-- A renaming that keeps distances from a point on turns the run from there into the run with the
names changed. -/
theorem Passes.moved (h : Passes d s t) (hφ : ∀ n, φ (s.pos + n) = φ s.pos + n) :
    Passes d (s.moved φ) (t.moved φ) := by
  induction h with
  | here => exact .here _
  | @next s t hrest _ ih =>
    refine .next hrest ?_
    rw [advance_moved hφ]
    obtain ⟨n, hn⟩ := Nat.exists_eq_add_of_lt (pos_lt_advance (d := d) hrest)
    refine ih fun m => ?_
    have hfar := hφ (n + 1 + m)
    have hnear := hφ (n + 1)
    simp only [← Nat.add_assoc] at hfar hnear
    rw [hn]
    omega

theorem run_moved (hφ : ∀ n, φ (s.pos + n) = φ s.pos + n) :
    (s.moved φ).run d = (s.run d).moved φ := by
  rw [((passes_run d s).moved hφ).run_eq]
  exact run_of_rest_nil (rest_run d s)

end State

/-! Which positions are written down -/

/-- All recorded positions have a property. -/
def Control.Within (P : Nat → Prop) (k : Control) : Prop :=
  ∀ b ∈ k.brackets, P b.start ∧ ∀ p ∈ b.stop, P p

variable {P : Nat → Prop} {k : Control}

theorem Control.Within.mono {Q : Nat → Prop} (h : k.Within P) (hPQ : ∀ p, P p → Q p) :
    k.Within Q :=
  fun b hb => ⟨hPQ _ (h b hb).1, fun p hp => hPQ p ((h b hb).2 p hp)⟩

theorem Control.Within.moved_eq {φ : Nat → Nat} (h : k.Within fun p => φ p = p) :
    k.moved φ = k := by
  have hmoved : ∀ b ∈ k.brackets, b.moved φ = b := by
    intro b hb
    obtain ⟨hstart, hstop⟩ := h b hb
    have hmap : b.stop.map φ = b.stop := by
      cases hb : b.stop with
      | none => rfl
      | some p => exact congrArg some (hstop p hb)
    rw [Bracket.moved, hstart, hmap]
  rw [moved, Array.map_congr_left hmoved, Array.map_id']

/-- A step writes down no position but its own. -/
theorem Control.Within.moves {pos : Nat} {c : Char} {st : Step} (h : k.Within P) (hpos : P pos)
    (hm : Moves pos c k st) : st.control.Within P := by
  unfold Within at h ⊢
  cases hm with
  | keeping hbrackets _ => rwa [hbrackets]
  | opening b _ _ hstart hstop _ hbrackets _ =>
    intro b' hb'
    rcases Array.mem_push.1 (hbrackets ▸ hb') with hb' | rfl
    · exact h b' hb'
    · simpa [hstart, hstop] using hpos
  | closing indices _ _ _ hbrackets =>
    intro b' hb'
    obtain ⟨i, hi⟩ := Array.getElem?_of_mem (hbrackets ▸ hb')
    obtain ⟨b, hb, hstart, -, hstop⟩ := exists_of_closeAll hi
    have hold := h b (Array.mem_of_getElem? hb)
    refine ⟨hstart ▸ hold.1, ?_⟩
    rcases hstop with ⟨-, hstop⟩ | ⟨-, hstop⟩
    · simpa [hstop] using hpos
    · exact hstop ▸ hold.2

/-- A run writes down the positions of points that it passes. -/
theorem State.Passes.within_passed {d : Dialect} {s t : State} (h : Passes d s t)
    (hs : s.control.Within P) (hP : ∀ u, Passes d s u → u.pos < t.pos → P u.pos) :
    t.control.Within P := by
  induction h with
  | here => exact hs
  | @next s t hrest hpass ih =>
    have hlt := pos_lt_advance (d := d) hrest
    refine ih ?_ fun u hu => hP u (.next hrest hu)
    have hpos := hP s (.here s) (Nat.lt_of_lt_of_le hlt hpass.pos_le)
    obtain ⟨rest, pos, pieces, k⟩ := s
    obtain ⟨c, cs, rfl⟩ := List.exists_cons_of_ne_nil hrest
    exact hs.moves hpos moves_step

theorem State.Passes.within {d : Dialect} {s t : State} (h : Passes d s t)
    (hs : s.control.Within P) (hP : ∀ p, s.pos ≤ p → p < t.pos → P p) : t.control.Within P :=
  h.within_passed hs fun u hu hlt => hP u.pos hu.pos_le hlt

end Scope
end SourceMend
