import Mathlib.Tactic.SplitIfs
import SourceMend.Proofs.Scope.Labels

/-!
What the labels depend on. Of the memory of the scanner only the modes, the openers, the last token
and the closing brackets of the open frames count: the heads and the kinds of braces settle the
frames, and no label.
-/
namespace SourceMend.Scope
namespace Control

/-- Which of the recorded brackets the closing bracket `c` can close. -/
def closings (brackets : Array Bracket) (c : Char) : Array Bool :=
  brackets.map (·.kind.closedBy c)

theorem closings_closeAll (brackets : Array Bracket) (indices : List Nat) (pos : Nat) (c : Char) :
    closings (closeAll brackets indices pos) c = closings brackets c := by
  induction indices generalizing brackets with
  | nil => rfl
  | cons i indices ih =>
    rw [closeAll, List.foldl_cons, ← closeAll, ih]
    refine Array.ext (by simp [closings]) fun j hj _ => ?_
    simp only [closings, Array.getElem_map, Array.getElem_modify]
    split <;> rfl

/-- Two memories inside the same modes and brackets. -/
structure Level (k l : Control) : Prop where
  modes : k.modes = l.modes
  openers : k.openers = l.openers
  closings : ∀ c, closings k.brackets c = closings l.brackets c

/-- Two memories that give the same labels. -/
structure Alike (k l : Control) : Prop extends Level k l where
  last : k.last = l.last

namespace Level

variable {k l : Control} (h : k.Level l)

include h

theorem mode : k.mode = l.mode := by
  rw [Control.mode, Control.mode, h.modes]

theorem push (t : Token) : (k.push t).Alike (l.push t) :=
  ⟨⟨h.modes, h.openers, h.closings⟩, rfl⟩

theorem endStatement (t : Token) :
    { k.clearHead with last := some t }.Alike { l.clearHead with last := some t } :=
  ⟨⟨h.modes, h.openers, h.closings⟩, rfl⟩

theorem openInterpolation (o : Opener) : (k.openInterpolation o).Alike (l.openInterpolation o) :=
  ⟨⟨congrArg (Mode.code :: ·) h.modes, congrArg (o :: ·) h.openers, h.closings⟩, rfl⟩

/-- Two frames opened on one level may differ in what they hold, not in what closes them. -/
theorem openBracket {a b : FrameKind} (hab : ∀ c, a.closedBy c = b.closedBy c) (c : Char)
    (pos pos₂ : Nat) (hint hint₂ : ParenHint) :
    (k.openBracket c pos a hint).Alike (l.openBracket c pos₂ b hint₂) where
  modes := h.modes
  openers := by
    have hsize : k.brackets.size = l.brackets.size := by
      simpa [Control.closings] using congrArg Array.size (h.closings c)
    rw [Control.openBracket, Control.openBracket, hsize, h.openers]
  closings x := by
    have := h.closings x
    simp only [Control.closings] at this ⊢
    simp [Control.openBracket, this, hab x]
  last := rfl

theorem partner (c : Char) :
    Control.partner k.brackets c k.openers = Control.partner l.brackets c l.openers := by
  rw [h.openers]
  induction l.openers with
  | nil => rfl
  | cons o openers ih =>
    cases o with
    | template => rfl
    | markup => rfl
    | bracket i =>
      have hi : k.brackets[i]?.map (·.kind.closedBy c) =
          l.brackets[i]?.map (·.kind.closedBy c) := by
        simpa [Control.closings] using congrArg (·[i]?) (h.closings c)
      rw [Control.partner, Control.partner, ih]
      revert hi
      cases k.brackets[i]? <;> cases l.brackets[i]? <;> simp_all

theorem closeBracket (c : Char) (pos pos₂ : Nat) :
    (k.closeBracket c pos).Alike (l.closeBracket c pos₂) := by
  unfold Control.closeBracket
  rw [h.partner c]
  split
  · exact h.push _
  · next indices _ =>
    have hclosed : ∀ x, Control.closings (closeAll k.brackets indices pos) x =
        Control.closings (closeAll l.brackets indices pos₂) x := fun x => by
      rw [closings_closeAll, closings_closeAll, h.closings x]
    have hopen := congrArg (List.drop indices.length) h.openers
    simp only
    split
    · exact ⟨⟨h.modes, hopen, hclosed⟩, rfl⟩
    · exact ⟨⟨h.modes, hopen, hclosed⟩, rfl⟩

end Level

namespace Alike

variable {k l : Control} (h : k.Alike l)

include h

theorem pushMode (m : Mode) : (k.pushMode m).Alike (l.pushMode m) :=
  ⟨⟨congrArg (m :: ·) h.modes, h.openers, h.closings⟩, h.last⟩

theorem popMode : k.popMode.Alike l.popMode :=
  ⟨⟨congrArg List.tail h.modes, h.openers, h.closings⟩, h.last⟩

theorem replaceMode (m : Mode) : (k.replaceMode m).Alike (l.replaceMode m) :=
  ⟨⟨congrArg (fun ms : List Mode => m :: ms.tail) h.modes, h.openers, h.closings⟩, h.last⟩

theorem closeInterpolation : k.closeInterpolation.Alike l.closeInterpolation :=
  ⟨⟨congrArg List.tail h.modes, congrArg List.tail h.openers, h.closings⟩, h.last⟩

theorem leaveElement (depth : UInt32) : (k.leaveElement depth).Alike (l.leaveElement depth) := by
  unfold Control.leaveElement
  split
  · exact h.popMode.push .value
  · exact h.replaceMode _

theorem newline : k.newline.Alike l.newline := by
  unfold Control.newline
  split <;> split <;> exact ⟨⟨h.modes, h.openers, h.closings⟩, h.last⟩

end Alike
end Control

/-- Two steps that give the same labels and memories that are alike. -/
structure Step.Alike (s t : Step) : Prop where
  kind : s.kind = t.kind
  extent : s.extent = t.extent
  control : s.control.Alike t.control

theorem Step.Alike.ite {p : Prop} [Decidable p] {s t u v : Step} (hs : s.Alike u)
    (ht : t.Alike v) : (if p then s else t).Alike (if p then u else v) := by
  split
  · exact hs
  · exact ht

/-- Whatever a brace opens is closed by a brace. -/
theorem Control.closedBy_braceKind (k : Control) (c : Char) :
    k.braceKind.closedBy c = FrameKind.block.closedBy c := by
  simp only [Control.braceKind]
  split_ifs <;> rfl

section Step

variable {k l : Control} (h : k.Alike l) (c : Char) (cs : Text)

include h

theorem stepTemplate_alike : (stepTemplate k c cs).Alike (stepTemplate l c cs) :=
  .ite ⟨rfl, rfl, h⟩ <| .ite ⟨rfl, rfl, h.popMode.push _⟩ <|
    .ite ⟨rfl, rfl, h.openInterpolation _⟩ ⟨rfl, rfl, h⟩

theorem stepTag_alike (depth : UInt32) (closing : Bool) :
    (stepTag k depth closing c cs).Alike (stepTag l depth closing c cs) := by
  refine .ite ⟨rfl, rfl, h⟩ <| .ite ⟨rfl, rfl, h.openInterpolation _⟩ <|
    .ite ⟨rfl, rfl, h.leaveElement depth⟩ <| .ite ⟨rfl, rfl, ?_⟩ ⟨rfl, rfl, h⟩
  cases closing with
  | true => exact h.leaveElement depth
  | false => exact h.replaceMode _

theorem stepChildren_alike (depth : UInt32) :
    (stepChildren k depth c cs).Alike (stepChildren l depth c cs) :=
  .ite ⟨rfl, rfl, h.replaceMode _⟩ <| .ite ⟨rfl, rfl, h.replaceMode _⟩ <|
    .ite ⟨rfl, rfl, h.openInterpolation _⟩ ⟨rfl, rfl, h⟩

theorem stepCode_alike (d : Dialect) (pos pos₂ : Nat) :
    (stepCode d k pos c cs).Alike (stepCode d l pos₂ c cs) := by
  have hbrace (x : Char) : k.braceKind.closedBy x = l.braceKind.closedBy x := by
    rw [k.closedBy_braceKind, l.closedBy_braceKind]
  have hopen {a b : FrameKind} (hab : ∀ x, a.closedBy x = b.closedBy x) :=
    h.openBracket hab c pos pos₂
  simp only [stepCode]
  rw [h.last, h.openers]
  refine .ite ⟨rfl, rfl, h⟩ <| .ite ⟨rfl, rfl, h⟩ <| .ite ⟨rfl, rfl, h.push _⟩ <|
    .ite ⟨rfl, rfl, h.push _⟩ <| .ite ⟨rfl, rfl, h.pushMode _⟩ <| .ite ⟨rfl, rfl, h.pushMode _⟩ <|
    .ite ⟨rfl, rfl, hopen hbrace _ _⟩ <| .ite ⟨rfl, rfl, hopen (fun _ => rfl) _ _⟩ <|
    .ite ⟨rfl, rfl, hopen (fun _ => rfl) _ _⟩ <| .ite ⟨rfl, rfl, h.closeInterpolation⟩ <|
    .ite ⟨rfl, rfl, h.closeInterpolation⟩ <| .ite ⟨rfl, rfl, h.closeBracket c pos pos₂⟩ <|
    .ite ⟨rfl, rfl, h.endStatement _⟩ <| .ite ⟨rfl, rfl, h.newline⟩ <| .ite ⟨rfl, rfl, h⟩ <|
    .ite ⟨rfl, rfl, h.push _⟩ <| .ite ⟨rfl, rfl, h.push _⟩ ⟨rfl, rfl, h.push _⟩

/-- One step keeps memories alike and gives the same labels. -/
theorem step_alike (d : Dialect) (pos pos₂ : Nat) :
    (step d k pos c cs).Alike (step d l pos₂ c cs) := by
  rw [step, step, h.mode]
  cases l.mode with
  | code => exact stepCode_alike h c cs d pos pos₂
  | template => exact stepTemplate_alike h c cs
  | tag depth closing => exact stepTag_alike h c cs depth closing
  | children depth => exact stepChildren_alike h c cs depth

/-- Memories that are alike give a text the same labels. -/
theorem labels_alike (d : Dialect) (pos pos₂ : Nat) (text : Text) :
    labels d k pos text = labels d l pos₂ text := by
  induction k, pos, text using labels.induct d generalizing l pos₂ with
  | case1 => rw [labels, labels]
  | case2 k pos c cs st =>
    rename_i ih
    obtain ⟨hkind, hextent, hcontrol⟩ := step_alike h c cs d pos pos₂
    rw [labels, labels, ← hkind, ← hextent]
    exact congrArg _ (ih hcontrol _)

end Step
end SourceMend.Scope
