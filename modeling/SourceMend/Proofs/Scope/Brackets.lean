import SourceMend.Scope.Scanner

/-!
What a step of the scanner does to the recorded brackets: it opens one, or it closes those on top of
the stack down to the partner of a closing bracket, or it leaves them alone. A bracket is opened and
closed by a token of one byte, and at the byte of that token.
-/
namespace SourceMend
namespace Scope

def Opener.index? : Opener → Option Nat
  | .bracket i => some i
  | _ => none

namespace Control

variable {k : Control} {i : Nat}

/-- The open brackets, the innermost first. -/
def opened (k : Control) : List Nat := k.openers.filterMap Opener.index?

theorem currentBracket_eq (k : Control) : k.currentBracket = k.opened.head? := by
  rw [opened, List.head?_filterMap]
  rfl

/-- The partner of a closing bracket is found below brackets only. -/
theorem openers_of_partner {brackets : Array Bracket} {c : Char} {openers : List Opener}
    {indices : List Nat} (h : partner brackets c openers = some indices) :
    openers = indices.map .bracket ++ openers.drop indices.length := by
  induction openers generalizing indices with
  | nil => cases h
  | cons o openers ih =>
    cases o with
    | template => cases h
    | markup => cases h
    | bracket i =>
      rw [partner] at h
      split at h
      · split at h
        · obtain rfl := Option.some.inj h
          rfl
        · obtain ⟨rest, hrest, rfl⟩ := Option.map_eq_some_iff.1 h
          exact congrArg (Opener.bracket i :: ·) (ih hrest)
      · cases h

theorem opened_of_partner {brackets : Array Bracket} {c : Char} {openers : List Opener}
    {indices : List Nat} (h : partner brackets c openers = some indices) :
    openers.filterMap Opener.index? =
      indices ++ (openers.drop indices.length).filterMap Opener.index? := by
  have hindices : (indices.map Opener.bracket).filterMap Opener.index? = indices := by
    rw [List.filterMap_map]
    exact List.filterMap_some
  have hsplit := congrArg (List.filterMap Opener.index?) (openers_of_partner h)
  rwa [List.filterMap_append, hindices] at hsplit

theorem getElem?_closeAll (brackets : Array Bracket) (indices : List Nat) (pos i : Nat) :
    (closeAll brackets indices pos)[i]? =
      brackets[i]?.map fun b => if i ∈ indices then { b with stop := some pos } else b := by
  induction indices generalizing brackets with
  | nil => simp [closeAll]
  | cons j indices ih =>
    rw [closeAll, List.foldl_cons, ← closeAll, ih, Array.getElem?_modify]
    by_cases hj : j = i
    · subst hj
      cases brackets[j]? <;> simp
    · simp [hj, Ne.symm hj]

/-- A bracket after some were closed is the one from before, with an end if it is one of them. -/
theorem exists_of_closeAll {brackets : Array Bracket} {indices : List Nat} {pos : Nat}
    {b' : Bracket} (h : (closeAll brackets indices pos)[i]? = some b') :
    ∃ b, brackets[i]? = some b ∧ b'.start = b.start ∧ b'.parent = b.parent ∧
      (i ∈ indices ∧ b'.stop = some pos ∨ i ∉ indices ∧ b'.stop = b.stop) := by
  rw [getElem?_closeAll] at h
  obtain ⟨b, hb, rfl⟩ := Option.map_eq_some_iff.1 h
  refine ⟨b, hb, ?_⟩
  split
  · next hi => exact ⟨rfl, rfl, .inl ⟨hi, rfl⟩⟩
  · next hi => exact ⟨rfl, rfl, .inr ⟨hi, rfl⟩⟩

end Control

/-! One step -/

/-- What a step that reads the character `c` at byte `pos` does to the open brackets. -/
inductive Moves (pos : Nat) (c : Char) (k : Control) (st : Step) : Prop
  | keeping : st.control.brackets = k.brackets → st.control.opened = k.opened → Moves pos c k st
  | opening (b : Bracket) : st.extent = 0 → c.utf8Size = 1 →
    b.start = pos → b.stop = none → b.parent = k.opened.head? →
    st.control.brackets = k.brackets.push b →
    st.control.opened = k.brackets.size :: k.opened → Moves pos c k st
  | closing (indices : List Nat) : st.extent = 0 → c.utf8Size = 1 →
    k.opened = indices ++ st.control.opened →
    st.control.brackets = Control.closeAll k.brackets indices pos → Moves pos c k st

section Moves

variable {d : Dialect} {k : Control} {pos : Nat} {c : Char} {cs : Text}

theorem Moves.ite {p : Prop} [Decidable p] {s t : Step} (hs : p → Moves pos c k s)
    (ht : Moves pos c k t) : Moves pos c k (if p then s else t) := by
  split
  · next hp => exact hs hp
  · exact ht

theorem moves_openBracket {kind : FrameKind} {hint : ParenHint} (hc : c.utf8Size = 1) :
    Moves pos c k ⟨.code, 0, k.openBracket c pos kind hint⟩ :=
  .opening _ rfl hc rfl rfl k.currentBracket_eq rfl rfl

/-- An interpolation is no bracket. -/
theorem moves_closeInterpolation {kind : SpanKind} {o : Opener} (h : k.openers.head? = some o)
    (ho : o.index? = none) : Moves pos c k ⟨kind, 0, k.closeInterpolation⟩ := by
  refine .keeping rfl ?_
  obtain ⟨rest, hrest⟩ := List.head?_eq_some_iff.1 h
  simp [Control.opened, Control.closeInterpolation, hrest, ho]

theorem moves_openInterpolation {kind : SpanKind} {extent : Nat} {o : Opener}
    (ho : o.index? = none) : Moves pos c k ⟨kind, extent, k.openInterpolation o⟩ :=
  .keeping rfl (by simp [Control.opened, Control.openInterpolation, ho])

theorem moves_closeBracket (hc : c.utf8Size = 1) :
    Moves pos c k ⟨.code, 0, k.closeBracket c pos⟩ := by
  unfold Control.closeBracket
  split
  · exact .keeping rfl rfl
  · next indices hpartner =>
    have hopened := Control.opened_of_partner hpartner
    dsimp only
    split
    · exact .closing indices rfl hc hopened rfl
    · exact .closing indices rfl hc hopened rfl

theorem moves_newline {kind : SpanKind} {extent : Nat} :
    Moves pos c k ⟨kind, extent, k.newline⟩ := by
  unfold Control.newline
  split <;> exact .keeping rfl rfl

theorem moves_leaveElement {kind : SpanKind} {extent : Nat} (depth : UInt32) :
    Moves pos c k ⟨kind, extent, k.leaveElement depth⟩ := by
  unfold Control.leaveElement
  split <;> exact .keeping rfl rfl

theorem moves_stepCode : Moves pos c k (stepCode d k pos c cs) := by
  have keep {st : Step} (hb : st.control.brackets = k.brackets)
      (ho : st.control.opened = k.opened) {p : Prop} : p → Moves pos c k st :=
    fun _ => .keeping hb ho
  refine .ite (keep rfl rfl) <| .ite (keep rfl rfl) <| .ite (keep rfl rfl) <|
    .ite (keep rfl rfl) <| .ite (keep rfl rfl) <| .ite (keep rfl rfl) <|
    .ite ?brace <| .ite ?paren <| .ite ?bracket <|
    .ite (fun h => moves_closeInterpolation h.2 rfl) <|
    .ite (fun h => moves_closeInterpolation h.2 rfl) <| .ite ?close <|
    .ite (keep rfl rfl) <| .ite (fun _ => moves_newline) <| .ite (keep rfl rfl) <|
    .ite (keep rfl rfl) <| .ite (keep rfl rfl) <| .keeping rfl rfl
  case brace => exact fun hc => moves_openBracket (by rw [hc]; rfl)
  case paren => exact fun hc => moves_openBracket (by rw [hc]; rfl)
  case bracket => exact fun hc => moves_openBracket (by rw [hc]; rfl)
  case close =>
    refine fun hc => moves_closeBracket ?_
    rcases hc with hc | hc | hc <;> rw [hc] <;> rfl

theorem moves_step : Moves pos c k (step d k pos c cs) := by
  unfold step
  cases k.mode with
  | code => exact moves_stepCode
  | template =>
    exact .ite (fun _ => .keeping rfl rfl) <| .ite (fun _ => .keeping rfl rfl) <|
      .ite (fun _ => moves_openInterpolation rfl) <| .keeping rfl rfl
  | tag depth closing =>
    refine .ite (fun _ => .keeping rfl rfl) <| .ite (fun _ => moves_openInterpolation rfl) <|
      .ite (fun _ => moves_leaveElement depth) <| .ite (fun _ => ?_) <| .keeping rfl rfl
    cases closing with
    | true => exact moves_leaveElement depth
    | false => exact .keeping rfl rfl
  | children depth =>
    exact .ite (fun _ => .keeping rfl rfl) <| .ite (fun _ => .keeping rfl rfl) <|
      .ite (fun _ => moves_openInterpolation rfl) <| .keeping rfl rfl

end Moves

end Scope
end SourceMend
