import Mathlib.Data.List.Find
import Mathlib.Data.List.TakeWhile
import Mathlib.Data.Nat.Basic
import Mathlib.Order.Monotone.Basic
import SourceMend.Proofs.Scope.Labels
import SourceMend.Proofs.Scope.Relocation

/-!
Frames under a renaming of positions. A frame is settled from its bracket and from the code that
comes next behind it, and the latter can be read off the labels. Renaming the positions of the
brackets renames those of the frames, and an order-preserving renaming finds the same frame.
-/
namespace SourceMend

open Scope (Label Piece)

namespace Scope

theorem labels_moved (φ : Nat → Nat) (ps : List Piece) :
    (ps.map (Piece.moved φ)).flatMap Piece.labels = ps.flatMap Piece.labels := by
  rw [List.flatMap_map]
  rfl

end Scope

/-! The next code, read off the labels -/

/-- The first `n` characters of the first run of code in some labels that does not start with a
blank. -/
def leadingCode (n : Nat) (L : List Label) : Text :=
  (((L.dropWhile fun l => l.1 ≠ .code || ScopeMap.isBlank l.2).takeWhile (·.1 = .code)).map
    Prod.snd).take n

namespace ScopeMap

variable {ps : List Piece}

theorem codeFront_eq (n : Nat) (h : ∀ p ∈ ps, p.text ≠ []) : codeFront n ps =
    (((ps.flatMap Piece.labels).takeWhile (·.1 = .code)).map Prod.snd).take n := by
  induction ps generalizing n with
  | nil => simp [codeFront]
  | cons p ps ih =>
    obtain ⟨hp, hps⟩ := List.forall_mem_cons.1 h
    obtain ⟨kind, start, text⟩ := p
    obtain ⟨c, cs, rfl⟩ := List.exists_cons_of_ne_nil hp
    rw [codeFront, List.flatMap_cons]
    by_cases hkind : kind = .code
    · subst hkind
      by_cases hn : n = 0
      · simp [hn]
      · have hlabels : ∀ l ∈ Piece.labels ⟨.code, start, c :: cs⟩, decide (l.1 = .code) = true := by
          simp [Piece.labels]
        rw [if_neg (by simp [hn]), ih _ hps, List.takeWhile_append_of_pos hlabels, List.map_append,
          Piece.labels, Scope.map_snd_mk, List.take_append]
    · simp [hkind, Piece.labels]

theorem firstCode_eq (n : Nat) (h : ∀ p ∈ ps, p.text ≠ []) :
    firstCode n ps = leadingCode n (ps.flatMap Piece.labels) := by
  induction ps with
  | nil => simp [firstCode, leadingCode]
  | cons p ps ih =>
    obtain ⟨hp, hps⟩ := List.forall_mem_cons.1 h
    obtain ⟨kind, start, text⟩ := p
    rw [firstCode, List.flatMap_cons, leadingCode, List.dropWhile_append]
    by_cases hkind : kind = .code
    · subst hkind
      have hdrop : (Piece.labels ⟨.code, start, text⟩).dropWhile
          (fun l => l.1 ≠ .code || isBlank l.2) = (text.dropWhile isBlank).map (Prod.mk .code) := by
        rw [Piece.labels, List.dropWhile_map]
        rfl
      rw [hdrop]
      cases hblank : text.dropWhile isBlank with
      | nil => simpa [leadingCode] using ih hps
      | cons c cs =>
        have hne : ∀ p ∈ (⟨.code, start, c :: cs⟩ : Piece) :: ps, p.text ≠ [] :=
          List.forall_mem_cons.2 ⟨List.cons_ne_nil c cs, hps⟩
        simpa [Piece.labels] using codeFront_eq n hne
    · have hdrop : (Piece.labels ⟨kind, start, text⟩).dropWhile
          (fun l => l.1 ≠ .code || isBlank l.2) = [] := by
        refine List.dropWhile_eq_nil_iff.2 ?_
        simp [Piece.labels, hkind]
      rw [hdrop]
      cases text.dropWhile isBlank <;> simpa [hkind, leadingCode] using ih hps

end ScopeMap

/-- Whatever literal stands between, the code that comes next is the same. -/
theorem leadingCode_literal (n : Nat) (L R : List Label) {kind : SpanKind} (hkind : kind ≠ .code)
    {s t : Text} (hs : s ≠ []) (ht : t ≠ []) :
    leadingCode n (L ++ (s.map (Prod.mk kind) ++ R)) =
      leadingCode n (L ++ (t.map (Prod.mk kind) ++ R)) := by
  have hread {u : Text} (hu : u ≠ []) : leadingCode n (L ++ (u.map (Prod.mk kind) ++ R)) =
      if (L.dropWhile fun l => l.1 ≠ .code || ScopeMap.isBlank l.2).isEmpty then leadingCode n R
      else leadingCode n L := by
    obtain ⟨c, cs, rfl⟩ := List.exists_cons_of_ne_nil hu
    have hdrop : ∀ l ∈ (c :: cs).map (Prod.mk kind),
        (l.1 ≠ .code || ScopeMap.isBlank l.2) = true := by
      simp [hkind]
    simp only [leadingCode]
    rw [List.dropWhile_append, List.dropWhile_append_of_pos hdrop]
    split
    · rfl
    · -- The code before the literal ends where the literal starts.
      rw [List.map_cons, List.cons_append, takeWhile_stop (by simpa using hkind)]
  rw [hread hs, hread ht]

/-! Frames -/

def Frame.moved (φ : Nat → Nat) (f : Frame) : Frame :=
  { f with start := φ f.start, stop := φ f.stop }

namespace ScopeMap

theorem codeAfter_eq {ps : List Piece} (h : ∀ p ∈ ps, p.text ≠ []) (pos : Nat) :
    codeAfter ps pos = leadingCode 2 ((ps.dropWhile (·.start < pos)).flatMap Piece.labels) :=
  firstCode_eq 2 fun p hp => h p ((List.dropWhile_sublist _).subset hp)

/-- A frame is settled in the same way if the same code comes next behind its bracket. -/
theorem settle_moved {φ : Nat → Nat} {ps ps' : List Piece} (brackets : Array Bracket) (size : Nat)
    {b : Bracket} (h : ∀ p ∈ b.stop, codeAfter ps' (φ p + 1) = codeAfter ps (p + 1)) :
    settle (brackets.map (Bracket.moved φ)) ps' (φ size) (b.moved φ) =
      (settle brackets ps size b).moved φ := by
  have hparent : ((b.parent.bind ((brackets.map (Bracket.moved φ))[·]?)).map
      (·.kind.isDeclarationBody)) =
      (b.parent.bind (brackets[·]?)).map (·.kind.isDeclarationBody) := by
    cases b.parent with
    | none => rfl
    | some i => simp [Function.comp_def, Bracket.moved]
  have hparams : isParamList (brackets.map (Bracket.moved φ)) ps' (b.moved φ) =
      isParamList brackets ps b := by
    obtain ⟨kind, start, stop, parent, hint⟩ := b
    simp only [isParamList, Bracket.moved] at h hparent ⊢
    rw [hparent]
    cases stop with
    | none => rfl
    | some p => simp only [Option.map_some, h p rfl]
  have hstop : (b.stop.map φ).getD (φ size) = φ (b.stop.getD size) := by
    cases b.stop <;> rfl
  unfold settle
  rw [hparams]
  exact congrArg (Frame.mk _ _) hstop

/-- Renaming the positions of the brackets renames those of the frames. -/
theorem frames_moved {φ : Nat → Nat} {s s' : Scope.State}
    (hbrackets : s'.control.brackets = s.control.brackets.map (Bracket.moved φ))
    (hpos : s'.pos = φ s.pos)
    (hnext : ∀ b ∈ s.control.brackets, ∀ p ∈ b.stop,
      codeAfter s'.pieces.reverse (φ p + 1) = codeAfter s.pieces.reverse (p + 1)) :
    (ofState s').frames = (ofState s).frames.map (Frame.moved φ) := by
  simp only [ofState, hbrackets, hpos, Array.toList_map, List.map_map]
  refine List.map_congr_left fun b hb => ?_
  exact settle_moved _ _ (hnext b (by simpa using hb))

/-- An order-preserving renaming finds the same innermost frame. -/
theorem frameAt_moved {φ : Nat → Nat} {D : Set Nat} (hφ : StrictMonoOn φ D) {m m' : ScopeMap}
    (hframes : m'.frames = m.frames.map (Frame.moved φ)) (hsize : m'.size = φ m.size)
    (hin : ∀ f ∈ m.frames, f.start ∈ D ∧ f.stop ∈ D) (hend : m.size ∈ D) {o : Nat} (ho : o ∈ D) :
    m'.frameAt (φ o) = m.frameAt o := by
  have hsame : ∀ f ∈ m.frames.reverse, ((f.moved φ).encloses (φ o) && decide (φ o ≤ m'.size)) =
      (f.encloses o && decide (o ≤ m.size)) := by
    intro f hf
    obtain ⟨hstart, hstop⟩ := hin f (List.mem_reverse.1 hf)
    simp only [Frame.encloses, Frame.moved, hsize, hφ.lt_iff_lt hstart ho, hφ.le_iff_le ho hstop,
      hφ.le_iff_le ho hend]
  rw [frameAt, frameAt, hframes, ← List.map_reverse, List.find?_map, Option.map_map]
  exact congrArg (Option.map (·.kind)) (List.find?_congr hsame)

end ScopeMap
end SourceMend
