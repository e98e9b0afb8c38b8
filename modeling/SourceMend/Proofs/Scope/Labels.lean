import SourceMend.Proofs.Scope.Passes
import SourceMend.Scope.Map

/-!
Labels. The scanner gives every character of a text the kind of the token that it belongs to. The
spans of the scope map are the maximal runs of one kind, so the literals of a text and the places
that are code can be read off the labels, without bytes and spans.
-/
namespace SourceMend

section Stop

variable {α : Type} {p : α → Bool} {x : α} (hx : p x = false) (u v : List α)

include hx

theorem takeWhile_stop : (u ++ x :: v).takeWhile p = u.takeWhile p := by
  induction u with
  | nil => simp [hx]
  | cons y u ih => rw [List.cons_append, List.takeWhile_cons, List.takeWhile_cons, ih]

theorem dropWhile_stop : (u ++ x :: v).dropWhile p = u.dropWhile p ++ x :: v := by
  induction u with
  | nil => simp [hx]
  | cons y u ih =>
    rw [List.cons_append, List.dropWhile_cons, List.dropWhile_cons, ih]
    split <;> rfl

end Stop

namespace Scope

/-- A character with the kind of the token that holds it. -/
abbrev Label := SpanKind × Char

/-- The labels of what is left of a text when the memory is `k` at byte `pos`. -/
def labels (d : Dialect) (k : Control) (pos : Nat) : Text → List Label
  | [] => []
  | c :: cs =>
    let st := step d k pos c cs
    (c :: cs.take st.extent).map (Prod.mk st.kind) ++
      labels d st.control (pos + Text.size (c :: cs.take st.extent)) (cs.drop st.extent)
termination_by text => text.length
decreasing_by
  simp only [List.length_drop, List.length_cons]
  omega

theorem map_snd_mk (kind : SpanKind) (t : Text) : (t.map (Prod.mk kind)).map Prod.snd = t := by
  simp [Function.comp_def]

theorem map_snd_labels (d : Dialect) (k : Control) (pos : Nat) (text : Text) :
    (labels d k pos text).map Prod.snd = text := by
  fun_induction labels d k pos text with
  | case1 => rfl
  | case2 k pos c cs st ih =>
    rw [List.map_append, map_snd_mk, ih, List.cons_append, List.take_append_drop]

def Piece.labels (p : Piece) : List Label := p.text.map (Prod.mk p.kind)

/-- Pieces that stand side by side from byte `pos` on. -/
inductive Tiled : Nat → List Piece → Prop
  | nil (pos : Nat) : Tiled pos []
  | cons {kind : SpanKind} {pos : Nat} {t : Text} {ps : List Piece} :
    t ≠ [] → Tiled (pos + Text.size t) ps → Tiled pos (⟨kind, pos, t⟩ :: ps)

/-- Between two points that it passes, a run adds pieces side by side that hold the labels of what
it reads there. -/
theorem State.Passes.pieces {d : Dialect} {s t : State} (h : Passes d s t) : ∃ ps : List Piece,
    t.pieces.reverse = s.pieces.reverse ++ ps ∧ Tiled s.pos ps ∧
      t.pos = s.pos + Text.size (ps.flatMap Piece.text) ∧
      labels d s.control s.pos s.rest =
        ps.flatMap Piece.labels ++ labels d t.control t.pos t.rest := by
  induction h with
  | here s => exact ⟨[], by simp, .nil _, by simp, by simp⟩
  | @next s t h _ ih =>
    obtain ⟨rest, pos, pieces, k⟩ := s
    obtain ⟨c, cs, rfl⟩ := List.exists_cons_of_ne_nil h
    obtain ⟨ps, hpieces, htiled, hpos, hlabels⟩ := ih
    let st := step d k pos c cs
    refine ⟨⟨st.kind, pos, c :: cs.take st.extent⟩ :: ps, ?_, .cons (by simp) htiled, ?_, ?_⟩
    · rw [hpieces, State.advance, List.reverse_cons, List.append_assoc]
      rfl
    · rw [hpos, List.flatMap_cons, Text.size_append, ← Nat.add_assoc]
      rfl
    · rw [List.flatMap_cons, List.append_assoc, ← hlabels, labels]
      rfl

theorem Tiled.of_mem {pos : Nat} {ps : List Piece} (h : Tiled pos ps) {p : Piece} (hp : p ∈ ps) :
    p.text ≠ [] ∧ pos ≤ p.start ∧ p.start < pos + Text.size (ps.flatMap Piece.text) := by
  induction h with
  | nil => cases hp
  | @cons kind pos t ps ht _ ih =>
    have hsize := Text.size_pos ht
    rw [List.flatMap_cons, Text.size_append]
    rcases List.mem_cons.1 hp with rfl | hp
    · refine ⟨ht, Nat.le_refl _, ?_⟩
      dsimp only
      omega
    · obtain ⟨htext, hle, hlt⟩ := ih hp
      dsimp only at hle hlt ⊢
      exact ⟨htext, by omega, by omega⟩

theorem State.Passes.of_mem {d : Dialect} {s t : State} (h : Passes d s t) (hs : s.pieces = [])
    {p : Piece} (hp : p ∈ t.pieces) : p.text ≠ [] ∧ s.pos ≤ p.start ∧ p.start < t.pos := by
  obtain ⟨ps, hpieces, htiled, hpos, -⟩ := h.pieces
  rw [hs, List.reverse_nil, List.nil_append] at hpieces
  rw [hpos]
  refine htiled.of_mem ?_
  rwa [← hpieces, List.mem_reverse]

end Scope

open Scope (Label Piece Tiled)

/-- The maximal runs of one kind from byte `pos` on, as spans and as labels. -/
inductive Covers : Nat → List Span → List Label → Prop
  | nil (pos : Nat) : Covers pos [] []
  | cons {kind : SpanKind} {pos : Nat} {t : Text} {spans : List Span} {L : List Label} :
    t ≠ [] → (∀ l ∈ L.head?, l.1 ≠ kind) → Covers (pos + Text.size t) spans L →
    Covers pos (⟨kind, pos, pos + Text.size t⟩ :: spans) (t.map (Prod.mk kind) ++ L)

theorem covers_joinPieces {pos : Nat} {ps : List Piece} (h : Tiled pos ps) :
    Covers pos (ScopeMap.joinPieces ps) (ps.flatMap Piece.labels) := by
  induction h with
  | nil => exact .nil _
  | @cons kind pos t ps ht _ ih =>
    rw [ScopeMap.joinPieces, List.flatMap_cons]
    revert ih
    generalize ps.flatMap Piece.labels = L
    generalize ScopeMap.joinPieces ps = spans
    intro ih
    cases ih with
    | nil => exact .cons ht (by simp) (.nil _)
    | @cons kind' _ u spans L hu hhead hcov =>
      obtain ⟨c, u, rfl⟩ := List.exists_cons_of_ne_nil hu
      simp only
      split
      · next hkind =>
        subst hkind
        have hsize : pos + Text.size t + Text.size (c :: u) = pos + Text.size (t ++ c :: u) := by
          simp only [Text.size_append]
          omega
        rw [hsize] at hcov ⊢
        rw [Piece.labels, ← List.append_assoc, ← List.map_append]
        exact .cons (by simp [ht]) hhead hcov
      · next hkind =>
        exact .cons ht (by simpa using hkind) (.cons (List.cons_ne_nil c u) hhead hcov)

theorem covers_scan (text : Text) (d : Dialect) :
    Covers 0 (ScopeMap.scan text d).spans (Scope.labels d {} 0 text) := by
  obtain ⟨ps, hrun, htiled, -, hlabels⟩ := (Scope.State.passes_run d { rest := text }).pieces
  rw [hlabels, ScopeMap.scan, ScopeMap.ofState, hrun, Scope.State.rest_run, Scope.labels,
    List.append_nil]
  exact covers_joinPieces htiled

/-- The text of a span. -/
def Span.textIn (s : Span) (text : Text) : Text :=
  Text.takeBytes (s.stop - s.start) (Text.dropBytes s.start text)

/-- The literals of a text: the kind and the text of each span that is not code, in order. -/
def literals (text : Text) (d : Dialect) : List (SpanKind × Text) :=
  ((ScopeMap.scan text d).spans.filter (·.kind ≠ .code)).map fun s => (s.kind, s.textIn text)

/-- The maximal runs of one kind other than code. -/
def literalRuns : List Label → List (SpanKind × Text)
  | [] => []
  | (kind, c) :: L =>
    if kind = .code then literalRuns L
    else (kind, c :: (L.takeWhile (·.1 = kind)).map Prod.snd) ::
      literalRuns (L.dropWhile (·.1 = kind))
termination_by L => L.length
decreasing_by
  · simp
  · have := (List.dropWhile_sublist (l := L) fun l => l.1 = kind).length_le
    simp only [List.length_cons]
    omega

theorem literalRuns_code (t : Text) (L : List Label) :
    literalRuns (t.map (Prod.mk .code) ++ L) = literalRuns L := by
  induction t with
  | nil => rfl
  | cons c t ih => rw [List.map_cons, List.cons_append, literalRuns, if_pos rfl, ih]

theorem literalRuns_run {kind : SpanKind} {t : Text} {L : List Label} (hkind : kind ≠ .code)
    (ht : t ≠ []) (hL : ∀ l ∈ L.head?, l.1 ≠ kind) :
    literalRuns (t.map (Prod.mk kind) ++ L) = (kind, t) :: literalRuns L := by
  obtain ⟨c, t, rfl⟩ := List.exists_cons_of_ne_nil ht
  have htake : (t.map (Prod.mk kind) ++ L).takeWhile (·.1 = kind) = t.map (Prod.mk kind) := by
    rw [List.takeWhile_append_of_pos (by simp)]
    cases L with
    | nil => simp
    | cons l L => rw [List.takeWhile_cons_of_neg (by simpa using hL), List.append_nil]
  have hdrop : (t.map (Prod.mk kind) ++ L).dropWhile (·.1 = kind) = L := by
    rw [List.dropWhile_append_of_pos (by simp)]
    cases L with
    | nil => rfl
    | cons l L => exact List.dropWhile_cons_of_neg (by simpa using hL)
  rw [List.map_cons, List.cons_append, literalRuns, if_neg hkind, htake, hdrop, Scope.map_snd_mk]

theorem Covers.literalRuns {pos : Nat} {spans : List Span} {L : List Label}
    (h : Covers pos spans L) (before : Text) {text : Text} (hpos : Text.size before = pos)
    (htext : text = before ++ L.map Prod.snd) :
    (spans.filter (·.kind ≠ .code)).map (fun s => (s.kind, s.textIn text)) =
      SourceMend.literalRuns L := by
  induction h generalizing before with
  | nil => simp [SourceMend.literalRuns]
  | @cons kind pos t spans L ht hhead _ ih =>
    rw [List.map_append, Scope.map_snd_mk, ← List.append_assoc] at htext
    have hrest := ih (before ++ t) (by simp [hpos]) htext
    by_cases hkind : kind = .code
    · subst hkind
      rw [literalRuns_code, ← hrest]
      simp
    · have hin : Span.textIn ⟨kind, pos, pos + Text.size t⟩ text = t := by
        rw [Span.textIn, Nat.add_sub_cancel_left, ← hpos, htext, List.append_assoc,
          Text.dropBytes_size_append, Text.takeBytes_size_append]
      rw [literalRuns_run hkind ht hhead, List.filter_cons_of_pos (by simpa using hkind),
        List.map_cons, hin, hrest]

/-- The literals of a text are the runs of its labels that are not code. -/
theorem literals_eq (text : Text) (d : Dialect) :
    literals text d = literalRuns (Scope.labels d {} 0 text) :=
  (covers_scan text d).literalRuns [] rfl (Scope.map_snd_labels d {} 0 text).symm

/-- Code separates runs. -/
theorem literalRuns_append_code (L : List Label) (c : Char) (R : List Label) :
    literalRuns (L ++ (.code, c) :: R) = literalRuns L ++ literalRuns R := by
  fun_induction literalRuns L with
  | case1 => rw [List.nil_append, literalRuns, if_pos rfl, List.nil_append]
  | case2 x L ih => rw [List.cons_append, literalRuns, if_pos rfl, ih]
  | case3 kind x L hkind ih =>
    have hstop : decide (SpanKind.code = kind) = false := by simpa using fun h => hkind h.symm
    rw [List.cons_append, literalRuns, if_neg hkind,
      takeWhile_stop (p := fun l : Label => l.1 = kind) hstop,
      dropWhile_stop (p := fun l : Label => l.1 = kind) hstop, ih, List.cons_append]

/-- Between two parts of a text, the literals do not depend on which code stands there. -/
theorem literalRuns_swap_code (L R : List Label) {s t : Text} (hs : s ≠ []) (ht : t ≠ []) :
    literalRuns (L ++ s.map (Prod.mk .code) ++ R) =
      literalRuns (L ++ t.map (Prod.mk .code) ++ R) := by
  have hsplit {u : Text} (hu : u ≠ []) :
      literalRuns (L ++ u.map (Prod.mk .code) ++ R) = literalRuns L ++ literalRuns R := by
    obtain ⟨c, u, rfl⟩ := List.exists_cons_of_ne_nil hu
    rw [List.append_assoc, List.map_cons, List.cons_append, literalRuns_append_code,
      literalRuns_code]
  rw [hsplit hs, hsplit ht]

section Code

variable {pos : Nat} {spans : List Span}

theorem Covers.dropWhile_eq {L : List Label} (h : Covers pos spans L) {a : Nat} (ha : a ≤ pos) :
    spans.dropWhile (·.stop ≤ a) = spans := by
  cases h with
  | nil => rfl
  | @cons _ _ t _ _ ht =>
    have := Text.size_pos ht
    exact List.dropWhile_cons_of_neg (by simp; omega)

/-- The span around a character is among those between two bytes around it. -/
theorem Covers.exists_span {L R : List Label} {l : Label} (h : Covers pos spans (L ++ l :: R))
    {a b : Nat} (ha : a ≤ pos + Text.size (L.map Prod.snd))
    (hb : pos + Text.size (L.map Prod.snd) < b) :
    ∃ s ∈ (spans.dropWhile (·.stop ≤ a)).takeWhile (·.start < b), s.kind = l.1 := by
  generalize hM : L ++ l :: R = M at h
  induction h generalizing L with
  | nil => simp at hM
  | @cons kind pos t spans M ht hhead hcov ih =>
    have hbehind (T : List Label) (hL : L = t.map (Prod.mk kind) ++ T) (hT : T ++ l :: R = M) :
        ∃ s ∈ ((⟨kind, pos, pos + Text.size t⟩ :: spans).dropWhile (·.stop ≤ a)).takeWhile
          (·.start < b), s.kind = l.1 := by
      rw [hL, List.map_append, Scope.map_snd_mk, Text.size_append, ← Nat.add_assoc] at ha hb
      obtain ⟨s, hs, hkind⟩ := ih ha hb hT
      refine ⟨s, ?_, hkind⟩
      by_cases hstop : pos + Text.size t ≤ a
      · rwa [List.dropWhile_cons_of_pos (by simpa using hstop)]
      · rw [hcov.dropWhile_eq (by omega)] at hs
        rw [List.dropWhile_cons_of_neg (by simpa using hstop),
          List.takeWhile_cons_of_pos (by simp; omega)]
        exact List.mem_cons_of_mem _ hs
    rcases List.append_eq_append_iff.1 hM with ⟨T, hT, hR⟩ | ⟨T, hL, hT⟩
    · cases T with
      | nil => exact hbehind [] (by simpa using hT.symm) (by simpa using hR)
      | cons l' T =>
        obtain ⟨rfl, -⟩ : l = l' ∧ R = T ++ M := by simpa using hR
        have hsize : Text.size t =
            Text.size (L.map Prod.snd) + Text.size (l.2 :: T.map Prod.snd) := by
          rw [← Text.size_append, ← Scope.map_snd_mk kind t, hT]
          simp
        have hchar := Char.utf8Size_pos l.2
        rw [Text.size_cons] at hsize
        have hmem : l ∈ t.map (Prod.mk kind) := by simp [hT]
        obtain ⟨c, -, rfl⟩ := List.mem_map.1 hmem
        refine ⟨⟨kind, pos, pos + Text.size t⟩, ?_, rfl⟩
        rw [List.dropWhile_cons_of_neg (by simp; omega),
          List.takeWhile_cons_of_pos (by simp; omega)]
        exact List.mem_cons_self
    · exact hbehind T hL hT.symm

/-- Where the scope map says that a part of a text is code, its labels are code. -/
theorem labels_of_isCode {before old after : Text} {d : Dialect} {L M R : List Label}
    (hcode : (ScopeMap.scan (before ++ old ++ after) d).isCode (Text.size before)
      (Text.size (before ++ old)) = true)
    (hL : L.map Prod.snd = before) (hM : M.map Prod.snd = old)
    (hlabels : Scope.labels d {} 0 (before ++ old ++ after) = L ++ M ++ R) :
    M = old.map (Prod.mk .code) := by
  have hcov := covers_scan (before ++ old ++ after) d
  rw [hlabels] at hcov
  have hall : ∀ l ∈ M, l.1 = .code := by
    intro l hl
    obtain ⟨M₁, M₂, rfl⟩ := List.append_of_mem hl
    have hsize : Text.size (before ++ old) = Text.size before + (Text.size (M₁.map Prod.snd) +
        Text.size (l.2 :: M₂.map Prod.snd)) := by
      rw [← Text.size_append, ← Text.size_append, ← hM]
      simp
    have hchar := Char.utf8Size_pos l.2
    rw [Text.size_cons] at hsize
    rw [ScopeMap.isCode, if_neg (by omega), List.all_eq_true] at hcode
    rw [show L ++ (M₁ ++ l :: M₂) ++ R = L ++ M₁ ++ l :: (M₂ ++ R) by simp] at hcov
    obtain ⟨s, hs, hkind⟩ := hcov.exists_span (a := Text.size before)
      (b := Text.size (before ++ old)) (by simp [hL])
      (by rw [hsize, List.map_append, Text.size_append, hL]; omega)
    rw [← hkind]
    simpa using hcode s hs
  rw [← hM, List.map_map]
  refine (List.map_id M).symm.trans (List.map_congr_left fun l hl => ?_)
  exact Prod.ext (hall l hl) rfl

end Code
end SourceMend
