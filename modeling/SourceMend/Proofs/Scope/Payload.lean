import SourceMend.Proofs.Scope.Displacement
import SourceMend.Proofs.Scope.Locality

/-!
The payload of a literal is its own. What the scanner finds out about the rest of a text does not
depend on what stands inside a literal: up to the literal both runs read the same, behind it they
read the same with positions displaced, and no bracket stands inside.
-/
namespace SourceMend

open Scope (Piece Control State)

/-! The run up to the literal -/

namespace Scope

variable {d : Dialect} {x : Char} {v : Text} {k : Control} {pos : Nat} {c : Char} {cs : Text}

/-- A token that ends before a certain character is read in the same way whatever follows that
character. -/
theorem State.advance_front (hx : Swap x x) (w : Text) (ps : List Piece) {st : Step}
    (hst : step d k pos c (cs ++ x :: v) = st) (hextent : st.extent ≤ cs.length) :
    advance d ⟨c :: cs ++ x :: w, pos, ps, k⟩ =
      ⟨cs.drop st.extent ++ x :: w, pos + Text.size (c :: cs.take st.extent),
        ⟨st.kind, pos, c :: cs.take st.extent⟩ :: ps, st.control⟩ := by
  have hsame : step d k pos c (cs ++ x :: w) = st := by
    rw [step_local hx k c cs d pos (hst ▸ hextent), hst]
  simp only [advance, List.cons_append, hsame, List.take_append_of_le_length hextent,
    List.drop_append_of_le_length hextent]

/-- A token that does not end before a character takes it in. -/
theorem State.pos_lt_advance_over (ps : List Piece) {st : Step}
    (hst : step d k pos c (cs ++ x :: v) = st) (hextent : cs.length < st.extent) :
    pos + Text.size (c :: cs) < (advance d ⟨c :: cs ++ x :: v, pos, ps, k⟩).pos := by
  have hchar := Char.utf8Size_pos x
  simp only [advance, List.cons_append, hst, take_append_cons v hextent, Text.size_cons,
    Text.size_append]
  omega

/-- Up to a token that starts with a certain character, a run does not depend on what follows that
character. -/
theorem State.Passes.front (hx : Swap x x) (w : Text) {s t : State} (h : Passes d s t) {A : Text}
    (hs : s.rest = A ++ x :: v) (ht : t.pos = s.pos + Text.size A) :
    t.rest = x :: v ∧ Passes d { s with rest := A ++ x :: w } { t with rest := x :: w } := by
  induction h generalizing A with
  | here s =>
    obtain rfl : A = [] := (Text.size_eq_zero_iff A).1 (by omega)
    exact ⟨hs, .here _⟩
  | @next s t hrest hpass ih =>
    have hlt := pos_lt_advance (d := d) hrest
    have hle := hpass.pos_le
    obtain ⟨rest, pos, pieces, k⟩ := s
    obtain rfl : rest = A ++ x :: v := hs
    cases A with
    | nil =>
      rw [Text.size_nil] at ht
      omega
    | cons c cs =>
      obtain ⟨st, hst⟩ : ∃ st, step d k pos c (cs ++ x :: v) = st := ⟨_, rfl⟩
      have hextent : st.extent ≤ cs.length := by
        refine Nat.not_lt.1 fun hover => ?_
        have hpos := pos_lt_advance_over pieces hst hover
        dsimp only at ht
        omega
      rw [advance_front hx v pieces hst hextent] at ih
      have hsize : Text.size (c :: cs) =
          Text.size (c :: cs.take st.extent) + Text.size (cs.drop st.extent) := by
        rw [← Text.size_append, List.cons_append, List.take_append_drop]
      obtain ⟨hat, hfront⟩ := ih rfl (by rw [ht, hsize, Nat.add_assoc])
      refine ⟨hat, .next (by simp) ?_⟩
      rwa [advance_front hx w pieces hst hextent]

/-- The scanner starts a token of code at byte `pos`. -/
def StartsInCode (d : Dialect) (text : Text) (pos : Nat) : Prop :=
  ∃ s, State.Passes d { rest := text } s ∧ s.rest ≠ [] ∧ s.pos = pos ∧ s.control.mode = .code

/-- The character that a literal starts with ends whatever stands before it. -/
theorem exists_write (f : LiteralForm) : ∃ x, Swap x x ∧ ∀ p, ∃ u, f.write p = x :: u := by
  have hself {x : Char} (hx : Token.isIdentContinue x = false ∧ Token.isNumberContinue x = false ∧
      x ≠ '\n') : Swap x x :=
    ⟨⟨hx.1, hx.1⟩, ⟨hx.2.1, hx.2.1⟩, ⟨hx.2.2, hx.2.2⟩, fun _ _ => Iff.rfl⟩
  cases f with
  | string q hq => exact ⟨q, hself (by rcases hq with rfl | rfl <;> decide), fun p => ⟨_, rfl⟩⟩
  | lineComment => exact ⟨'/', hself (by decide), fun p => ⟨_, rfl⟩⟩
  | blockComment => exact ⟨'/', hself (by decide), fun p => ⟨_, rfl⟩⟩
  | template => exact ⟨'`', hself (by decide), fun p => ⟨_, rfl⟩⟩

/-- A run that reads `t` between `A` and `B` as text of one kind: the pieces in `front` up to it,
those in `mid` for it, and `B` from the memory `k` on. -/
structure Splits (d : Dialect) (A t B : Text) (kind : SpanKind) (front mid : List Piece)
    (k : Control) : Prop where
  fills : Fills (Text.size A) (Text.size (A ++ t)) kind t mid.reverse
  run_eq : ({ rest := A ++ t ++ B } : State).run d =
    (({ rest := B, pos := Text.size (A ++ t), control := k } : State).run d).behind (mid ++ front)
  labels_eq : labels d {} 0 (A ++ t ++ B) =
    front.reverse.flatMap Piece.labels ++
      (t.map (Prod.mk kind) ++ labels d k (Text.size (A ++ t)) B)

theorem State.Passes.splits {A B p : Text} {f : LiteralForm} {front : List Piece} {k : Control}
    (h : Passes d { rest := A ++ f.write p ++ B } ⟨f.write p ++ B, Text.size A, front, k⟩)
    (hmode : k.mode = .code) (hp : f.Payload p) (hB : f.Followed B) :
    ∃ mid, Splits d A (f.write p) B f.kind front mid (k.behindLiteral f) := by
  have hliteral : ReadsAs d f.kind k (Text.size A) (f.write p) B (k.behindLiteral f) :=
    readsAs_write hmode hp hB
  obtain ⟨mid, hread, hfills, hlabels⟩ := hliteral.exists_fills
  rw [← Text.size_append] at hread hfills hlabels
  refine ⟨mid, hfills, ?_, ?_⟩
  · rw [h.run_eq, ← State.run_behind]
    exact (hread.behind front).run_eq
  · obtain ⟨ps, hps, -, -, hall⟩ := h.pieces
    obtain rfl : front.reverse = ps := hps
    rw [← hlabels]
    exact hall

theorem Control.Within.behindLiteral {P : Nat → Prop} {k : Control} (h : k.Within P)
    (f : LiteralForm) : (k.behindLiteral f).Within P := by
  cases f <;> exact h

/-- Where a literal starts in code, the run comes to the same point with another payload. -/
theorem StartsInCode.fork {A B p : Text} {f : LiteralForm}
    (h : StartsInCode d (A ++ f.write p ++ B) (Text.size A)) (q : Text) :
    ∃ ps k, (∀ c ∈ ps, c.text ≠ [] ∧ c.start < Text.size A) ∧
      k.Within (· < Text.size A) ∧ k.mode = .code ∧
      State.Passes d { rest := A ++ f.write p ++ B } ⟨f.write p ++ B, Text.size A, ps, k⟩ ∧
      State.Passes d { rest := A ++ f.write q ++ B } ⟨f.write q ++ B, Text.size A, ps, k⟩ := by
  obtain ⟨x, hx, hwrite⟩ := exists_write f
  obtain ⟨u, hu⟩ := hwrite p
  obtain ⟨w, hw⟩ := hwrite q
  obtain ⟨⟨rest, pos, ps, k⟩, hpass, -, hpos, hmode⟩ := h
  obtain rfl : pos = Text.size A := hpos
  have htext : A ++ f.write p ++ B = A ++ x :: (u ++ B) := by simp [hu]
  obtain ⟨hrest, hfront⟩ := hpass.front hx (w ++ B) htext (by simp)
  obtain rfl : rest = x :: (u ++ B) := hrest
  refine ⟨ps, k, ?_, hpass.within ?_ fun p _ hp => hp, hmode, ?_, ?_⟩
  · intro c hc
    obtain ⟨htext, -, hlt⟩ := hpass.of_mem rfl hc
    exact ⟨htext, hlt⟩
  · simp [Control.Within]
  · rw [hu] at hpass ⊢
    exact hpass
  · rwa [hw, List.append_assoc]

end Scope

theorem LiteralForm.kind_ne_code (f : LiteralForm) : f.kind ≠ .code := by
  cases f <;> exact SpanKind.noConfusion

theorem LiteralForm.write_ne_nil (f : LiteralForm) (p : Text) : f.write p ≠ [] := by
  obtain ⟨x, -, hwrite⟩ := Scope.exists_write f
  obtain ⟨u, hu⟩ := hwrite p
  rw [hu]
  exact List.cons_ne_nil x u

section Payload

variable {d : Dialect} {A B s t : Text} {kind : SpanKind} {front mid mid' : List Piece}
  {k : Control} (h : Scope.Splits d A s B kind front mid k)
  (h' : Scope.Splits d A t B kind front mid' k) (hs : s ≠ []) (ht : t ≠ [])

include h h' hs ht

theorem ScopeMap.kindAt_swap :
    (∀ o ≤ Text.size A, (scan (A ++ t ++ B) d).kindAt o = (scan (A ++ s ++ B) d).kindAt o) ∧
    ∀ o, (scan (A ++ t ++ B) d).kindAt (Text.size (A ++ t) + o) =
      (scan (A ++ s ++ B) d).kindAt (Text.size (A ++ s) + o) := by
  have hbefore : (front.reverse.flatMap Piece.labels).map Prod.snd = A := by
    have hsnd := congrArg (List.map Prod.snd) h.labels_eq
    simp only [Scope.map_snd_labels, List.map_append, Scope.map_snd_mk, List.append_assoc] at hsnd
    exact (List.append_cancel_right hsnd).symm
  have hrest := Scope.labels_alike (k := k) ⟨⟨rfl, rfl, fun _ => rfl⟩, rfl⟩ d
    (Text.size (A ++ t)) (Text.size (A ++ s)) B
  simp only [kindAt_scan, h.labels_eq, h'.labels_eq, hrest]
  exact kindAtByte_around hbefore hs ht

theorem ScopeMap.frameAt_swap (hkind : kind ≠ .code)
    (hfront : ∀ c ∈ front, c.text ≠ [] ∧ c.start < Text.size A) (hk : k.Within (· < Text.size A)) :
    (∀ o ≤ Text.size A, (scan (A ++ t ++ B) d).frameAt o = (scan (A ++ s ++ B) d).frameAt o) ∧
    ∀ o, (scan (A ++ t ++ B) d).frameAt (Text.size (A ++ t) + o) =
      (scan (A ++ s ++ B) d).frameAt (Text.size (A ++ s) + o) := by
  have hsize {u : Text} (hu : u ≠ []) : Text.size A < Text.size (A ++ u) := by
    have hpos := Text.size_pos hu
    rw [Text.size_append]
    omega
  let φ := displace (Text.size A) (Text.size (A ++ s)) (Text.size (A ++ t))
  let behind : State := { rest := B, pos := Text.size (A ++ s), control := k }
  have hshift (n : Nat) : φ (Text.size (A ++ s) + n) = Text.size (A ++ t) + n :=
    displace_add (hsize hs) n
  have hfix (p : Nat) (hp : p ≤ Text.size A) : φ p = p := displace_of_le hp
  have hmoved : (behind.run d).moved φ =
      ({ rest := B, pos := Text.size (A ++ t), control := k } : State).run d := by
    have hk' : k.moved φ = k :=
      Control.Within.moved_eq (hk.mono fun p hp => hfix p (Nat.le_of_lt hp))
    have hstop : φ behind.pos = Text.size (A ++ t) := hshift 0
    rw [← State.run_moved fun n => by rw [hstop]; exact hshift n, State.moved, hstop]
    simp only [behind, hk']
    rfl
  have hpass := State.passes_run d behind
  have hsame (o : Nat) (ho : o ≤ Text.size A ∨ Text.size (A ++ s) ≤ o) :
      (scan (A ++ t ++ B) d).frameAt (φ o) = (scan (A ++ s ++ B) d).frameAt o := by
    rw [scan, scan, h.run_eq, h'.run_eq, ← hmoved]
    refine frameAt_displace (hsize hs) (hsize ht) hkind hs ht hfront h.fills h'.fills ?_ ?_ ?_ ho
    · intro c hc
      obtain ⟨htext, hle, -⟩ := hpass.of_mem rfl hc
      exact ⟨htext, hle⟩
    · exact hpass.within (hk.mono fun p hp => .inl hp) fun p hp _ => .inr hp
    · exact hpass.pos_le
  constructor
  · intro o ho
    have hat := hsame o (.inl ho)
    rwa [hfix o ho] at hat
  · intro o
    have hat := hsame (Text.size (A ++ s) + o) (.inr (Nat.le_add_right _ _))
    rwa [hshift] at hat

end Payload

/-- The payload of a literal that starts in code is its own: with another payload the literal starts
in code as well, and the kind of text and the frame are the same at each byte up to the start of the
literal and at each byte behind it, counted from its end. -/
theorem ScopeMap.scan_payload {d : Dialect} {f : LiteralForm} {A B p q : Text} (hp : f.Payload p)
    (hq : f.Payload q) (hB : f.Followed B)
    (h : Scope.StartsInCode d (A ++ f.write p ++ B) (Text.size A)) :
    Scope.StartsInCode d (A ++ f.write q ++ B) (Text.size A) ∧
    (∀ o ≤ Text.size A,
      (scan (A ++ f.write q ++ B) d).kindAt o = (scan (A ++ f.write p ++ B) d).kindAt o ∧
      (scan (A ++ f.write q ++ B) d).frameAt o = (scan (A ++ f.write p ++ B) d).frameAt o) ∧
    ∀ o,
      (scan (A ++ f.write q ++ B) d).kindAt (Text.size (A ++ f.write q) + o) =
        (scan (A ++ f.write p ++ B) d).kindAt (Text.size (A ++ f.write p) + o) ∧
      (scan (A ++ f.write q ++ B) d).frameAt (Text.size (A ++ f.write q) + o) =
        (scan (A ++ f.write p ++ B) d).frameAt (Text.size (A ++ f.write p) + o) := by
  obtain ⟨front, k, hfront, hwithin, hmode, hpass, hpass'⟩ := h.fork q
  obtain ⟨mid, hsplit⟩ := hpass.splits hmode hp hB
  obtain ⟨mid', hsplit'⟩ := hpass'.splits hmode hq hB
  have hkind := kindAt_swap hsplit hsplit' (f.write_ne_nil p) (f.write_ne_nil q)
  have hframe := frameAt_swap hsplit hsplit' (f.write_ne_nil p) (f.write_ne_nil q) f.kind_ne_code
    hfront (hwithin.behindLiteral f)
  refine ⟨⟨_, hpass', by simp [f.write_ne_nil q], rfl, hmode⟩, ?_, ?_⟩
  · exact fun o ho => ⟨hkind.1 o ho, hframe.1 o ho⟩
  · exact fun o => ⟨hkind.2 o, hframe.2 o⟩

/-- A bracket in a string closes nothing, and an escaped quote does not end it. -/
theorem ScopeMap.scan_payload_bracket :
    let f := LiteralForm.string '"' (.inr rfl)
    let old := ['f', '('] ++ f.write ['x'] ++ [')', '=', '>']
    let new := ['f', '('] ++ f.write ['\\', '"', ')'] ++ [')', '=', '>']
    Scope.StartsInCode .script old 2 ∧ f.Payload ['x'] ∧ f.Payload ['\\', '"', ')'] ∧
      Scope.StartsInCode .script new 2 ∧
      (∀ o ≤ 2, (scan new .script).kindAt o = (scan old .script).kindAt o ∧
        (scan new .script).frameAt o = (scan old .script).frameAt o) ∧
      (∀ o, (scan new .script).kindAt (7 + o) = (scan old .script).kindAt (5 + o) ∧
        (scan new .script).frameAt (7 + o) = (scan old .script).frameAt (5 + o)) ∧
      (∀ o < 7, 2 ≤ o → (scan new .script).kindAt o = .string) ∧
      (∀ o < 8, 2 ≤ o → (scan new .script).frameAt o = some .paramList) ∧
      (scan new .script).kindAt 7 = .code ∧ (scan new .script).frameAt 8 = none := by
  intro f old new
  have hstarts : Scope.StartsInCode .script old 2 :=
    ⟨_, .next (by decide) (.next (by decide) (.here _)), by decide, by decide, by decide⟩
  have hp : f.Payload ['x'] := ⟨by decide, .plain (by decide) (by decide) .nil⟩
  have hq : f.Payload ['\\', '"', ')'] :=
    ⟨by decide, .escape '"' (.plain (by decide) (by decide) .nil)⟩
  obtain ⟨hstarts', hbefore, hbehind⟩ := scan_payload hp hq trivial hstarts
  exact ⟨hstarts, hp, hq, hstarts', hbefore, hbehind, by decide +kernel⟩

end SourceMend
