import Mathlib.Data.List.TakeWhile
import Mathlib.Tactic.SplitIfs
import SourceMend.Proofs.Scope.Labels

/-!
Literals as they are written: an opening, a payload that does not end the literal, and a closing. In
code the scanner reads such a literal as text of one kind and up to its closing, and what it
remembers afterwards does not depend on the payload.
-/
namespace SourceMend

/-- The forms of literal text. -/
inductive LiteralForm where
  | string (quote : Char) (valid : quote = '\'' ∨ quote = '"')
  | lineComment
  | blockComment
  | template

/-- Escapes are complete, and no character with what follows it `stops` outside of them. -/
inductive Escaped (stops : Char → Text → Prop) : Text → Prop
  | nil : Escaped stops []
  | plain {c : Char} {cs : Text} : c ≠ '\\' → ¬ stops c cs → Escaped stops cs →
    Escaped stops (c :: cs)
  | escape (c : Char) {cs : Text} : Escaped stops cs → Escaped stops ('\\' :: c :: cs)

namespace LiteralForm

def opening : LiteralForm → Text
  | string q _ => [q]
  | lineComment => ['/', '/']
  | blockComment => ['/', '*']
  | template => ['`']

def closing : LiteralForm → Text
  | string q _ => [q]
  | lineComment => []
  | blockComment => ['*', '/']
  | template => ['`']

def write (f : LiteralForm) (payload : Text) : Text := f.opening ++ payload ++ f.closing

/-- What may stand inside a literal without ending it. -/
def Payload : LiteralForm → Text → Prop
  | string q _, p => '\n' ∉ p ∧ Escaped (fun c _ => c = q) p
  | lineComment, p => '\n' ∉ p
  | blockComment, p => ¬ ['*', '/'] <:+: p
  | template, p => Escaped (fun c cs => c = '`' ∨ c = '$' ∧ cs.head? = some '{') p

/-- What may follow a literal: a line comment ends with its line. -/
def Followed : LiteralForm → Text → Prop
  | lineComment, rest => ∀ c ∈ rest.head?, c = '\n'
  | _, _ => True

def kind : LiteralForm → SpanKind
  | string _ _ => .string
  | lineComment => .lineComment
  | blockComment => .blockComment
  | template => .template

end LiteralForm

/-- The pieces hold some text of one kind, from byte `start` up to byte `stop`. -/
structure Fills (start stop : Nat) (kind : SpanKind) (t : Text) (ps : List Scope.Piece) : Prop where
  labels : ps.flatMap Scope.Piece.labels = t.map (Prod.mk kind)
  pieces : ∀ p ∈ ps, p.text ≠ [] ∧ start ≤ p.start ∧ p.start < stop

namespace Scope

/-! Extents -/

theorem stringExtent_cons {q c : Char} {cs : Text} (hcs : cs ≠ []) (hc : c ≠ '\\') (hq : c ≠ q)
    (hline : c ≠ '\n') : Token.stringExtent q (c :: cs) = 1 + Token.stringExtent q cs := by
  obtain ⟨d, cs, rfl⟩ := List.exists_cons_of_ne_nil hcs
  rw [Token.stringExtent, if_neg hc, if_neg hline, if_neg hq]

theorem stringExtent_payload {q : Char} (hq : q ≠ '\\' ∧ q ≠ '\n') {p : Text}
    (h : Escaped (fun c _ => c = q) p) (hline : '\n' ∉ p) (rest : Text) :
    Token.stringExtent q (p ++ q :: rest) = p.length + 1 := by
  induction h with
  | nil => cases rest <;> simp [Token.stringExtent, hq]
  | @plain c cs hc hstop _ ih =>
    have hcn : c ≠ '\n' := fun hc => hline (hc ▸ List.mem_cons_self)
    rw [List.cons_append, stringExtent_cons (by simp) hc hstop hcn,
      ih fun hmem => hline (List.mem_cons_of_mem _ hmem), List.length_cons]
    omega
  | @escape c cs _ ih =>
    have hrest := ih fun hmem => hline (List.mem_cons_of_mem _ (List.mem_cons_of_mem _ hmem))
    simp only [List.cons_append, Token.stringExtent, hrest, List.length_cons, ↓reduceIte]
    omega

theorem lineCommentExtent_payload {p rest : Text} (h : '\n' ∉ p)
    (hrest : ∀ c ∈ rest.head?, c = '\n') : Token.lineCommentExtent (p ++ rest) = p.length := by
  have hp : ∀ c ∈ p, decide (c ≠ '\n') = true := by
    intro c hc
    simpa using fun h' : c = '\n' => h (h' ▸ hc)
  have hstop : rest.takeWhile (· ≠ '\n') = [] := by
    cases rest with
    | nil => rfl
    | cons c cs => simp [hrest c rfl]
  rw [Token.lineCommentExtent, List.takeWhile_append_of_pos hp, hstop, List.append_nil]

theorem blockCommentExtent_payload {p : Text} (h : ¬ ['*', '/'] <:+: p) (rest : Text) :
    Token.blockCommentExtent (p ++ '*' :: '/' :: rest) = p.length + 2 := by
  induction p with
  | nil => simp [Token.blockCommentExtent]
  | cons c p ih =>
    have hopen : ¬ (c = '*' ∧ (p ++ '*' :: '/' :: rest).head? = some '/') := by
      rintro ⟨rfl, hhead⟩
      cases p with
      | nil => simp at hhead
      | cons e p =>
        obtain rfl : e = '/' := by simpa using hhead
        exact h ⟨[], p, rfl⟩
    have hrest := ih fun hin => h (hin.trans (List.suffix_cons c p).isInfix)
    rw [List.cons_append, Token.blockCommentExtent, if_neg hopen, hrest, List.length_cons]
    omega

/-! Reading text of one kind -/

variable {d : Dialect} {kind : SpanKind} {k k' k'' : Control} {pos : Nat} {t t' rest : Text}

/-- The scanner reads `t`, which stands before `rest`, as text of one kind. -/
def ReadsAs (d : Dialect) (kind : SpanKind) (k : Control) (pos : Nat) (t rest : Text)
    (k' : Control) : Prop :=
  ∃ ps : List Piece, (∀ p ∈ ps, p.kind = kind) ∧
    State.Passes d ⟨t ++ rest, pos, [], k⟩ ⟨rest, pos + Text.size t, ps, k'⟩

theorem ReadsAs.nil : ReadsAs d kind k pos [] rest k :=
  ⟨[], by simp, .here _⟩

theorem ReadsAs.token {c : Char} (word : Text)
    (h : step d k pos c (word ++ rest) = ⟨kind, word.length, k'⟩) :
    ReadsAs d kind k pos (c :: word) rest k' :=
  ⟨[⟨kind, pos, c :: word⟩], by simp, .token h⟩

theorem ReadsAs.append (h : ReadsAs d kind k pos t (t' ++ rest) k')
    (h' : ReadsAs d kind k' (pos + Text.size t) t' rest k'') :
    ReadsAs d kind k pos (t ++ t') rest k'' := by
  obtain ⟨ps, hkind, hpass⟩ := h
  obtain ⟨ps', hkind', hpass'⟩ := h'
  refine ⟨ps' ++ ps, fun p hp => (List.mem_append.1 hp).elim (hkind' p) (hkind p), ?_⟩
  rw [List.append_assoc, Text.size_append, ← Nat.add_assoc]
  exact hpass.trans (hpass'.behind ps)

theorem labels_of_kind {kind : SpanKind} {ps : List Piece} (h : ∀ p ∈ ps, p.kind = kind) :
    ps.flatMap Piece.labels = (ps.flatMap Piece.text).map (Prod.mk kind) := by
  rw [List.map_flatMap]
  refine congrArg List.flatten (List.map_congr_left fun p hp => ?_)
  rw [Piece.labels, h p hp]

/-- The pieces of text that is read as one kind. -/
theorem ReadsAs.exists_fills (h : ReadsAs d kind k pos t rest k') : ∃ ps : List Piece,
      State.Passes d ⟨t ++ rest, pos, [], k⟩ ⟨rest, pos + Text.size t, ps, k'⟩ ∧
      Fills pos (pos + Text.size t) kind t ps.reverse ∧
      labels d k pos (t ++ rest) =
        t.map (Prod.mk kind) ++ labels d k' (pos + Text.size t) rest := by
  obtain ⟨ps, hkind, hpass⟩ := h
  obtain ⟨qs, hqs, htiled, hpos, hlabels⟩ := hpass.pieces
  obtain rfl : ps.reverse = qs := hqs
  have hrun : ps.reverse.flatMap Piece.labels =
      (ps.reverse.flatMap Piece.text).map (Prod.mk kind) :=
    labels_of_kind fun p hp => hkind p (List.mem_reverse.1 hp)
  have htext : ps.reverse.flatMap Piece.text = t := by
    have hsnd := congrArg (List.map Prod.snd) hlabels
    rw [map_snd_labels, List.map_append, map_snd_labels, hrun, map_snd_mk] at hsnd
    exact (List.append_cancel_right hsnd).symm
  rw [htext] at hrun
  refine ⟨ps, hpass, ⟨hrun, fun p hp => ?_⟩, hrun ▸ hlabels⟩
  exact hpass.of_mem rfl (List.mem_reverse.1 hp)

/-- The payload of a template is read bit by bit. -/
theorem readsAs_templatePayload (hk : k.mode = .template) {p : Text}
    (h : LiteralForm.template.Payload p) : ReadsAs d .template k pos p ('`' :: rest) k := by
  induction h generalizing pos with
  | nil => exact .nil
  | @plain c cs hc hstop _ ih =>
    obtain ⟨hback, hdollar⟩ := not_or.1 hstop
    refine .append (t := [c]) (.token [] ?_) ih
    have hinterpolation : ¬ (c = '$' ∧ (cs ++ '`' :: rest).head? = some '{') := by
      rintro ⟨rfl, hhead⟩
      cases cs with
      | nil => simp at hhead
      | cons e cs => exact hdollar ⟨rfl, hhead⟩
    simp only [List.nil_append, step, hk, stepTemplate, if_neg hc, if_neg hback,
      if_neg hinterpolation, List.length_nil]
  | @escape c cs _ ih =>
    refine .append (t := ['\\', c]) (.token [c] ?_) ih
    simp [step, hk, stepTemplate]

/-- What the scanner remembers behind a literal. -/
def Control.behindLiteral (k : Control) : LiteralForm → Control
  | .lineComment | .blockComment => k
  | .string _ _ | .template => k.push .value

theorem step_quote (hk : k.mode = .code) {q : Char} (hq : q = '\'' ∨ q = '"') (cs : Text) :
    step d k pos q cs = ⟨.string, Token.stringExtent q cs, k.push .value⟩ := by
  rcases hq with rfl | rfl <;> simp [step, hk, stepCode]

theorem step_backtick (hk : k.mode = .code) (cs : Text) :
    step d k pos '`' cs = ⟨.template, 0, k.pushMode .template⟩ := by
  simp [step, hk, stepCode]

theorem step_lineComment (hk : k.mode = .code) (cs : Text) :
    step d k pos '/' ('/' :: cs) = ⟨.lineComment, Token.lineCommentExtent ('/' :: cs), k⟩ := by
  simp [step, hk, stepCode]

theorem step_blockComment (hk : k.mode = .code) (cs : Text) :
    step d k pos '/' ('*' :: cs) = ⟨.blockComment, 1 + Token.blockCommentExtent cs, k⟩ := by
  simp [step, hk, stepCode]

/-- In code a literal is read up to its closing. -/
theorem readsAs_write (hk : k.mode = .code) {f : LiteralForm} {p : Text} (hp : f.Payload p)
    (hrest : f.Followed rest) :
    ReadsAs d f.kind k pos (f.write p) rest (k.behindLiteral f) := by
  cases f with
  | string q hq =>
    refine .token (p ++ [q]) ?_
    have hquote : q ≠ '\\' ∧ q ≠ '\n' := by
      rcases hq with rfl | rfl <;> decide
    rw [step_quote hk hq, List.append_assoc, List.singleton_append,
      stringExtent_payload hquote hp.2 hp.1, List.length_append]
    rfl
  | lineComment =>
    refine .token ('/' :: p ++ []) ?_
    have hline : '\n' ∉ '/' :: p := by simpa using show '\n' ∉ p from hp
    rw [List.append_nil, List.cons_append, step_lineComment hk, ← List.cons_append,
      lineCommentExtent_payload hline hrest]
    rfl
  | blockComment =>
    refine .token ('*' :: p ++ ['*', '/']) ?_
    have hextent : 1 + Token.blockCommentExtent (p ++ '*' :: '/' :: rest) =
        ('*' :: p ++ ['*', '/']).length := by
      rw [blockCommentExtent_payload hp]
      simp only [List.cons_append, List.length_cons, List.length_append, List.length_nil]
      omega
    rw [← hextent, List.append_assoc]
    exact step_blockComment hk _
  | template =>
    have hmode : (k.pushMode .template).mode = .template := rfl
    have hopening : ReadsAs d .template k pos ('`' :: p) (['`'] ++ rest) (k.pushMode .template) :=
      .append (t := ['`']) (.token [] (step_backtick hk _)) (readsAs_templatePayload hmode hp)
    refine hopening.append (.token [] ?_)
    simp only [step, hmode, stepTemplate]
    rfl

end Scope
end SourceMend
