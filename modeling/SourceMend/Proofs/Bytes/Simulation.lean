import SourceMend.Proofs.Bytes.Progress
import SourceMend.Proofs.Scope.Labels

/-!
The two scanners run side by side. A step over characters is one step over bytes, or one that stops
inside a character and as many more as that character has bytes left; these change nothing but the
position and the end of the last span.
-/
namespace SourceMend.Bytes

open Scope (Control Mode Piece Tiled)

variable {text : Text} {d : Dialect} {s t : State}

/-- The run from the first point passes the second one. -/
inductive Passes (text : Text) (d : Dialect) : State → State → Prop
  | here (s : State) : Passes text d s s
  | next {s t : State} {st : Step} : s.pos < (Text.utf8 text).length →
    step text d s.control s.pos = some st → Passes text d (s.after st) t → Passes text d s t

theorem Passes.trans {u : State} (h : Passes text d s t) (h' : Passes text d t u) :
    Passes text d s u := by
  induction h with
  | here => exact h'
  | next hlt hstep _ ih => exact .next hlt hstep (ih h')

theorem Passes.run_eq (h : Passes text d s t) : run text d s = run text d t := by
  induction h with
  | here => rfl
  | next hlt hstep _ ih =>
    rw [run, if_pos hlt, hstep, Option.bind_eq_bind, Option.bind_some,
      if_pos (step_tight hstep).moves, ih]

theorem Passes.one {st : Step} (hlt : s.pos < (Text.utf8 text).length)
    (h : step text d s.control s.pos = some st) : Passes text d s (s.after st) :=
  .next hlt h (.here _)

/-! Inside a character -/

/-- What a literal mode reads, byte by byte. -/
def plainKind : Mode → SpanKind
  | .code => .code
  | .template => .template
  | .tag _ _ => .markup
  | .children _ => .markup

/-- Outside code, a byte inside a character is passed over. -/
theorem step_inside {k : Control} {i : Nat} {b : UInt8}
    (hopened : k.opened.all (· < k.brackets.size) = true) (hmode : k.mode ≠ .code)
    (hget : (Text.utf8 text)[i]? = some b) (hb : isContinuation b = true) :
    step text d k i = some ⟨⟨plainKind k.mode, i, i + 1⟩, i + 1, k⟩ := by
  have hne {a : Char} (ha : a.toNat < 0x80) : seen b ≠ a := seen_ne_of_isContinuation hb ha
  rw [step, if_pos hopened]
  cases hm : k.mode with
  | code => contradiction
  | template =>
    simp [stepTemplate, hget, hne (show '\\'.toNat < 0x80 by decide),
      hne (show '`'.toNat < 0x80 by decide), hne (show '$'.toNat < 0x80 by decide), plainKind]
  | tag depth closing =>
    simp [stepTag, hget, hne (show '"'.toNat < 0x80 by decide),
      hne (show '\''.toNat < 0x80 by decide), hne (show '{'.toNat < 0x80 by decide),
      hne (show '/'.toNat < 0x80 by decide), hne (show '>'.toNat < 0x80 by decide), plainKind]
  | children depth =>
    simp [stepChildren, hget, hne (show '<'.toNat < 0x80 by decide),
      hne (show '{'.toNat < 0x80 by decide), plainKind]

/-- Two runs of bytes of one kind are marked as one. -/
theorem mark_mark (kind : SpanKind) {a b c : Nat} (hab : a < b) (hbc : b < c) (spans : List Span) :
    mark ⟨kind, b, c⟩ (mark ⟨kind, a, b⟩ spans) = mark ⟨kind, a, c⟩ spans := by
  have hac : ¬ c ≤ a := by omega
  cases spans with
  | nil => simp [mark, Nat.not_le.2 hab, Nat.not_le.2 hbc, hac]
  | cons s rest =>
    by_cases hjoin : s.kind = kind ∧ s.stop = a
    · simp [mark, Nat.not_le.2 hab, Nat.not_le.2 hbc, hac, hjoin]
    · simp [mark, Nat.not_le.2 hab, Nat.not_le.2 hbc, hac, hjoin]

theorem passes_inside {k : Control} {lo i hi : Nat} {spans : List Span}
    (hopened : k.opened.all (· < k.brackets.size) = true) (hmode : k.mode ≠ .code) (hlo : lo < i)
    (hin : Inside (Text.utf8 text) i hi) (hle : i ≤ hi) :
    Passes text d ⟨i, mark ⟨plainKind k.mode, lo, i⟩ spans, k⟩
      ⟨hi, mark ⟨plainKind k.mode, lo, hi⟩ spans, k⟩ := by
  obtain ⟨n, rfl⟩ := Nat.exists_eq_add_of_le hle
  induction n generalizing i with
  | zero => exact .here _
  | succ n ih =>
    obtain ⟨b, hget, hb⟩ := hin i (Nat.le_refl _) (by omega)
    have hlt := (List.getElem?_eq_some_iff.1 hget).1
    have hone := Passes.one (d := d) (s := ⟨i, mark ⟨plainKind k.mode, lo, i⟩ spans, k⟩) hlt
      (step_inside hopened hmode hget hb)
    have hrest := ih (i := i + 1) (by omega) (fun j hj hj' => hin j (by omega) (by omega))
      (by omega)
    rw [State.after, mark_mark _ hlo (Nat.lt_succ_self i)] at hone
    rw [Nat.add_right_comm, Nat.add_assoc] at hrest
    exact hone.trans hrest

/-! A token -/

section Token

variable {front : Text} {c : Char} {cs : Text} {k : Control}

theorem step_starts (hopened : k.opened.all (· < k.brackets.size) = true)
    (hmode : k.mode ≠ .code) : Starts front c cs k (plainKind k.mode)
      (step (front ++ c :: cs) d k (Text.size front)) (Scope.step d k (Text.size front) c cs) := by
  rw [step, if_pos hopened, Scope.step]
  cases hm : k.mode with
  | code => contradiction
  | template => exact stepTemplate_starts k
  | tag depth closing => exact stepTag_starts k depth closing
  | children depth => exact stepChildren_starts k depth

/-- The bytes of a token are read one after the other, whatever it holds. -/
theorem passes_token (d : Dialect) (front : Text) (c : Char) (cs : Text)
    (hopened : k.opened.all (· < k.brackets.size) = true) (spans : List Span) :
    let here : State := ⟨Text.size front, spans, k⟩
    Passes (front ++ c :: cs) d here
      (here.after (ofStep front c cs (Scope.step d k (Text.size front) c cs))) := by
  intro here
  have hlt : here.pos < (Text.utf8 (front ++ c :: cs)).length :=
    (List.getElem?_eq_some_iff.1 (Text.utf8_between front c cs)).1
  by_cases hmode : k.mode = .code
  · refine .one hlt ?_
    have hboundary : isBoundary (Text.utf8 (front ++ c :: cs)) (Text.size front) = true :=
      isBoundary_iff.2 ⟨front, c :: cs, rfl, rfl⟩
    rw [step, if_pos hopened, Scope.step, hmode]
    exact (if_pos hboundary).trans (stepCode_eq d k)
  · have hstarts : Starts front c cs k (plainKind k.mode)
        (step (front ++ c :: cs) d k (Text.size front))
        (Scope.step d k (Text.size front) c cs) := step_starts hopened hmode
    generalize hx : step (front ++ c :: cs) d k (Text.size front) = x at hstarts
    generalize Scope.step d k (Text.size front) c cs = st at hstarts
    cases hstarts with
    | whole => exact .one hlt hx
    | part hfront hstop hin =>
      exact (Passes.one hlt hx).trans (passes_inside hopened hmode hfront hin hstop)

end Token

/-! The spans -/

/-- One more piece in front joins the first span. -/
def consPiece (p : Piece) (spans : List Span) : List Span :=
  match spans with
  | s :: ss =>
    if s.kind = p.kind then { s with start := p.start } :: ss
    else ⟨p.kind, p.start, p.start + Text.size p.text⟩ :: s :: ss
  | [] => [⟨p.kind, p.start, p.start + Text.size p.text⟩]

theorem joinPieces_cons (p : Piece) (ps : List Piece) :
    ScopeMap.joinPieces (p :: ps) = consPiece p (ScopeMap.joinPieces ps) := rfl

/-- Only the last span takes part. -/
theorem mark_append (m : Span) {spans : List Span} (h : spans ≠ []) (more : List Span) :
    mark m (spans ++ more) = mark m spans ++ more := by
  obtain ⟨s, ss, rfl⟩ := List.exists_cons_of_ne_nil h
  simp only [mark, List.cons_append]
  split
  · rfl
  · split <;> rfl

/-- To join a piece in front and to mark bytes behind are independent of each other. -/
theorem reverse_consPiece_mark (p : Piece) {kind : SpanKind} {start stop : Nat} (hlt : start < stop)
    {spans : List Span} (h : spans ≠ []) :
    (consPiece p (mark ⟨kind, start, stop⟩ spans.reverse).reverse).reverse =
      mark ⟨kind, start, stop⟩ (consPiece p spans).reverse := by
  have hmark : ¬ stop ≤ start := by omega
  obtain ⟨s, ss, rfl⟩ := List.exists_cons_of_ne_nil h
  by_cases hss : ss = []
  · subst hss
    obtain ⟨kind', start', stop'⟩ := s
    obtain ⟨kindp, startp, textp⟩ := p
    by_cases hjoin : kind' = kind ∧ stop' = start
    · obtain ⟨rfl, rfl⟩ := hjoin
      by_cases hfirst : kind' = kindp <;> simp [consPiece, mark, hmark, hfirst]
    · by_cases hfirst : kind' = kindp
      · subst hfirst
        simp [consPiece, mark, hmark, hjoin]
      · simp [consPiece, mark, hmark, hjoin, hfirst]
  · have hne : ss.reverse ≠ [] := by simpa using hss
    by_cases hfirst : s.kind = p.kind
    · simp only [List.reverse_cons, mark_append _ hne, List.reverse_append, List.reverse_nil,
        List.nil_append, List.singleton_append, consPiece, if_pos hfirst, List.reverse_reverse]
    · simp only [List.reverse_cons, mark_append _ hne, List.reverse_append, List.reverse_nil,
        List.nil_append, List.singleton_append, consPiece, if_neg hfirst, List.reverse_reverse,
        List.append_assoc]

theorem consPiece_ne_nil (p : Piece) (spans : List Span) : consPiece p spans ≠ [] := by
  cases spans with
  | nil => simp [consPiece]
  | cons s ss =>
    rw [consPiece]
    split <;> simp

theorem reverse_joinPieces_concat {pos : Nat} {ps : List Piece} (h : Tiled pos ps)
    (kind : SpanKind) {t : Text} (ht : t ≠ []) :
    let stop := pos + Text.size (ps.flatMap Piece.text)
    (ScopeMap.joinPieces (ps ++ [⟨kind, stop, t⟩])).reverse =
      mark ⟨kind, stop, stop + Text.size t⟩ (ScopeMap.joinPieces ps).reverse := by
  have hsize := Text.size_pos ht
  induction h with
  | nil pos =>
    have hmark : ¬ pos + Text.size t ≤ pos := by omega
    exact (if_neg hmark).symm
  | @cons kind' pos u ps hu htiled ih =>
    dsimp only
    rw [List.cons_append, joinPieces_cons, joinPieces_cons]
    simp only [List.flatMap_cons, Text.size_append, ← Nat.add_assoc] at ih ⊢
    cases ps with
    | nil =>
      have hmark : ¬ pos + Text.size u + Text.size t ≤ pos + Text.size u := by omega
      by_cases hkind : kind = kind'
      · simp [ScopeMap.joinPieces, consPiece, mark, hmark, hkind]
      · simp [ScopeMap.joinPieces, consPiece, mark, hmark, hkind, Ne.symm hkind]
    | cons q ps =>
      have hne : ScopeMap.joinPieces (q :: ps) ≠ [] := consPiece_ne_nil q _
      rw [← reverse_consPiece_mark _ (by omega) hne, ← ih, List.reverse_reverse]

/-- A point of the run over characters, as one of the run over bytes. -/
def ofState (s : Scope.State) : State where
  pos := s.pos
  spans := (ScopeMap.joinPieces s.pieces.reverse).reverse
  control := s.control

theorem passes_advance {s : Scope.State} (h : Scope.State.Passes d { rest := text } s)
    (hrest : s.rest ≠ []) : Passes text d (ofState s) (ofState (s.advance d)) := by
  obtain ⟨front, htext, hpos⟩ := h.exists_read
  obtain ⟨ps, hpieces, htiled, hsize, -⟩ := h.pieces
  have hnested := h.nested (.start 0)
  obtain ⟨rest, pos, pieces, k⟩ := s
  obtain ⟨c, cs, rfl⟩ := List.exists_cons_of_ne_nil hrest
  have hopened : k.opened.all (· < k.brackets.size) = true := by
    refine List.all_eq_true.2 fun i hi => ?_
    obtain ⟨b, hb, -⟩ := (hnested.mem_opened i).1 hi
    simpa using (Array.getElem?_eq_some_iff.1 hb).1
  have hspans := reverse_joinPieces_concat htiled (Scope.step d k pos c cs).kind
    (List.cons_ne_nil c (cs.take (Scope.step d k pos c cs).extent))
  simp only [Nat.zero_add, List.reverse_nil, List.nil_append] at hpos hsize hpieces hspans
  subst htext hpos
  have hpass := passes_token d front c cs hopened
    (ScopeMap.joinPieces pieces.reverse).reverse
  have hnext : ofState (Scope.State.advance d ⟨c :: cs, Text.size front, pieces, k⟩) =
      (ofState ⟨c :: cs, Text.size front, pieces, k⟩).after
        (ofStep front c cs (Scope.step d k (Text.size front) c cs)) := by
    have hstop (extent : Nat) : Text.size (front ++ c :: cs.take extent) =
        Text.size front + Text.size (c :: cs.take extent) := Text.size_append ..
    rw [← hsize, ← hpieces] at hspans
    simp only [ofState, Scope.State.advance, State.after, ofStep, List.reverse_cons, hspans, hstop]
  rw [hnext]
  exact hpass

theorem passes_ofState {s t : Scope.State} (h : Scope.State.Passes d { rest := text } s)
    (h' : Scope.State.Passes d s t) : Passes text d (ofState s) (ofState t) := by
  induction h' with
  | here => exact .here _
  | next hrest _ ih =>
    exact (passes_advance h hrest).trans (ih (h.trans (.next hrest (.here _))))

/-- The run over bytes ends where the run over characters ends. -/
theorem passes_end (text : Text) (d : Dialect) :
    Passes text d {} (ofState (({ rest := text } : Scope.State).run d)) ∧
      (ofState (({ rest := text } : Scope.State).run d)).pos = (Text.utf8 text).length := by
  constructor
  · exact passes_ofState (.here _) (Scope.State.passes_run d { rest := text })
  · rw [Text.length_utf8]
    exact (Scope.State.pos_run d _).trans (Nat.zero_add _)

/-- The run over bytes never fails. -/
theorem run_eq (text : Text) (d : Dialect) :
    run text d {} = some (ofState (({ rest := text } : Scope.State).run d)) := by
  obtain ⟨hpass, hend⟩ := passes_end text d
  rw [hpass.run_eq, run, if_neg (by omega)]

end SourceMend.Bytes
