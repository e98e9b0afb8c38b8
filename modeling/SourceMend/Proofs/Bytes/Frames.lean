import SourceMend.Proofs.Bytes.Simulation
import SourceMend.Proofs.Scope.Displacement
import SourceMend.Proofs.Scope.Spans

/-!
The frames over bytes. When the text is read, what is open is closed at the end, and the code that
follows a parenthesis is looked up in the bytes of the spans behind it. This gives the scope map of
the text.
-/
namespace SourceMend.Bytes

open Scope (Control Label Piece)

/-! What the frames are made of -/

section

variable (src : List UInt8)

/-- Adds the code from byte `i` up to `stop` to the `n` bytes that are looked for. Blanks in front
are left out. -/
def readCode (n : Nat) (out : List UInt8) (stop i : Nat) : Option (List UInt8) :=
  if i < stop then do
    let b ← src[i]?
    if out = [] ∧ ScopeMap.isBlank (seen b) then readCode n out stop (i + 1)
    else if (out ++ [b]).length = n then some (out ++ [b])
    else readCode n (out ++ [b]) stop (i + 1)
  else some out
termination_by stop - i

/-- The next `n` bytes of code, from byte `i` on. -/
def nextCode (n : Nat) (out : List UInt8) (i : Nat) : List Span → Option (List UInt8)
  | [] => some out
  | s :: rest =>
    if s.kind ≠ .code then if out ≠ [] then some out else nextCode n out i rest
    else do
      let out ← readCode src n out s.stop (max i s.start)
      if out.length = n then some out else nextCode n out (max i s.stop) rest

/-- The next `n` bytes of code at or after byte `i`. -/
def codeFrom (n : Nat) (spans : List Span) (i : Nat) : Option (List UInt8) :=
  nextCode src n [] i (spans.dropWhile (·.stop ≤ i))

/-- The bracket around a bracket, if there is one. It must be a recorded one. -/
def parent? (brackets : Array Bracket) (b : Bracket) : Option (Option Bracket) :=
  match b.parent with
  | none => some none
  | some p => brackets[p]?.map some

/-- Whether a parenthesis with this code behind it holds parameters. -/
def holdsParams (inBody : Bool) (hint : ParenHint) (follow : Text) : Bool :=
  follow.take 2 = ['=', '>'] || hint.afterFunction || hint.afterCatch ||
    (inBody && !hint.hasAssign) ||
    (hint.afterWord && (follow.head? = some '{' || follow.head? = some ':'))

/-- The frame of a closed bracket. -/
def settle (spans : List Span) (brackets : Array Bracket) (b : Bracket) : Option Frame := do
  let stop ← b.stop
  if b.kind ≠ .parens ∨ (b.hint.afterControl && !b.hint.afterCatch) = true then
    some ⟨b.kind, b.start, stop⟩
  else
    let parent ← parent? brackets b
    let follow := (← codeFrom src 2 spans (stop + 1)).map seen
    let inBody := (parent.map (·.kind.isDeclarationBody)).getD false
    some ⟨if holdsParams inBody b.hint follow then .paramList else .parens, b.start, stop⟩

end

/-- The scope map of a text, read byte by byte. -/
def scan (text : Text) (d : Dialect) : Option ScopeMap := do
  let src := Text.utf8 text
  let s ← run text d {}
  let spans := s.spans.reverse
  let brackets := Control.closeAll s.control.brackets s.control.opened src.length
  let frames ← brackets.toList.mapM (settle src spans brackets)
  some { size := src.length, spans, frames }

/-! Reading code -/

/-- What `readCode` adds from some bytes. -/
def gathered (n : Nat) (out bytes : List UInt8) : List UInt8 :=
  (out ++ if out = [] then bytes.dropWhile fun b => ScopeMap.isBlank (seen b) else bytes).take n

theorem gathered_nil {n : Nat} {out : List UInt8} (hout : out.length < n) :
    gathered n out [] = out := by
  simp [gathered, List.take_of_length_le (Nat.le_of_lt hout)]

theorem gathered_blank {n : Nat} {b : UInt8} (hb : ScopeMap.isBlank (seen b) = true)
    (bytes : List UInt8) : gathered n [] (b :: bytes) = gathered n [] bytes := by
  simp [gathered, hb]

theorem gathered_cons {n : Nat} {out : List UInt8} {b : UInt8}
    (h : ¬ (out = [] ∧ ScopeMap.isBlank (seen b) = true)) (bytes : List UInt8) :
    gathered n out (b :: bytes) = (out ++ [b] ++ bytes).take n := by
  rw [gathered, List.append_assoc, List.singleton_append]
  split
  · next hnil => rw [List.dropWhile_cons, if_neg fun hb => h ⟨hnil, hb⟩]
  · rfl

theorem readCode_eq (src : List UInt8) {n : Nat} {out : List UInt8} (hout : out.length < n)
    {stop i : Nat} (hstop : stop ≤ src.length) (hi : i ≤ stop) :
    readCode src n out stop i = some (gathered n out ((src.drop i).take (stop - i))) := by
  rw [readCode]
  split
  · next hlt =>
    have hget : i < src.length := by omega
    have hbytes : (src.drop i).take (stop - i) =
        src[i] :: (src.drop (i + 1)).take (stop - (i + 1)) := by
      rw [List.drop_eq_getElem_cons hget, show stop - i = stop - (i + 1) + 1 by omega,
        List.take_succ_cons]
    rw [List.getElem?_eq_getElem hget, Option.bind_eq_bind, Option.bind_some, hbytes]
    split
    · next hblank =>
      obtain ⟨rfl, hblank⟩ := hblank
      rw [gathered_blank hblank, readCode_eq src hout hstop hlt]
    · next hcode =>
      rw [gathered_cons hcode]
      split
      · next hlength => rw [← hlength, List.take_left]
      · next hlength =>
        have hnext : (out ++ [src[i]]).length < n := by
          rw [List.length_append, List.length_singleton] at hlength ⊢
          omega
        rw [readCode_eq src hnext hstop hlt, gathered, if_neg (by simp)]
  · next hge =>
    rw [show stop - i = 0 by omega, List.take_zero, gathered_nil hout]
termination_by stop - i

/-! The next code of a text -/

/-- The first run of code that does not start with a blank, whole. -/
def codeRun (L : List Label) : Text :=
  ((L.dropWhile fun l => l.1 ≠ .code || ScopeMap.isBlank l.2).takeWhile (·.1 = .code)).map Prod.snd

theorem leadingCode_eq (n : Nat) (L : List Label) : leadingCode n L = (codeRun L).take n := rfl

theorem coarse_isBlank : Coarse ScopeMap.isBlank := by
  refine coarse_of_ascii fun c h => ?_
  simp only [ScopeMap.isBlank, Bool.or_eq_true, decide_eq_true_eq] at h
  rcases h with (((rfl | rfl) | rfl) | rfl) | rfl <;> decide

theorem dropWhile_utf8 {p : Char → Bool} (hp : Coarse p) (t : Text) :
    (Text.utf8 t).dropWhile (fun b => p (seen b)) = Text.utf8 (t.dropWhile p) := by
  have hsplit : Text.utf8 (t.takeWhile p) ++ (Text.utf8 t).dropWhile (fun b => p (seen b)) =
      Text.utf8 (t.takeWhile p) ++ Text.utf8 (t.dropWhile p) := by
    rw [← Text.utf8_append, List.takeWhile_append_dropWhile, ← Text.takeWhile_utf8 hp,
      List.takeWhile_append_dropWhile]
  exact List.append_cancel_left hsplit

/-- The code between two places, without the blanks in front. -/
theorem readCode_between {n : Nat} (hn : 0 < n) (front t back : Text) :
    readCode (Text.utf8 (front ++ (t ++ back))) n [] (Text.size front + Text.size t)
      (Text.size front) = some ((Text.utf8 (t.dropWhile ScopeMap.isBlank)).take n) := by
  have hout : ([] : List UInt8).length < n := hn
  have hstop : Text.size front + Text.size t ≤ (Text.utf8 (front ++ (t ++ back))).length := by
    rw [Text.length_utf8, Text.size_append, Text.size_append]
    omega
  rw [readCode_eq _ hout hstop (by omega), Text.drop_utf8, Text.utf8_append,
    Nat.add_sub_cancel_left, ← Text.length_utf8, List.take_left, gathered, if_pos rfl,
    List.nil_append, dropWhile_utf8 coarse_isBlank]

section CodeRun

variable {t : Text} {L : List Label}

theorem codeRun_literal {kind : SpanKind} (hkind : kind ≠ .code) (t : Text) (L : List Label) :
    codeRun (t.map (Prod.mk kind) ++ L) = codeRun L := by
  rw [codeRun, List.dropWhile_append_of_pos (by simp [hkind]), codeRun]

theorem dropWhile_code (t : Text) :
    (t.map (Prod.mk SpanKind.code)).dropWhile (fun l => l.1 ≠ .code || ScopeMap.isBlank l.2) =
      (t.dropWhile ScopeMap.isBlank).map (Prod.mk .code) := by
  rw [List.dropWhile_map]
  rfl

theorem codeRun_blank (h : t.dropWhile ScopeMap.isBlank = []) :
    codeRun (t.map (Prod.mk .code) ++ L) = codeRun L := by
  rw [codeRun, List.dropWhile_append, dropWhile_code, h, codeRun]
  rfl

/-- A run of code ends with its span. -/
theorem codeRun_code {c : Char} {cs : Text} (h : t.dropWhile ScopeMap.isBlank = c :: cs)
    (hhead : ∀ l ∈ L.head?, l.1 ≠ .code) :
    codeRun (t.map (Prod.mk .code) ++ L) = c :: cs := by
  have hstop : L.takeWhile (fun l => decide (l.1 = .code)) = [] := by
    cases L with
    | nil => rfl
    | cons l L => exact List.takeWhile_cons_of_neg (by simpa using hhead l rfl)
  rw [codeRun, List.dropWhile_append, dropWhile_code, h]
  simp only [List.map_cons, List.isEmpty_cons, Bool.false_eq_true, if_false]
  rw [← List.map_cons, List.takeWhile_append_of_pos (by simp), hstop, List.append_nil,
    Scope.map_snd_mk]

end CodeRun

theorem nextCode_of_ne_nil {src : List UInt8} {out : List UInt8} (hout : out ≠ []) {n i : Nat}
    {spans : List Span} (hhead : ∀ s ∈ spans.head?, s.kind ≠ .code) :
    nextCode src n out i spans = some out := by
  cases spans with
  | nil => rfl
  | cons s rest => rw [nextCode, if_pos (hhead s rfl), if_pos hout]

theorem kind_head?_of_covers {pos : Nat} {spans : List Span} {L : List Label} {kind : SpanKind}
    (h : Covers pos spans L) (hhead : ∀ l ∈ L.head?, l.1 ≠ kind) :
    ∀ s ∈ spans.head?, s.kind ≠ kind := by
  cases h with
  | nil => simp
  | @cons kind' pos t spans L ht _ _ =>
    obtain ⟨c, t, rfl⟩ := List.exists_cons_of_ne_nil ht
    simpa using hhead (kind', c) rfl

/-- In the bytes of the spans, the code that comes next is that of the labels. -/
theorem nextCode_eq {pos : Nat} {spans : List Span} {L : List Label} (h : Covers pos spans L)
    {front : Text} (hfront : Text.size front = pos) {n : Nat} (hn : 0 < n) {i : Nat}
    (hi : i ≤ pos) :
    nextCode (Text.utf8 (front ++ L.map Prod.snd)) n [] i spans =
      some ((Text.utf8 (codeRun L)).take n) := by
  induction h generalizing front i with
  | nil pos => simp [nextCode, codeRun]
  | @cons kind pos t spans L ht hhead hcov ih =>
    have hlabels : (t.map (Prod.mk kind) ++ L).map Prod.snd = t ++ L.map Prod.snd := by
      rw [List.map_append, Scope.map_snd_mk]
    have hnext {j : Nat} (hj : j ≤ pos + Text.size t) :
        nextCode (Text.utf8 (front ++ (t ++ L.map Prod.snd))) n [] j spans =
          some ((Text.utf8 (codeRun L)).take n) := by
      rw [← List.append_assoc]
      exact ih (by rw [Text.size_append, hfront]) hj
    rw [hlabels, nextCode]
    by_cases hkind : kind = .code
    · subst hkind
      subst hfront
      simp only [ne_eq, not_true, if_false, Nat.max_eq_right hi, readCode_between hn,
        Option.bind_eq_bind, Option.bind_some]
      cases hcode : t.dropWhile ScopeMap.isBlank with
      | nil =>
        rw [codeRun_blank hcode, Text.utf8_nil, List.take_nil, if_neg (by simp; omega)]
        exact hnext (by omega)
      | cons c cs =>
        rw [codeRun_code hcode hhead]
        split
        · rfl
        · refine nextCode_of_ne_nil ?_ (kind_head?_of_covers hcov hhead)
          simp
          omega
    · rw [if_pos hkind, if_neg (by simp), codeRun_literal hkind]
      exact hnext (by omega)

/-- The spans from a place on, the one that the place lies in cut short. -/
theorem exists_spansFrom {pos : Nat} {spans : List Span} {X Y : List Label}
    (h : Covers pos spans (X ++ Y)) {q : Nat} (hq : pos + Text.size (X.map Prod.snd) = q) :
    ∃ later, Covers q later Y ∧ ∀ src n,
      nextCode src n [] q (spans.dropWhile (·.stop ≤ q)) = nextCode src n [] q later := by
  generalize hL : X ++ Y = L at h
  induction h generalizing X with
  | nil pos =>
    obtain ⟨rfl, rfl⟩ := List.append_eq_nil_iff.1 hL
    obtain rfl : pos = q := hq
    exact ⟨[], .nil _, fun _ _ => rfl⟩
  | @cons kind pos t spans L ht hhead hcov ih =>
    rcases List.append_eq_append_iff.1 hL with ⟨M, hM, rfl⟩ | ⟨M, rfl, hY⟩
    · -- The place lies in this span, or just behind it.
      obtain ⟨u, v, rfl, rfl, rfl⟩ := List.map_eq_append_iff.1 hM
      rw [Scope.map_snd_mk] at hq
      have hstop : pos + Text.size (u ++ v) = q + Text.size v := by
        rw [Text.size_append]
        omega
      rw [hstop] at hcov ⊢
      by_cases hv : v = []
      · subst hv
        refine ⟨spans, by simpa using hcov, fun src n => ?_⟩
        rw [List.dropWhile_cons_of_pos (by simp), hcov.dropWhile_eq (by simp)]
      · have hsize := Text.size_pos hv
        refine ⟨⟨kind, q, q + Text.size v⟩ :: spans, .cons hv hhead hcov, fun src n => ?_⟩
        rw [List.dropWhile_cons_of_neg (by simp; omega)]
        simp only [nextCode, Nat.max_self, Nat.max_eq_left (show pos ≤ q by omega)]
    · rw [List.map_append, Scope.map_snd_mk, Text.size_append, ← Nat.add_assoc] at hq
      rw [List.dropWhile_cons_of_pos (by simp; omega)]
      exact ih hq hY.symm

/-- The code behind a place, from the bytes or from the labels. -/
theorem codeFrom_eq {spans : List Span} {X Y : List Label} (h : Covers 0 spans (X ++ Y)) {q : Nat}
    (hq : Text.size (X.map Prod.snd) = q) {n : Nat} (hn : 0 < n) :
    codeFrom (Text.utf8 ((X ++ Y).map Prod.snd)) n spans q =
      some ((Text.utf8 (codeRun Y)).take n) := by
  obtain ⟨later, hlater, heq⟩ := exists_spansFrom h ((Nat.zero_add _).trans hq)
  rw [codeFrom, heq, List.map_append]
  exact nextCode_eq hlater hq hn (Nat.le_refl q)

/-- Two bytes tell whether an arrow follows, or one of some characters of ASCII. -/
theorem take_follow (w : Text) :
    (((Text.utf8 w).take 2).map seen).take 2 = ['=', '>'] ↔ w.take 2 = ['=', '>'] := by
  cases w with
  | nil => simp
  | cons c w =>
    have hfirst : seen (lead c) = '=' ↔ c = '=' := seen_lead_eq_iff (by decide)
    by_cases hc : c = '='
    · subst hc
      have htrail : trail '=' = [] := trail_ascii (by decide)
      cases w with
      | nil => simp [htrail]
      | cons e w =>
        have hsecond : seen (lead e) = '>' ↔ e = '>' := seen_lead_eq_iff (by decide)
        simp [htrail, hfirst, hsecond]
    · simp [hfirst, hc]

theorem head?_follow {n : Nat} (hn : 0 < n) (w : Text) {a : Char} (ha : a.toNat < 0x80) :
    (((Text.utf8 w).take n).map seen).head? = some a ↔ (w.take n).head? = some a := by
  obtain ⟨m, rfl⟩ := Nat.exists_eq_succ_of_ne_zero (Nat.ne_of_gt hn)
  cases w with
  | nil => simp
  | cons c w => simp [seen_lead_eq_iff ha]

/-- The bytes of the code tell the same as its characters. -/
theorem holdsParams_seen (inBody : Bool) (hint : ParenHint) (w : Text) :
    holdsParams inBody hint (((Text.utf8 w).take 2).map seen) =
      holdsParams inBody hint (w.take 2) := by
  have hbrace := head?_follow (n := 2) (by decide) w (a := '{') (by decide)
  have hcolon := head?_follow (n := 2) (by decide) w (a := ':') (by decide)
  simp only [holdsParams, take_follow, hbrace, hcolon, List.take_take, Nat.min_self]

/-! Behind the brackets -/

section Stops

variable {text : Text} {d : Dialect} {s t : Scope.State}

/-- The scanner passes the place behind a closing bracket. -/
theorem exists_behind_stop (h : Scope.State.Passes d s t) {P : Nat → Prop}
    (hs : ∀ b ∈ s.control.brackets, ∀ p ∈ b.stop, P p)
    (hP : ∀ u, Scope.State.Passes d s u → ∀ p, u.pos = p + 1 → P p) :
    ∀ b ∈ t.control.brackets, ∀ p ∈ b.stop, P p := by
  induction h with
  | here => exact hs
  | @next s t hrest hpass ih =>
    refine ih ?_ fun u hu => hP u (.next hrest hu)
    have hnext := hP (s.advance d) (.next hrest (.here _))
    obtain ⟨rest, pos, pieces, k⟩ := s
    obtain ⟨c, cs, rfl⟩ := List.exists_cons_of_ne_nil hrest
    have hmoves : Scope.Moves pos c k (Scope.step d k pos c cs) := Scope.moves_step
    simp only [Scope.State.advance] at hnext hs ⊢
    generalize Scope.step d k pos c cs = st at hnext hmoves
    intro b hb p hp
    cases hmoves with
    | keeping hbrackets hopened => exact hs b (hbrackets ▸ hb) p hp
    | opening b' hextent hc hstart hstop hparent hbrackets hopened =>
      rw [hbrackets] at hb
      rcases Array.mem_push.1 hb with hb | rfl
      · exact hs b hb p hp
      · rw [hstop] at hp
        cases hp
    | closing indices hextent hc hopened hbrackets =>
      obtain ⟨i, hi⟩ := Array.getElem?_of_mem (hbrackets ▸ hb)
      obtain ⟨b', hb', -, -, hstop⟩ := Control.exists_of_closeAll hi
      rcases hstop with ⟨-, hstop⟩ | ⟨-, hstop⟩
      · obtain rfl := Option.some.inj (hstop.symm.trans hp)
        refine hnext pos ?_
        simp [hextent, hc]
      · exact hs b' (Array.mem_of_getElem? hb') p (hstop ▸ hp)

/-- What follows a closing bracket, from the bytes or from the pieces. -/
theorem codeFrom_behind {b : Bracket} {p : Nat}
    (hb : b ∈ (({ rest := text } : Scope.State).run d).control.brackets) (hp : b.stop = some p) :
    let pieces := (({ rest := text } : Scope.State).run d).pieces.reverse
    ∃ w, codeFrom (Text.utf8 text) 2 (ScopeMap.joinPieces pieces) (p + 1) =
        some ((Text.utf8 w).take 2) ∧ ScopeMap.codeAfter pieces (p + 1) = w.take 2 := by
  intro pieces
  have hpass := Scope.State.passes_run d { rest := text }
  obtain ⟨u, hu, hpos⟩ := exists_behind_stop hpass (P := fun p => ∃ u,
    Scope.State.Passes d { rest := text } u ∧ u.pos = p + 1) (by simp)
    (fun u hu p hp => ⟨u, hu, hp⟩) b hb p hp
  obtain ⟨X, hX, htiledX, hsizeX, -⟩ := hu.pieces
  obtain ⟨Y, hY, htiledY, -, -⟩ := (Scope.State.passes_run d u).pieces
  obtain ⟨ps, hps, htiled, -, hlabels⟩ := hpass.pieces
  have hpieces : pieces = X ++ Y := by
    simp only [pieces, hu.run_eq, hY, hX, List.reverse_nil, List.nil_append]
  obtain rfl : ps = X ++ Y := by simpa [pieces] using hps.symm.trans hpieces
  have hbefore : ∀ x ∈ X, x.start < p + 1 := fun x hx => by
    have := (htiledX.of_mem hx).2.2
    omega
  have hlater : Y.dropWhile (·.start < p + 1) = Y := by
    cases htiledY with
    | nil => rfl
    | cons => exact List.dropWhile_cons_of_neg (by simp; omega)
  have hne : ∀ x ∈ X ++ Y, x.text ≠ [] := fun x hx => (htiled.of_mem hx).1
  have htext : ((X ++ Y).flatMap Piece.labels).map Prod.snd = text := by
    have := Scope.map_snd_labels d {} 0 text
    rwa [hlabels, Scope.State.rest_run, Scope.labels, List.append_nil] at this
  refine ⟨codeRun (Y.flatMap Piece.labels), ?_, ?_⟩
  · have hcovers := covers_joinPieces htiled
    rw [List.flatMap_append] at hcovers htext
    have hsize : Text.size ((X.flatMap Piece.labels).map Prod.snd) = p + 1 := by
      rw [← hpos, hsizeX, Nat.zero_add, List.map_flatMap]
      simp only [Piece.labels, Scope.map_snd_mk]
    rw [hpieces, ← htext]
    exact codeFrom_eq hcovers hsize (by decide)
  · rw [hpieces, ScopeMap.codeAfter_behind hne hbefore, hlater, leadingCode_eq]

end Stops

/-! The scope map -/

/-- The bracket with the end of the text for a missing closing bracket. -/
def closed (size : Nat) (b : Bracket) : Bracket := { b with stop := some (b.stop.getD size) }

theorem closeAll_opened {pos : Nat} {k : Control} (h : Scope.Nested pos k) (size : Nat) :
    Control.closeAll k.brackets k.opened size = k.brackets.map (closed size) := by
  refine Array.ext_getElem? fun i => ?_
  rw [Control.getElem?_closeAll, Array.getElem?_map]
  cases hb : k.brackets[i]? with
  | none => rfl
  | some b =>
    simp only [Option.map_some, Option.some.injEq, closed]
    split
    · next hi => rw [(h.stop_eq_none_iff hb).2 hi]; rfl
    · next hi =>
      obtain ⟨p, hp⟩ := Option.ne_none_iff_exists'.1 (mt (h.stop_eq_none_iff hb).1 hi)
      obtain ⟨kind, start, stop, parent, hint⟩ := b
      obtain rfl : stop = some p := hp
      rfl

section Settle

variable {text : Text} {d : Dialect}

/-- The code behind the frame of a bracket. -/
theorem exists_follow {b : Bracket}
    (hb : b ∈ (({ rest := text } : Scope.State).run d).control.brackets) :
    let final := ({ rest := text } : Scope.State).run d
    ∃ w, codeFrom (Text.utf8 text) 2 (ScopeMap.joinPieces final.pieces.reverse)
        (b.stop.getD final.pos + 1) = some ((Text.utf8 w).take 2) ∧
      (b.stop.map fun p => ScopeMap.codeAfter final.pieces.reverse (p + 1)).getD [] =
        w.take 2 := by
  intro final
  cases hstop : b.stop with
  | some p => exact codeFrom_behind hb hstop
  | none =>
    refine ⟨[], ?_, rfl⟩
    have hall : ∀ s ∈ ScopeMap.joinPieces final.pieces.reverse, s.stop ≤ final.pos + 1 := by
      intro s hs
      have hstops : s.stop ≤ Text.size text := ScopeMap.stop_le_size hs
      have hend : final.pos = 0 + Text.size text := Scope.State.pos_run d _
      omega
    rw [codeFrom, List.dropWhile_eq_nil_iff.2 (by simpa using hall)]
    rfl

/-- The bracket around a recorded bracket is a recorded one. -/
theorem parent?_eq {pos : Nat} {k : Control} (h : Scope.Nested pos k) {b : Bracket} {i : Nat}
    (hb : k.brackets[i]? = some b) (size : Nat) :
    parent? (k.brackets.map (closed size)) (closed size b) =
      some ((b.parent.bind (k.brackets[·]?)).map (closed size)) := by
  rw [parent?, show (closed size b).parent = b.parent from rfl]
  cases hp : b.parent with
  | none => rfl
  | some p =>
    obtain ⟨b', hb', -⟩ := (h.parent i b hb).1 p hp
    simp [hb']

theorem isParamList_eq (brackets : Array Bracket) {pieces : List Piece} {b : Bracket} {w : Text}
    (hfollow : (b.stop.map fun p => ScopeMap.codeAfter pieces (p + 1)).getD [] = w.take 2) :
    ScopeMap.isParamList brackets pieces b = (!(b.hint.afterControl && !b.hint.afterCatch) &&
      holdsParams (((b.parent.bind (brackets[·]?)).map (·.kind.isDeclarationBody)).getD false)
        b.hint (w.take 2)) := by
  rw [ScopeMap.isParamList, holdsParams, List.take_take, Nat.min_self]
  cases hstop : b.stop <;> simp only [hstop, Option.map_none, Option.map_some, Option.getD_none,
    Option.getD_some] at hfollow <;> simp only [hfollow]

/-- The frame of a bracket, when all that it is made of can be looked up. -/
theorem settle_of {src : List UInt8} {spans : List Span} {brackets : Array Bracket} {b : Bracket}
    {stop : Nat} {parent : Option Bracket} {bytes : List UInt8} (hstop : b.stop = some stop)
    (hparent : parent? brackets b = some parent)
    (hcode : codeFrom src 2 spans (stop + 1) = some bytes) :
    settle src spans brackets b = some
      { kind := if b.kind = .parens ∧ (!(b.hint.afterControl && !b.hint.afterCatch) &&
            holdsParams ((parent.map (·.kind.isDeclarationBody)).getD false) b.hint
              (bytes.map seen)) then .paramList else b.kind
        start := b.start
        stop := stop } := by
  simp only [settle, hstop, hparent, hcode, Option.bind_eq_bind, Option.bind_some]
  by_cases hparens : b.kind = .parens
  · cases hcontrol : b.hint.afterControl && !b.hint.afterCatch <;> simp [hparens]
  · simp [hparens]

theorem settle_eq {b : Bracket} {i : Nat} :
    let final := ({ rest := text } : Scope.State).run d
    final.control.brackets[i]? = some b →
    settle (Text.utf8 text) (ScopeMap.joinPieces final.pieces.reverse)
        (final.control.brackets.map (closed final.pos)) (closed final.pos b) =
      some (ScopeMap.settle final.control.brackets final.pieces.reverse final.pos b) := by
  intro final hb
  obtain ⟨w, hcode, hfollow⟩ := exists_follow (Array.mem_of_getElem? hb)
  have hparent := parent?_eq (ScopeMap.nested_run text d) hb final.pos
  have hbody (p : Option Bracket) :
      (p.map (closed final.pos)).map (·.kind.isDeclarationBody) =
        p.map (·.kind.isDeclarationBody) := Option.map_map ..
  rw [settle_of rfl hparent hcode, ScopeMap.settle, isParamList_eq _ hfollow, hbody,
    holdsParams_seen]
  rfl

end Settle

theorem mapM_eq_map {α β : Type} {f : α → Option β} {g : α → β} {l : List α}
    (h : ∀ x ∈ l, f x = some (g x)) : l.mapM f = some (l.map g) := by
  induction l with
  | nil => rfl
  | cons x l ih =>
    obtain ⟨hx, hl⟩ := List.forall_mem_cons.1 h
    rw [List.mapM_cons, hx, ih hl]
    rfl

/-- The scanner over bytes never fails, and it gives the scope map. -/
theorem scan_eq (text : Text) (d : Dialect) : scan text d = some (ScopeMap.scan text d) := by
  have hend : (({ rest := text } : Scope.State).run d).pos = (Text.utf8 text).length := by
    rw [Text.length_utf8]
    exact (Scope.State.pos_run d _).trans (Nat.zero_add _)
  rw [scan, run_eq, Option.bind_eq_bind, Option.bind_some]
  simp only [ofState, List.reverse_reverse, ← hend, Array.toList_map, List.mapM_map,
    closeAll_opened (ScopeMap.nested_run text d)]
  rw [mapM_eq_map fun b hb => ?frame]
  · rfl
  case frame =>
    obtain ⟨i, hi⟩ := List.getElem?_of_mem hb
    exact settle_eq (by rwa [Array.getElem?_toList] at hi)

end SourceMend.Bytes
