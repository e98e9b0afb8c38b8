import SourceMend.Proofs.Bytes.Loops
import SourceMend.Proofs.Scope.Nesting

/-!
The scanner over bytes. It looks at one byte at a time, steps over two bytes after a backslash, and
cuts words out of the text by the bytes where they start and end. It fails when it reads a byte
that is not there, takes a byte inside a character for code, cuts the text inside a character, or
looks up a bracket that was not recorded. What a step marks and where it goes on are two things.
-/
namespace SourceMend.Bytes

open Scope (Control)

/-- One step: the bytes that it marks, the byte that it goes on to, and the memory afterwards. -/
structure Step where
  marked : Span
  next : Nat
  control : Control

section Step

variable (text : Text)

/-- A step on code that starts at byte `start`. -/
def stepCode (d : Dialect) (k : Control) (start : Nat) : Option Step := do
  let src := Text.utf8 text
  let c := seen (← src[start]?)
  let next := src[start + 1]?.map seen
  if c = '/' ∧ next = some '/' then
    (lineEnd src start).map fun stop => ⟨⟨.lineComment, start, stop⟩, stop, k⟩
  else if c = '/' ∧ next = some '*' then
    (commentEnd src (start + 2)).map fun stop => ⟨⟨.blockComment, start, stop⟩, stop, k⟩
  else if c = '/' ∧ Token.allowsRegex k.last then
    (regexEnd src false (start + 1)).map fun stop =>
      ⟨⟨.regex, start, stop⟩, stop, k.push .value⟩
  else if c = '\'' ∨ c = '"' then
    (stringEnd src c (start + 1)).map fun stop => ⟨⟨.string, start, stop⟩, stop, k.push .value⟩
  else if c = '`' then
    some ⟨⟨.template, start, start + 1⟩, start + 1, k.pushMode .template⟩
  else if c = '<' ∧ d = .markup ∧ (next.any fun n => n.isAlpha || n = '>') ∧
      Token.allowsMarkup k.last then
    some ⟨⟨.markup, start, start + 1⟩, start + 1, k.pushMode (.tag 1 false)⟩
  else if c = '{' then
    some ⟨⟨.code, start, start + 1⟩, start + 1, k.openBracket c start k.braceKind {}⟩
  else if c = '(' then
    some ⟨⟨.code, start, start + 1⟩, start + 1, k.openBracket c start .parens k.parenHint⟩
  else if c = '[' then
    some ⟨⟨.code, start, start + 1⟩, start + 1, k.openBracket c start .brackets {}⟩
  else if c = '}' ∧ k.openers.head? = some .template then
    some ⟨⟨.template, start, start + 1⟩, start + 1, k.closeInterpolation⟩
  else if c = '}' ∧ k.openers.head? = some .markup then
    some ⟨⟨.markup, start, start + 1⟩, start + 1, k.closeInterpolation⟩
  else if c = '}' ∨ c = ')' ∨ c = ']' then
    some ⟨⟨.code, start, start + 1⟩, start + 1, k.closeBracket c start⟩
  else if c = ';' then
    some ⟨⟨.code, start, start + 1⟩, start + 1, { k.clearHead with last := some (.punct c) }⟩
  else if c = '\n' then some ⟨⟨.code, start, start + 1⟩, start + 1, k.newline⟩
  else if c = ' ' ∨ c = '\t' ∨ c = '\r' then some ⟨⟨.code, start, start + 1⟩, start + 1, k⟩
  else if Token.isIdentStart c then do
    let stop ← runEnd src Token.isIdentContinue (start + 1)
    let word ← slice? text start stop
    some ⟨⟨.code, start, stop⟩, stop, k.push (.word (String.ofList word))⟩
  else if c.isDigit then
    (runEnd src Token.isNumberContinue (start + 1)).map fun stop =>
      ⟨⟨.code, start, stop⟩, stop, k.push .value⟩
  else some ⟨⟨.code, start, start + 1⟩, start + 1, k.push (.punct c)⟩

def stepTemplate (k : Control) (start : Nat) : Option Step := do
  let src := Text.utf8 text
  let c := seen (← src[start]?)
  if c = '\\' then
    let stop := min (start + 2) src.length
    some ⟨⟨.template, start, stop⟩, stop, k⟩
  else if c = '`' then some ⟨⟨.template, start, start + 1⟩, start + 1, k.popMode.push .value⟩
  else if c = '$' ∧ src[start + 1]?.map seen = some '{' then
    some ⟨⟨.template, start, start + 2⟩, start + 2, k.openInterpolation .template⟩
  else some ⟨⟨.template, start, start + 1⟩, start + 1, k⟩

def stepTag (k : Control) (depth : UInt32) (closing : Bool) (start : Nat) : Option Step := do
  let src := Text.utf8 text
  let c := seen (← src[start]?)
  if c = '"' ∨ c = '\'' then
    (stringEnd src c (start + 1)).map fun stop => ⟨⟨.string, start, stop⟩, stop, k⟩
  else if c = '{' then
    some ⟨⟨.markup, start, start + 1⟩, start + 1, k.openInterpolation .markup⟩
  else if c = '/' ∧ src[start + 1]?.map seen = some '>' then
    some ⟨⟨.markup, start, start + 2⟩, start + 2, k.leaveElement depth⟩
  else if c = '>' then
    some ⟨⟨.markup, start, start + 1⟩, start + 1,
      if closing then k.leaveElement depth else k.replaceMode (.children depth)⟩
  else some ⟨⟨.markup, start, start + 1⟩, start + 1, k⟩

def stepChildren (k : Control) (depth : UInt32) (start : Nat) : Option Step := do
  let src := Text.utf8 text
  let c := seen (← src[start]?)
  if c = '<' ∧ src[start + 1]?.map seen = some '/' then
    some ⟨⟨.markup, start, start + 2⟩, start + 2, k.replaceMode (.tag depth true)⟩
  else if c = '<' then
    some ⟨⟨.markup, start, start + 1⟩, start + 1, k.replaceMode (.tag (depth + 1) false)⟩
  else if c = '{' then
    some ⟨⟨.markup, start, start + 1⟩, start + 1, k.openInterpolation .markup⟩
  else some ⟨⟨.markup, start, start + 1⟩, start + 1, k⟩

/-- A step at byte `start`. The open brackets must be recorded ones, and code must start at a
boundary. -/
def step (d : Dialect) (k : Control) (start : Nat) : Option Step :=
  if k.opened.all (· < k.brackets.size) then
    match k.mode with
    | .code => if isBoundary (Text.utf8 text) start then stepCode text d k start else none
    | .template => stepTemplate text k start
    | .tag depth closing => stepTag text k depth closing start
    | .children depth => stepChildren text k depth start
  else none

end Step

/-- The spans with one more run of bytes behind them, which joins the last span if it goes on from
there with bytes of the same kind. All lists of spans have the last one first. -/
def mark (m : Span) (spans : List Span) : List Span :=
  if m.stop ≤ m.start then spans
  else
    match spans with
    | s :: rest =>
      if s.kind = m.kind ∧ s.stop = m.start then { s with stop := m.stop } :: rest else m :: spans
    | [] => [m]

/-- A point of a run. -/
structure State where
  pos : Nat := 0
  spans : List Span := []
  control : Control := {}

def State.after (s : State) (st : Step) : State where
  pos := st.next
  spans := mark st.marked s.spans
  control := st.control

/-- Reads as long as there is text. A run fails with a step of it, and with one that does not go on,
from which it would have no end. -/
def run (text : Text) (d : Dialect) (s : State) : Option State :=
  if s.pos < (Text.utf8 text).length then do
    let st ← step text d s.control s.pos
    if s.pos < st.next then run text d (s.after st) else none
  else some s
termination_by (Text.utf8 text).length - s.pos
decreasing_by
  dsimp only [State.after]
  omega

/-! One step at a boundary -/

section Boundary

variable (front : Text) (c : Char) (cs : Text)

/-- A step in characters, as one in bytes. -/
def ofStep (st : Scope.Step) : Step :=
  let stop := Text.size (front ++ c :: cs.take st.extent)
  ⟨⟨st.kind, Text.size front, stop⟩, stop, st.control⟩

variable {front c cs}

theorem ite_agrees {p q : Prop} [Decidable p] [Decidable q] {x y : Option Step}
    {s t : Scope.Step} (hpq : p ↔ q) (hx : q → x = some (ofStep front c cs s))
    (hy : ¬ q → y = some (ofStep front c cs t)) :
    (if p then x else y) = some (ofStep front c cs (if q then s else t)) := by
  by_cases h : q
  · rw [if_pos (hpq.2 h), if_pos h, hx h]
  · rw [if_neg (mt hpq.1 h), if_neg h, hy h]

/-- A token of one character. -/
theorem one_agrees (hc : c.toNat < 0x80) (kind : SpanKind) (k : Control) :
    some (⟨⟨kind, Text.size front, Text.size front + 1⟩, Text.size front + 1, k⟩ : Step) =
      some (ofStep front c cs ⟨kind, 0, k⟩) := by
  simp [ofStep, utf8Size_ascii hc]

/-- The byte behind a character of ASCII. -/
theorem peek (hc : c.toNat < 0x80) :
    (Text.utf8 (front ++ c :: cs))[Text.size front + 1]? = cs.head?.map lead := by
  rw [← List.getElem?_drop, Text.drop_utf8, Text.utf8_cons, trail_ascii hc, List.nil_append,
    List.getElem?_cons_succ]
  cases cs with
  | nil => rfl
  | cons d cs => rw [Text.utf8_cons]; rfl

theorem peek_eq_iff (hc : c.toNat < 0x80) {a : Char} (ha : a.toNat < 0x80) :
    (Text.utf8 (front ++ c :: cs))[Text.size front + 1]?.map seen = some a ↔
      cs.head? = some a := by
  rw [peek hc]
  cases cs with
  | nil => simp
  | cons d cs => simp [seen_lead_eq_iff ha]

theorem peek_any (hc : c.toNat < 0x80) {p : Char → Bool} (hp : Coarse p) :
    ((Text.utf8 (front ++ c :: cs))[Text.size front + 1]?.map seen).any p = cs.head?.any p := by
  rw [peek hc]
  cases cs with
  | nil => rfl
  | cons d cs => simp [hp.lead]

theorem same_ascii (a : Char) (ha : a.toNat < 0x80) : seen (lead c) = a ↔ c = a :=
  seen_lead_eq_iff ha

theorem same_two (a b : Char) (ha : a.toNat < 0x80) (hb : b.toNat < 0x80) :
    (seen (lead c) = a ∧ (Text.utf8 (front ++ c :: cs))[Text.size front + 1]?.map seen = some b) ↔
      (c = a ∧ cs.head? = some b) := by
  rw [same_ascii a ha]
  refine and_congr_right fun hc => ?_
  subst hc
  exact peek_eq_iff ha hb

/-- A loop that starts behind a character of ASCII. -/
theorem loop_agrees (f : List UInt8 → Nat → Option Nat) (extent : Text → Nat)
    (hf : ∀ front back, f (Text.utf8 (front ++ back)) (Text.size front) =
      some (Text.size (front ++ back.take (extent back))))
    (hc : c.toNat < 0x80) (kind : SpanKind) (k : Control) :
    ((f (Text.utf8 (front ++ c :: cs)) (Text.size front + 1)).map fun stop =>
        (⟨⟨kind, Text.size front, stop⟩, stop, k⟩ : Step)) =
      some (ofStep front c cs ⟨kind, extent cs, k⟩) := by
  have hloop := hf (front ++ [c]) cs
  rw [Text.size_append, Text.size_cons, utf8Size_ascii hc, Text.size_nil, List.append_assoc,
    List.append_assoc, List.singleton_append, List.singleton_append] at hloop
  rw [hloop]
  rfl

/-- A word may start with a character beyond ASCII, and it goes on over all bytes of one. -/
theorem word_agrees (k : Control) :
    (do
      let stop ← runEnd (Text.utf8 (front ++ c :: cs)) Token.isIdentContinue (Text.size front + 1)
      let word ← slice? (front ++ c :: cs) (Text.size front) stop
      some (⟨⟨.code, Text.size front, stop⟩, stop, k.push (.word (String.ofList word))⟩ : Step)) =
    let rest := cs.takeWhile Token.isIdentContinue
    some (ofStep front c cs ⟨.code, rest.length, k.push (.word (String.ofList (c :: rest)))⟩) := by
  have hsteps : StepsOver (Text.utf8 (front ++ c :: cs))
      (runEnd (Text.utf8 (front ++ c :: cs)) Token.isIdentContinue) := by
    intro i b hget hb
    have hbeyond : 0x80 ≤ (seen b).toNat := by
      rw [toNat_seen]
      simp [isContinuation] at hb
      omega
    rw [runEnd_byte _ hget, if_pos (by simp [Token.isIdentContinue, isIdentStart_beyond hbeyond])]
  have hrun := runEnd_eq (front ++ [c]) coarse_isIdentContinue cs
  rw [← List.append_cons, ← List.append_cons] at hrun
  have hslice := slice?_between front (c :: cs.takeWhile Token.isIdentContinue)
    (cs.dropWhile Token.isIdentContinue)
  rw [List.append_assoc, List.cons_append, List.takeWhile_append_dropWhile] at hslice
  rw [hsteps.char, hrun, Option.bind_eq_bind, Option.bind_some, hslice]
  simp only [ofStep, take_length_takeWhile]
  rfl

theorem coarse_tagStart : Coarse fun n => n.isAlpha || n = '>' := by
  refine coarse_of_ascii fun n h => ?_
  rcases Bool.or_eq_true_iff.1 h with h | h
  · exact ascii_of_isAlpha h
  · rw [of_decide_eq_true h]
    decide

theorem stepCode_eq (d : Dialect) (k : Control) :
    stepCode (front ++ c :: cs) d k (Text.size front) =
      some (ofStep front c cs (Scope.stepCode d k (Text.size front) c cs)) := by
  have htag : (seen (lead c) = '<' ∧ d = .markup ∧
      (((Text.utf8 (front ++ c :: cs))[Text.size front + 1]?.map seen).any fun n =>
        n.isAlpha || n = '>') ∧ Token.allowsMarkup k.last) ↔
      (c = '<' ∧ d = .markup ∧ (cs.head?.any fun n => n.isAlpha || n = '>') ∧
        Token.allowsMarkup k.last) := by
    rw [same_ascii '<' (by decide)]
    refine and_congr_right fun hc => ?_
    subst hc
    rw [peek_any (by decide) coarse_tagStart]
  rw [stepCode, Scope.stepCode, Text.utf8_between]
  simp only [Option.bind_eq_bind, Option.bind_some]
  refine
    ite_agrees (same_two '/' '/' (by decide) (by decide)) (fun hc => ?lineComment) fun _ =>
    ite_agrees (same_two '/' '*' (by decide) (by decide)) (fun hc => ?blockComment) fun _ =>
    ite_agrees (and_congr_left fun _ => same_ascii '/' (by decide)) (fun hc => ?regex) fun _ =>
    ite_agrees (or_congr (same_ascii '\'' (by decide)) (same_ascii '"' (by decide)))
      (fun hc => ?string) fun _ =>
    ite_agrees (same_ascii '`' (by decide)) (fun hc => ?template) fun _ =>
    ite_agrees htag (fun hc => ?tag) fun _ =>
    ite_agrees (same_ascii '{' (by decide)) (fun hc => ?brace) fun _ =>
    ite_agrees (same_ascii '(' (by decide)) (fun hc => ?paren) fun _ =>
    ite_agrees (same_ascii '[' (by decide)) (fun hc => ?bracket) fun _ =>
    ite_agrees (and_congr_left fun _ => same_ascii '}' (by decide))
      (fun hc => ?templateEnd) fun _ =>
    ite_agrees (and_congr_left fun _ => same_ascii '}' (by decide))
      (fun hc => ?markupEnd) fun _ =>
    ite_agrees (or_congr (same_ascii '}' (by decide)) (or_congr (same_ascii ')' (by decide))
      (same_ascii ']' (by decide)))) (fun hc => ?close) fun _ =>
    ite_agrees (same_ascii ';' (by decide)) (fun hc => ?semicolon) fun _ =>
    ite_agrees (same_ascii '\n' (by decide)) (fun hc => ?newline) fun _ =>
    ite_agrees (or_congr (same_ascii ' ' (by decide)) (or_congr (same_ascii '\t' (by decide))
      (same_ascii '\r' (by decide)))) (fun hc => ?blank) fun _ =>
    ite_agrees (by rw [coarse_isIdentStart.lead]) (fun _ => word_agrees k) fun hword =>
    ite_agrees (by rw [coarse_isDigit.lead]) (fun hc => ?number) fun _ => ?punct
  case lineComment =>
    obtain ⟨rfl, -⟩ := hc
    have hline := lineEnd_eq front ('/' :: cs)
    rw [List.takeWhile_cons_of_pos (by decide)] at hline
    rw [hline]
    simp only [ofStep, Token.lineCommentExtent, take_length_takeWhile]
    rfl
  case blockComment =>
    obtain ⟨rfl, hstar⟩ := hc
    obtain ⟨cs, rfl⟩ := List.head?_eq_some_iff.1 hstar
    have hcomment := commentEnd_eq (front ++ ['/', '*']) cs
    rw [List.append_assoc, List.append_assoc, Text.size_append] at hcomment
    exact (congrArg (Option.map _) hcomment).trans (by simp [ofStep, Nat.add_comm 1])
  case regex =>
    exact loop_agrees (regexEnd · false) (Token.regexExtent false) (regexEnd_eq false)
      (by rw [hc.1]; decide) _ _
  case string =>
    have hascii : c.toNat < 0x80 := by rcases hc with rfl | rfl <;> decide
    rw [seen_lead_ascii hascii]
    exact loop_agrees (stringEnd · c) (Token.stringExtent c) (stringEnd_eq hascii) hascii _ _
  case template => exact one_agrees (by rw [hc]; decide) _ _
  case tag => exact one_agrees (by rw [hc.1]; decide) _ _
  case brace => subst hc; exact one_agrees (by decide) _ _
  case paren => subst hc; exact one_agrees (by decide) _ _
  case bracket => subst hc; exact one_agrees (by decide) _ _
  case templateEnd => exact one_agrees (by rw [hc.1]; decide) _ _
  case markupEnd => exact one_agrees (by rw [hc.1]; decide) _ _
  case close =>
    have hascii : c.toNat < 0x80 := by rcases hc with rfl | rfl | rfl <;> decide
    rw [seen_lead_ascii hascii]
    exact one_agrees hascii _ _
  case semicolon => subst hc; exact one_agrees (by decide) _ _
  case newline => exact one_agrees (by rw [hc]; decide) _ _
  case blank =>
    have hascii : c.toNat < 0x80 := by rcases hc with rfl | rfl | rfl <;> decide
    exact one_agrees hascii _ _
  case number =>
    refine loop_agrees (runEnd · Token.isNumberContinue)
      (fun t => (t.takeWhile Token.isNumberContinue).length) (fun front back => ?_)
      (ascii_of_isDigit hc) _ _
    rw [take_length_takeWhile, runEnd_eq _ coarse_isNumberContinue]
  case punct =>
    have hascii : c.toNat < 0x80 := Nat.not_le.1 fun h => hword (isIdentStart_beyond h)
    rw [seen_lead_ascii hascii]
    exact one_agrees hascii _ _

/-! Outside code -/

/-- All bytes from `start` up to `stop` lie inside characters. -/
def Inside (src : List UInt8) (start stop : Nat) : Prop :=
  ∀ i, start ≤ i → i < stop → ∃ b, src[i]? = some b ∧ isContinuation b = true

/-- The step in bytes reads the token that the step in characters reads, or it stops inside a
character of the token without any change to the memory. -/
inductive Starts (front : Text) (c : Char) (cs : Text) (k : Control) (kind : SpanKind) :
    Option Step → Scope.Step → Prop
  | whole (st : Scope.Step) : Starts front c cs k kind (some (ofStep front c cs st)) st
  | part {extent stop : Nat} : Text.size front < stop →
    stop ≤ Text.size (front ++ c :: cs.take extent) →
    Inside (Text.utf8 (front ++ c :: cs)) stop (Text.size (front ++ c :: cs.take extent)) →
    Starts front c cs k kind (some ⟨⟨kind, Text.size front, stop⟩, stop, k⟩) ⟨kind, extent, k⟩

section Starts

variable {k : Control} {kind : SpanKind}

theorem Starts.of_eq {x : Option Step} {st : Scope.Step} (h : x = some (ofStep front c cs st)) :
    Starts front c cs k kind x st :=
  h ▸ .whole st

theorem ite_starts {p q : Prop} [Decidable p] [Decidable q] {x y : Option Step}
    {s t : Scope.Step} (hpq : p ↔ q) (hx : q → Starts front c cs k kind x s)
    (hy : Starts front c cs k kind y t) :
    Starts front c cs k kind (if p then x else y) (if q then s else t) := by
  by_cases h : q
  · rw [if_pos (hpq.2 h), if_pos h]
    exact hx h
  · rw [if_neg (mt hpq.1 h), if_neg h]
    exact hy

theorem inside_char (front : Text) (c : Char) (cs : Text) :
    Inside (Text.utf8 (front ++ c :: cs)) (Text.size front + 1) (Text.size (front ++ [c])) := by
  intro i hlt hin
  obtain ⟨b, hb, hget⟩ := Text.utf8_inside front c cs (i := i) (by omega)
    (by simpa [Text.size_append] using hin)
  exact ⟨b, hget, isContinuation_of_mem_trail hb⟩

/-- A literal character is read byte by byte. -/
theorem starts_char :
    Starts front c cs k kind
      (some ⟨⟨kind, Text.size front, Text.size front + 1⟩, Text.size front + 1, k⟩)
      ⟨kind, 0, k⟩ := by
  have hpos := Char.utf8Size_pos c
  refine .part (by omega) ?_ (inside_char front c cs)
  simp only [List.take_zero, Text.size_append, Text.size_cons]
  omega

/-- The character behind a backslash is read byte by byte. -/
theorem starts_escape (hc : c = '\\') :
    let stop := min (Text.size front + 2) (Text.utf8 (front ++ c :: cs)).length
    Starts front c cs k kind (some ⟨⟨kind, Text.size front, stop⟩, stop, k⟩) ⟨kind, 1, k⟩ := by
  subst hc
  dsimp only
  have hwidth : '\\'.utf8Size = 1 := rfl
  have hsize : Text.size ['\\'] = 1 := rfl
  rw [Text.length_utf8]
  cases cs with
  | nil =>
    refine .of_eq ?_
    rw [Text.size_append, hsize, Nat.min_eq_right (by omega), ofStep, List.take_nil,
      Text.size_append, hsize]
  | cons d cs =>
    have hpos := Char.utf8Size_pos d
    have hinside := inside_char (front ++ ['\\']) d cs
    rw [Text.size_append, hsize, ← List.append_cons, ← List.append_cons] at hinside
    have hmin : min (Text.size front + 2) (Text.size (front ++ '\\' :: d :: cs)) =
        Text.size front + 2 := by
      simp only [Text.size_append, Text.size_cons, hwidth]
      omega
    rw [hmin]
    refine .part (by omega) ?_ hinside
    simp only [List.take_succ_cons, List.take_zero, Text.size_append, Text.size_cons, hwidth]
    omega

/-- A token of two characters. -/
theorem two_agrees {a b : Char} (ha : a.toNat < 0x80) (hb : b.toNat < 0x80) (kind : SpanKind)
    (k : Control) (h : c = a ∧ cs.head? = some b) :
    some (⟨⟨kind, Text.size front, Text.size front + 2⟩, Text.size front + 2, k⟩ : Step) =
      some (ofStep front c cs ⟨kind, 1, k⟩) := by
  obtain ⟨rfl, hhead⟩ := h
  obtain ⟨cs, rfl⟩ := List.head?_eq_some_iff.1 hhead
  simp [ofStep, utf8Size_ascii ha, utf8Size_ascii hb]

variable (k)

theorem stepTemplate_starts : Starts front c cs k .template
    (stepTemplate (front ++ c :: cs) k (Text.size front)) (Scope.stepTemplate k c cs) := by
  rw [stepTemplate, Scope.stepTemplate, Text.utf8_between]
  simp only [Option.bind_eq_bind, Option.bind_some]
  refine
    ite_starts (same_ascii '\\' (by decide)) starts_escape <|
    ite_starts (same_ascii '`' (by decide)) (fun hc => .of_eq ?_) <|
    ite_starts (same_two '$' '{' (by decide) (by decide)) (fun hc => .of_eq ?_) starts_char
  · exact one_agrees (by rw [hc]; decide) _ _
  · exact two_agrees (by decide) (by decide) _ _ hc

theorem stepTag_starts (depth : UInt32) (closing : Bool) : Starts front c cs k .markup
    (stepTag (front ++ c :: cs) k depth closing (Text.size front))
    (Scope.stepTag k depth closing c cs) := by
  rw [stepTag, Scope.stepTag, Text.utf8_between]
  simp only [Option.bind_eq_bind, Option.bind_some]
  refine
    ite_starts (or_congr (same_ascii '"' (by decide)) (same_ascii '\'' (by decide)))
      (fun hc => .of_eq ?string) <|
    ite_starts (same_ascii '{' (by decide)) (fun hc => .of_eq ?brace) <|
    ite_starts (same_two '/' '>' (by decide) (by decide)) (fun hc => .of_eq ?leave) <|
    ite_starts (same_ascii '>' (by decide)) (fun hc => .of_eq ?tagEnd) starts_char
  case string =>
    have hascii : c.toNat < 0x80 := by rcases hc with rfl | rfl <;> decide
    rw [seen_lead_ascii hascii]
    exact loop_agrees (stringEnd · c) (Token.stringExtent c) (stringEnd_eq hascii) hascii _ _
  case brace => exact one_agrees (by rw [hc]; decide) _ _
  case leave => exact two_agrees (by decide) (by decide) _ _ hc
  case tagEnd => exact one_agrees (by rw [hc]; decide) _ _

theorem stepChildren_starts (depth : UInt32) : Starts front c cs k .markup
    (stepChildren (front ++ c :: cs) k depth (Text.size front))
    (Scope.stepChildren k depth c cs) := by
  rw [stepChildren, Scope.stepChildren, Text.utf8_between]
  simp only [Option.bind_eq_bind, Option.bind_some]
  refine
    ite_starts (same_two '<' '/' (by decide) (by decide)) (fun hc => .of_eq ?_) <|
    ite_starts (same_ascii '<' (by decide)) (fun hc => .of_eq ?_) <|
    ite_starts (same_ascii '{' (by decide)) (fun hc => .of_eq ?_) starts_char
  · exact two_agrees (by decide) (by decide) _ _ hc
  · exact one_agrees (by rw [hc]; decide) _ _
  · exact one_agrees (by rw [hc]; decide) _ _

end Starts

end Boundary
end SourceMend.Bytes
