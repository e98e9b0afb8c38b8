import SourceMend.Scope.Dialect
import SourceMend.Scope.Frame
import SourceMend.Scope.Span
import SourceMend.Scope.Token

/-!
The scanner: a machine that reads a text one token at a time and says for each token whether it
is code or literal text, keeping the open brackets as it goes. It never fails: a closing bracket
with no partner is read as punctuation, and what is open at the end stays open to the end.

A step consumes at least one character, so `State.run` ends, and every piece it records is a
run of whole characters of the input.
-/
namespace SourceMend.Scope

/-- What the scanner is inside of. The depth of an element wraps. -/
inductive Mode where
  | code
  | template
  /-- Between the angle brackets of a tag, `depth` elements deep. -/
  | tag (depth : UInt32) (closing : Bool)
  /-- Between the tags of an element, `depth` elements deep. -/
  | children (depth : UInt32)
  deriving DecidableEq, Repr, Inhabited

/-- What a closing bracket may close: a recorded bracket, or an interpolation. -/
inductive Opener where
  | bracket (index : Nat)
  | template
  | markup
  deriving DecidableEq, Repr, Inhabited

/-- The memory of the scanner. All stacks have their top first; a head holds the tokens of the
current statement or member, the latest first. -/
structure Control where
  modes : List Mode := [.code]
  openers : List Opener := []
  heads : List (List Token) := [[]]
  last : Option Token := none
  lastClosedBrace : Option FrameKind := none
  brackets : Array Bracket := #[]
  deriving Repr, Inhabited

namespace Control

def mode (k : Control) : Mode := k.modes.head?.getD .code

def head (k : Control) : List Token := k.heads.head?.getD []

def setHead (k : Control) (head : List Token) : Control := { k with heads := head :: k.heads.tail }

def clearHead (k : Control) : Control := k.setHead []

def push (k : Control) (t : Token) : Control := { k.setHead (t :: k.head) with last := some t }

def pushMode (k : Control) (m : Mode) : Control := { k with modes := m :: k.modes }

def popMode (k : Control) : Control := { k with modes := k.modes.tail }

def replaceMode (k : Control) (m : Mode) : Control := { k with modes := m :: k.modes.tail }

/-- The innermost open bracket, looking through interpolations. -/
def currentBracket (k : Control) : Option Nat :=
  k.openers.findSome? fun
    | .bracket i => some i
    | _ => none

def currentKind (k : Control) : Option FrameKind :=
  (k.currentBracket.bind (k.brackets[·]?)).map (·.kind)

def headWords (k : Control) : List String :=
  k.head.reverse.filterMap fun
    | .word w => some w
    | _ => none

/-- The kind of frame that a brace opens, judged by the tokens before it. -/
def braceKind (k : Control) : FrameKind :=
  let words := k.headWords
  let endsWithColon := k.head.head? = some (.punct ':')
  if words.contains "interface" || words.contains "enum" then .typeBody
  else if words.contains "class" then .classBody
  else if words.find? (!Token.declModifiers.contains ·) = some "type" ∧
      k.head.contains (.punct '=') then .typeBody
  else if k.currentKind = some .typeBody then .typeBody
  else if endsWithColon ∧ (k.currentKind = some .classBody ∨ k.currentKind = some .parens ∨
      k.currentKind = some .paramList) then .typeBody
  else if (k.head = [.punct '&', .punct '}'] ∨ k.head = [.punct '|', .punct '}']) ∧
      k.lastClosedBrace = some .typeBody then .typeBody
  else .block

def parenHint (k : Control) : ParenHint :=
  let last := k.head.head?
  let control := match last with
    | some (.word w) => Token.controlWords.contains w
    | _ => false
  { afterFunction := k.head.contains (.word "function")
    afterWord := match last with
      | some (.word _) => !control
      | some (.punct c) => c = '>'
      | _ => false
    afterControl := control
    afterCatch := last = some (.word "catch")
    hasAssign := k.head.contains (.punct '=') }

def openBracket (k : Control) (c : Char) (pos : Nat) (kind : FrameKind) (hint : ParenHint) :
    Control :=
  { k with
    brackets := k.brackets.push { kind, start := pos, parent := k.currentBracket, hint }
    openers := .bracket k.brackets.size :: k.openers
    heads := [] :: k.heads
    last := some (.punct c) }

def openInterpolation (k : Control) (opener : Opener) : Control :=
  { k with
    openers := opener :: k.openers
    heads := [] :: k.heads
    last := none
    modes := .code :: k.modes }

def closeInterpolation (k : Control) : Control :=
  { k with openers := k.openers.tail, heads := k.heads.tail, modes := k.modes.tail }

/-- The brackets to close, innermost first, so that `c` meets its partner; an interpolation is
never crossed. -/
def partner (brackets : Array Bracket) (c : Char) : List Opener → Option (List Nat)
  | .bracket i :: rest =>
    match brackets[i]? with
    | some b => if b.kind.closedBy c then some [i] else (partner brackets c rest).map (i :: ·)
    | none => none
  | _ => none

def closeAll (brackets : Array Bracket) (indices : List Nat) (pos : Nat) : Array Bracket :=
  indices.foldl (fun bs i => bs.modify i fun b => { b with stop := some pos }) brackets

/-- Closes brackets for the closing bracket `c` at `pos`; a stray one is mere punctuation. -/
def closeBracket (k : Control) (c : Char) (pos : Nat) : Control :=
  match partner k.brackets c k.openers with
  | none => k.push (.punct c)
  | some indices =>
    let closed := (indices.getLast?.bind (k.brackets[·]?)).map (·.kind)
    let k' := { k with
      brackets := closeAll k.brackets indices pos
      openers := k.openers.drop indices.length
      heads := k.heads.drop indices.length }
    if c = '}' then ({ k' with lastClosedBrace := closed }.clearHead).push (.punct c)
    else k'.push (.punct c)

/-- In a declaration body a newline ends a member unless the line is clearly continued. -/
def newline (k : Control) : Control :=
  if (k.currentKind.map FrameKind.isDeclarationBody).getD false && Token.endsMember k.last then
    k.clearHead
  else k

/-- The element at `depth` is finished. -/
def leaveElement (k : Control) (depth : UInt32) : Control :=
  if depth ≤ 1 then k.popMode.push .value else k.replaceMode (.children (depth - 1))

end Control

/-- One step: the kind of the token read, how many characters follow its first one, and the
memory afterwards. -/
structure Step where
  kind : SpanKind
  extent : Nat
  control : Control

/-- A step on code. The token starts with `c` at byte `pos`, and `cs` follows. -/
def stepCode (d : Dialect) (k : Control) (pos : Nat) (c : Char) (cs : Text) : Step :=
  let next := cs.head?
  if c = '/' ∧ next = some '/' then ⟨.lineComment, Token.lineCommentExtent cs, k⟩
  else if c = '/' ∧ next = some '*' then
    ⟨.blockComment, 1 + Token.blockCommentExtent cs.tail, k⟩
  else if c = '/' ∧ Token.allowsRegex k.last then
    ⟨.regex, Token.regexExtent false cs, k.push .value⟩
  else if c = '\'' ∨ c = '"' then ⟨.string, Token.stringExtent c cs, k.push .value⟩
  else if c = '`' then ⟨.template, 0, k.pushMode .template⟩
  else if c = '<' ∧ d = .markup ∧ (next.any fun n => n.isAlpha || n = '>') ∧
      Token.allowsMarkup k.last then
    ⟨.markup, 0, k.pushMode (.tag 1 false)⟩
  else if c = '{' then ⟨.code, 0, k.openBracket c pos k.braceKind {}⟩
  else if c = '(' then ⟨.code, 0, k.openBracket c pos .parens k.parenHint⟩
  else if c = '[' then ⟨.code, 0, k.openBracket c pos .brackets {}⟩
  else if c = '}' ∧ k.openers.head? = some .template then ⟨.template, 0, k.closeInterpolation⟩
  else if c = '}' ∧ k.openers.head? = some .markup then ⟨.markup, 0, k.closeInterpolation⟩
  else if c = '}' ∨ c = ')' ∨ c = ']' then ⟨.code, 0, k.closeBracket c pos⟩
  else if c = ';' then ⟨.code, 0, { k.clearHead with last := some (.punct c) }⟩
  else if c = '\n' then ⟨.code, 0, k.newline⟩
  else if c = ' ' ∨ c = '\t' ∨ c = '\r' then ⟨.code, 0, k⟩
  else if Token.isIdentStart c then
    let rest := cs.takeWhile Token.isIdentContinue
    ⟨.code, rest.length, k.push (.word (String.ofList (c :: rest)))⟩
  else if c.isDigit then ⟨.code, (cs.takeWhile Token.isNumberContinue).length, k.push .value⟩
  else ⟨.code, 0, k.push (.punct c)⟩

def stepTemplate (k : Control) (c : Char) (cs : Text) : Step :=
  if c = '\\' then ⟨.template, 1, k⟩
  else if c = '`' then ⟨.template, 0, k.popMode.push .value⟩
  else if c = '$' ∧ cs.head? = some '{' then ⟨.template, 1, k.openInterpolation .template⟩
  else ⟨.template, 0, k⟩

def stepTag (k : Control) (depth : UInt32) (closing : Bool) (c : Char) (cs : Text) : Step :=
  if c = '"' ∨ c = '\'' then ⟨.string, Token.stringExtent c cs, k⟩
  else if c = '{' then ⟨.markup, 0, k.openInterpolation .markup⟩
  else if c = '/' ∧ cs.head? = some '>' then ⟨.markup, 1, k.leaveElement depth⟩
  else if c = '>' then
    ⟨.markup, 0, if closing then k.leaveElement depth else k.replaceMode (.children depth)⟩
  else ⟨.markup, 0, k⟩

def stepChildren (k : Control) (depth : UInt32) (c : Char) (cs : Text) : Step :=
  if c = '<' ∧ cs.head? = some '/' then ⟨.markup, 1, k.replaceMode (.tag depth true)⟩
  else if c = '<' then ⟨.markup, 0, k.replaceMode (.tag (depth + 1) false)⟩
  else if c = '{' then ⟨.markup, 0, k.openInterpolation .markup⟩
  else ⟨.markup, 0, k⟩

def step (d : Dialect) (k : Control) (pos : Nat) (c : Char) (cs : Text) : Step :=
  match k.mode with
  | .code => stepCode d k pos c cs
  | .template => stepTemplate k c cs
  | .tag depth closing => stepTag k depth closing c cs
  | .children depth => stepChildren k depth c cs

/-- A token as it was read: its kind, the byte where it starts and its characters. -/
structure Piece where
  kind : SpanKind
  start : Nat
  text : Text
  deriving DecidableEq, Repr, Inhabited

/-- A point of a run: what is left to read, the byte reached, and the pieces so far, the latest
first. -/
structure State where
  rest : Text
  pos : Nat := 0
  pieces : List Piece := []
  control : Control := {}

namespace State

def advance (d : Dialect) (s : State) : State :=
  match s.rest with
  | [] => s
  | c :: cs =>
    let st := step d s.control s.pos c cs
    let text := c :: cs.take st.extent
    { rest := cs.drop st.extent
      pos := s.pos + Text.size text
      pieces := ⟨st.kind, s.pos, text⟩ :: s.pieces
      control := st.control }

theorem advance_rest_lt (d : Dialect) (s : State) (h : s.rest ≠ []) :
    (s.advance d).rest.length < s.rest.length := by
  unfold advance
  split
  · contradiction
  · next c cs hc =>
    rw [hc]
    simp only [List.length_drop, List.length_cons]
    omega

/-- Reads to the end of the text. -/
def run (d : Dialect) (s : State) : State :=
  if s.rest = [] then s else run d (s.advance d)
termination_by s.rest.length
decreasing_by exact advance_rest_lt d s ‹_›

end State
end SourceMend.Scope
