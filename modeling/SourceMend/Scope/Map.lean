import SourceMend.Scope.Scanner

/-!
The scope map of a text: its spans and its frames. `kindAt`, `isCode` and `frameAt` are the
questions that rules ask about a place in the text.
-/
namespace SourceMend

structure ScopeMap where
  size : Nat
  spans : List Span
  frames : List Frame
  deriving Repr, Inhabited

namespace ScopeMap

/-- Joins neighbouring pieces of one kind into spans. -/
def joinPieces : List Scope.Piece → List Span
  | [] => []
  | p :: ps =>
    match joinPieces ps with
    | s :: ss =>
      if s.kind = p.kind then { s with start := p.start } :: ss
      else ⟨p.kind, p.start, p.start + Text.size p.text⟩ :: s :: ss
    | [] => [⟨p.kind, p.start, p.start + Text.size p.text⟩]

def isBlank (c : Char) : Bool := c = ' ' || c = '\t' || c = '\n' || c = '\r' || c = '\x0c'

/-- The first `n` characters of the code at the front of some pieces. -/
def codeFront (n : Nat) : List Scope.Piece → Text
  | [] => []
  | p :: ps =>
    if n = 0 ∨ p.kind ≠ .code then [] else p.text.take n ++ codeFront (n - p.text.length) ps

/-- The first `n` characters of the first run of code that does not start with a blank. -/
def firstCode (n : Nat) : List Scope.Piece → Text
  | [] => []
  | p :: ps =>
    match p.text.dropWhile isBlank with
    | [] => firstCode n ps
    | t => if p.kind = .code then codeFront n ({ p with text := t } :: ps) else firstCode n ps

/-- The two characters of code that come next at or after byte `pos`. -/
def codeAfter (pieces : List Scope.Piece) (pos : Nat) : Text :=
  firstCode 2 (pieces.dropWhile (·.start < pos))

/-- Whether a parenthesis holds the parameters of a function or method. -/
def isParamList (brackets : Array Bracket) (pieces : List Scope.Piece) (b : Bracket) : Bool :=
  let follow := match b.stop with
    | some pos => codeAfter pieces (pos + 1)
    | none => []
  let inBody := ((b.parent.bind (brackets[·]?)).map (·.kind.isDeclarationBody)).getD false
  !(b.hint.afterControl && !b.hint.afterCatch) &&
    (follow = ['=', '>'] || b.hint.afterFunction || b.hint.afterCatch ||
      (inBody && !b.hint.hasAssign) ||
      (b.hint.afterWord && (follow.head? = some '{' || follow.head? = some ':')))

def settle (brackets : Array Bracket) (pieces : List Scope.Piece) (size : Nat) (b : Bracket) :
    Frame where
  kind := if b.kind = .parens ∧ isParamList brackets pieces b then .paramList else b.kind
  start := b.start
  stop := b.stop.getD size

def ofState (s : Scope.State) : ScopeMap :=
  let pieces := s.pieces.reverse
  { size := s.pos
    spans := joinPieces pieces
    frames := s.control.brackets.toList.map (settle s.control.brackets pieces s.pos) }

def scan (text : Text) (d : Dialect) : ScopeMap := ofState (({ rest := text } : Scope.State).run d)

/-- The kind of the span at byte `pos`; past the end everything is code. -/
def kindAt (m : ScopeMap) (pos : Nat) : SpanKind :=
  ((m.spans.find? fun s => pos < s.stop).map (·.kind)).getD .code

/-- Whether every byte from `start` up to `stop` is code. -/
def isCode (m : ScopeMap) (start stop : Nat) : Bool :=
  if stop ≤ start then m.kindAt start = .code
  else ((m.spans.dropWhile (·.stop ≤ start)).takeWhile (·.start < stop)).all (·.kind = .code)

/-- The kind of the innermost frame at byte `pos`. -/
def frameAt (m : ScopeMap) (pos : Nat) : Option FrameKind :=
  (m.frames.reverse.find? fun f => f.encloses pos && pos ≤ m.size).map (·.kind)

end ScopeMap
end SourceMend
