import SourceMend.Pattern.Node
import SourceMend.Text.Alphabet

/-! A place in a text: the character before it, the text after it, and its byte offset. -/
namespace SourceMend.Pattern

structure Cursor where
  prev : Option Char
  rest : Text
  pos : Nat
  deriving Repr, Inhabited, DecidableEq

namespace Cursor

def start (t : Text) : Cursor := ⟨none, t, 0⟩

def next (k : Cursor) : Option Char := k.rest.head?

/-- The text from one place up to a later one. -/
def upTo (k l : Cursor) : Text := k.rest.takeBytes (l.pos - k.pos)

/-- The places of a text from `k` on. -/
def places (k : Cursor) : List Cursor := go k.prev k.pos k.rest
where
  go (prev : Option Char) (pos : Nat) : Text → List Cursor
    | [] => [⟨prev, [], pos⟩]
    | c :: cs => ⟨prev, c :: cs, pos⟩ :: go (some c) (pos + c.utf8Size) cs

end Cursor

def isWordChar (ascii : Bool) (c : Char) : Bool :=
  if ascii then c.isAlphanum || c = '_' else Alphabet.word.contains c

def WordEdge.holds (edge : WordEdge) (before after : Bool) : Bool :=
  match edge with
  | .boundary => before != after
  | .noBoundary => before == after
  | .start => !before && after
  | .stop => before && !after
  | .startHalf => !before
  | .stopHalf => !after

/-- Whether an assertion holds at a place. A carriage return and a line feed end one line. -/
def Look.holds (l : Look) (k : Cursor) : Bool :=
  match l with
  | .textStart => k.prev.isNone
  | .textEnd => k.rest.isEmpty
  | .lineStart false => k.prev.all (· = '\n')
  | .lineEnd false => k.next.all (· = '\n')
  | .lineStart true => k.prev.all (· = '\n') || (k.prev = some '\r' && k.next ≠ some '\n')
  | .lineEnd true => k.next.all (· = '\r') || (k.next = some '\n' && k.prev ≠ some '\r')
  | .word edge ascii => edge.holds (k.prev.any (isWordChar ascii)) (k.next.any (isWordChar ascii))

end SourceMend.Pattern
