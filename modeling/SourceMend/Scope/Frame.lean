/-!
Frames: the regions between matching brackets. While a text is read, a `Bracket` records an
opening bracket with what was known at that point; a `Frame` is the settled region.
-/
namespace SourceMend

inductive FrameKind where
  /-- The body of an interface, a type literal or an enum. -/
  | typeBody
  | classBody
  /-- A statement block or an object literal. -/
  | block
  /-- Call arguments, grouping, conditions. -/
  | parens
  | paramList
  | brackets
  deriving DecidableEq, Repr, Inhabited

namespace FrameKind

def isDeclarationBody : FrameKind → Bool
  | .typeBody | .classBody => true
  | _ => false

/-- Whether the closing bracket `c` can end a frame of this kind. -/
def closedBy (kind : FrameKind) (c : Char) : Bool :=
  match kind with
  | .typeBody | .classBody | .block => c = '}'
  | .parens | .paramList => c = ')'
  | .brackets => c = ']'

end FrameKind

/-- What stood before an opening parenthesis. -/
structure ParenHint where
  afterFunction : Bool := false
  afterWord : Bool := false
  afterControl : Bool := false
  afterCatch : Bool := false
  hasAssign : Bool := false
  deriving DecidableEq, Repr, Inhabited

/-- An opening bracket at byte `start`; `stop` is the byte of its closing bracket once read. -/
structure Bracket where
  kind : FrameKind
  start : Nat
  stop : Option Nat := none
  parent : Option Nat := none
  hint : ParenHint := {}
  deriving DecidableEq, Repr, Inhabited

/-- The region after the opening bracket at `start` up to the closing bracket at `stop`. -/
structure Frame where
  kind : FrameKind
  start : Nat
  stop : Nat
  deriving DecidableEq, Repr, Inhabited

/-- The opening bracket belongs to the enclosing frame, the closing one to its own. -/
def Frame.encloses (f : Frame) (offset : Nat) : Bool := f.start < offset && offset ≤ f.stop

end SourceMend
