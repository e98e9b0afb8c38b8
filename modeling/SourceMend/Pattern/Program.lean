import SourceMend.Pattern.Node

/-!
Programs for matching. A program is written from its end: an instruction goes on to instructions
that stand already, apart from a loop, whose test is written before its body. `Node.emit` appends
the instructions of a node and gives the target where the node is entered.
-/
namespace SourceMend.Pattern

/-- Addresses are places in the program. -/
inductive Instr where
  /-- Takes a character of the set; `need` is the number of bytes that every way on takes. -/
  | char (set : CharSet) (next need : Nat)
  | look (l : Look) (next : Nat)
  /-- Tries `first` before `second`. -/
  | fork (first second : Nat)
  | opening (group next : Nat)
  | closing (group next : Nat)
  | accept
  deriving DecidableEq, Repr, Inhabited

/-- Tries another iteration or the way out, as greed asks. -/
def Instr.loop (greedy : Bool) (body exit : Nat) : Instr :=
  if greedy then .fork body exit else .fork exit body

/-- An address, and the number of bytes that every way on from it takes. -/
structure Target where
  address : Nat
  need : Nat
  deriving DecidableEq, Repr, Inhabited

/-- Instructions that are being written. -/
abbrev Code := Array Instr

/-- Appends one instruction. -/
def Code.write (code : Code) (i : Instr) (need : Nat) : Target × Code :=
  (⟨code.size, need⟩, code.push i)

/-- Appends what takes a character of a set, of `bytes` bytes at least. -/
def Code.writeChar (code : Code) (set : CharSet) (bytes : Nat) (next : Target) : Target × Code :=
  code.write (.char set next.address next.need) (bytes + next.need)

/-- Appends what takes a text. -/
def Code.writeText (code : Code) (text : Text) (next : Target) : Target × Code :=
  text.foldr (fun c (next, code) => code.writeChar (CharSet.singleton c) c.utf8Size next)
    (next, code)

/-- Appends a loop that is left to `next`, and gives the targets of its test and of its body. -/
def Code.writeLoop (code : Code) (body : Target → Code → Target × Code) (greedy : Bool)
    (next : Target) : Target × Target × Code :=
  let test : Target := ⟨code.size, next.need⟩
  let (start, code) := body test (code.push (.fork next.address next.address))
  (test, start, code.setIfInBounds test.address (.loop greedy start.address next.address))

/-- Appends `n` bodies that follow each other. -/
def Code.writeTimes (body : Target → Code → Target × Code) :
    Nat → Target → Code → Target × Code
  | 0, next, code => (next, code)
  | n + 1, next, code =>
    let (next, code) := body next code
    writeTimes body n next code

/-- Appends `n` bodies, each behind a way out to `exit`. -/
def Code.writeOptions (body : Target → Code → Target × Code) (greedy : Bool) (exit : Target) :
    Nat → Target → Code → Target × Code
  | 0, next, code => (next, code)
  | n + 1, next, code =>
    let (start, code) := body next code
    let (next, code) := code.write (.loop greedy start.address exit.address) exit.need
    writeOptions body greedy exit n next code

namespace Node

/-- Appends the instructions of a node that goes on at `next`. A repetition without end of
something that may be empty tests at its entry and again behind each iteration; any other has one
test. -/
def emit : Node → Target → Code → Target × Code
  | .empty, next, code => (next, code)
  | .literal text, next, code => code.writeText text next
  | .one set, next, code => code.writeChar set (Node.one set).fewestBytes next
  | .look l, next, code => code.write (.look l next.address) next.need
  | .seq a b, next, code =>
    let (next, code) := b.emit next code
    a.emit next code
  | .alt a b, next, code =>
    let (second, code) := b.emit next code
    let (first, code) := a.emit next code
    code.write (.fork first.address second.address) (Nat.min first.need second.need)
  | .group i _ a, next, code =>
    let (next, code) := code.write (.closing i next.address) next.need
    let (next, code) := a.emit next code
    code.write (.opening i next.address) next.need
  | .rep a min none greedy, next, code =>
    let (test, start, code) := code.writeLoop (fun next code => a.emit next code) greedy next
    if min = 0 then
      if a.alwaysConsumes then (test, code)
      else code.write (.loop greedy start.address next.address) next.need
    else Code.writeTimes (fun next code => a.emit next code) (min - 1) start code
  | .rep a min (some most) greedy, next, code =>
    let (next, code) := Code.writeOptions (fun next code => a.emit next code) greedy next
      (most - min) next code
    Code.writeTimes (fun next code => a.emit next code) min next code

/-- Whether an instruction of the node can be reached again without taking a character. -/
def revisits : Node → Bool
  | .empty | .literal _ | .one _ | .look _ => false
  | .seq a b | .alt a b => a.revisits || b.revisits
  | .group _ _ a => a.revisits
  | .rep a _ max _ => a.revisits || (max.isNone && !a.alwaysConsumes)

end Node

structure Program where
  code : Code
  /-- The address where a match starts. -/
  entry : Nat
  /-- The targets where a place of the text can be reached. -/
  arrivals : List Target
  /-- Whether an instruction can be reached again without taking a character. -/
  revisits : Bool

/-- The entry and every target behind a character. -/
def arrivalsOf (entry : Target) (code : Code) : List Target :=
  let start := ((Array.replicate code.size false).setIfInBounds entry.address true, [entry])
  (code.foldl (fun (seen, found) i =>
    match i with
    | .char _ next need =>
      if seen.getD next true then (seen, found)
      else (seen.setIfInBounds next true, ⟨next, need⟩ :: found)
    | _ => (seen, found)) start).2

def Node.program (a : Node) : Program :=
  let (entry, code) := a.emit ⟨0, 0⟩ #[.accept]
  { code, entry := entry.address, arrivals := arrivalsOf entry code, revisits := a.revisits }

end SourceMend.Pattern
