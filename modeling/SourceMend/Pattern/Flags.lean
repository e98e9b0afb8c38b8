import SourceMend.Text.Alphabet
import SourceMend.Text.Casing

/-! The flags under which a pattern is read, and what can be wrong with one. -/
namespace SourceMend.Pattern

inductive Error where
  | unopenedGroup
  | unclosedGroup
  | unclosedClass
  | groupName
  | duplicateName
  | flag
  | lookAround
  | backReference
  | escape
  | classRange
  | nothingToRepeat
  | repetitionCount
  /-- Part of a character would match. -/
  | splitCharacter
  | nesting
  | weight
  deriving DecidableEq, Repr, Inhabited

structure Flags where
  ignoreCase : Bool := false
  /-- Assertions about the start and the end hold at lines too. -/
  multiLine : Bool := false
  /-- The dot stands for line ends too. -/
  dotAll : Bool := false
  /-- Repetitions are lazy unless a question mark follows. -/
  swapGreed : Bool := false
  /-- Blanks and comments do not count. -/
  ignoreBlank : Bool := false
  /-- A carriage return ends a line too. -/
  crlf : Bool := false
  /-- Only ASCII characters make words and have case. -/
  ascii : Bool := false
  deriving DecidableEq, Repr, Inhabited

namespace Flags

/-- Sets or clears one flag. -/
def set? (fl : Flags) (c : Char) (on : Bool) : Option Flags :=
  match c with
  | 'i' => some { fl with ignoreCase := on }
  | 'm' => some { fl with multiLine := on }
  | 's' => some { fl with dotAll := on }
  | 'U' => some { fl with swapGreed := on }
  | 'x' => some { fl with ignoreBlank := on }
  | 'R' => some { fl with crlf := on }
  | 'u' => some { fl with ascii := !on }
  | _ => none

/-- Adds the letters that differ only in case, where case does not count. -/
def fold (fl : Flags) (s : CharSet) : CharSet :=
  if !fl.ignoreCase then s
  else if fl.ascii then s.foldAsciiCase
  else s.foldCase

/-- All other characters. Beside ASCII characters these would be parts of characters. -/
def complement (fl : Flags) (s : CharSet) : Except Error CharSet :=
  if fl.ascii then .error .splitCharacter else .ok s.complement

/-- Negates a set that is written with a sign for it. -/
def negate (fl : Flags) (negated : Bool) (s : CharSet) : Except Error CharSet :=
  if negated then fl.complement s else .ok s

end Flags

namespace Parser

def isBlank (c : Char) : Bool := Alphabet.space.contains c

/-- Skips blanks and comments where the flags say that they do not count. -/
def skip (fl : Flags) (cs : Text) : Text :=
  if fl.ignoreBlank then go false cs else cs
where
  go (comment : Bool) : Text → Text
    | [] => []
    | c :: cs =>
      if comment then go (c ≠ '\n') cs
      else if c = '#' then go true cs
      else if isBlank c then go false cs
      else c :: cs

theorem length_skip_le (fl : Flags) (cs : Text) : (skip fl cs).length ≤ cs.length := by
  have h (comment : Bool) : (skip.go comment cs).length ≤ cs.length := by
    induction cs generalizing comment with
    | nil => simp [skip.go]
    | cons c cs ih =>
      simp only [skip.go]
      split
      · exact Nat.le_succ_of_le (ih _)
      · split
        · exact Nat.le_succ_of_le (ih _)
        · split
          · exact Nat.le_succ_of_le (ih _)
          · simp
  unfold skip
  split
  · exact h false
  · simp

end Parser
end SourceMend.Pattern
