import SourceMend.Text.Basic

/-!
Tokens of code as far as brackets and literals depend on them, and the extent of each literal
form. An extent counts the characters that follow the first character of the literal.
-/
namespace SourceMend

inductive Token where
  | word (text : String)
  | punct (c : Char)
  /-- A finished literal: a number, string, template, regex or markup element. -/
  | value
  deriving DecidableEq, Repr, Inhabited

namespace Token

def controlWords : List String :=
  ["if", "for", "while", "switch", "with", "return", "typeof", "await", "yield", "new", "void",
    "delete", "throw", "in", "of", "instanceof", "case", "else", "do"]

/-- Words after which a slash starts a regex literal. -/
def regexAfterWords : List String :=
  ["return", "typeof", "case", "do", "else", "in", "of", "new", "delete", "void", "throw",
    "yield", "await", "instanceof"]

def markupAfterWords : List String := ["return", "yield", "default", "await"]

def markupAfterPuncts : List Char :=
  ['(', ',', '=', ':', '?', '{', '}', '[', ';', '&', '|', '!', '>']

def declModifiers : List String := ["export", "declare", "default"]

/-- Whether a slash after the token `last` starts a regex literal. -/
def allowsRegex : Option Token → Bool
  | none => true
  | some .value => false
  | some (.word w) => regexAfterWords.contains w
  | some (.punct c) => !(c = ')' || c = ']' || c = '}')

/-- Whether an angle bracket after the token `last` can start a markup element. -/
def allowsMarkup : Option Token → Bool
  | none => true
  | some .value => false
  | some (.word w) => markupAfterWords.contains w
  | some (.punct c) => markupAfterPuncts.contains c

/-- Whether a newline after the token `last` ends a member of a declaration body. -/
def endsMember : Option Token → Bool
  | none => false
  | some (.word _) => true
  | some .value => true
  | some (.punct c) => c = ')' || c = ']' || c = '}' || c = '>'

/-- Every character outside ASCII counts as a letter. -/
def isIdentStart (c : Char) : Bool := c.isAlpha || c = '_' || c = '$' || 0x80 ≤ c.toNat

def isIdentContinue (c : Char) : Bool := isIdentStart c || c.isDigit

def isNumberContinue (c : Char) : Bool := c.isAlphanum || c = '.' || c = '_'

def lineCommentExtent (cs : Text) : Nat := (cs.takeWhile (· ≠ '\n')).length

/-- The extent after the opening `/*`, up to and with the first `*/`. -/
def blockCommentExtent : Text → Nat
  | [] => 0
  | c :: cs =>
    if c = '*' ∧ cs.head? = some '/' then 2 else 1 + blockCommentExtent cs

/-- The extent after the quote `q`: up to and with the next `q` that is not escaped, or up to the
end of the line when there is none. -/
def stringExtent (q : Char) : Text → Nat
  | [] => 0
  | [c] => if c = '\n' then 0 else 1
  | c :: d :: cs =>
    if c = '\\' then 2 + stringExtent q cs
    else if c = '\n' then 0
    else if c = q then 1
    else 1 + stringExtent q (d :: cs)

/-- The extent after the opening slash: up to and with the closing slash outside a character
class and the flags behind it, or up to the end of the line. -/
def regexExtent (inClass : Bool) : Text → Nat
  | [] => 0
  | [c] => if c = '\n' then 0 else 1
  | c :: d :: cs =>
    if c = '\\' then 2 + regexExtent inClass cs
    else if c = '\n' then 0
    else if c = '/' ∧ inClass = false then 1 + ((d :: cs).takeWhile Char.isAlpha).length
    else 1 + regexExtent (if c = '[' then true else if c = ']' then false else inClass) (d :: cs)

end Token
end SourceMend
