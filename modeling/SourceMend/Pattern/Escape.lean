import SourceMend.Pattern.Flags
import SourceMend.Pattern.Node
import SourceMend.Text.Category

/-!
What follows a backslash in a pattern: punctuation that stands for itself, characters by their
code, the classes of words, digits and blanks, general categories, and assertions. Scripts and most
other properties of characters are not known.
-/
namespace SourceMend.Pattern

inductive Escape where
  | literal (c : Char)
  | set (s : CharSet)
  | look (l : Look)

namespace Parser

def isMeta (c : Char) : Bool := "\\.+*?()|[]\x7b\x7d^$#&-~".toList.contains c

/-- A backslash before punctuation stands for the punctuation. -/
def isEscapable (c : Char) : Bool :=
  isMeta c || (c.toNat < 128 && !c.isAlphanum && c ≠ '<' && c ≠ '>')

def hexValue? (c : Char) : Option Nat :=
  if c.isDigit then some (c.toNat - 48)
  else if 'a' ≤ c ∧ c ≤ 'f' then some (c.toNat - 87)
  else if 'A' ≤ c ∧ c ≤ 'F' then some (c.toNat - 55)
  else none

/-- The character with the code that the hexadecimal digits give. -/
def charOf (digits : List Nat) : Except Error Char :=
  let n := digits.foldl (fun n d => n * 16 + d) 0
  if digits.isEmpty then .error .escape
  else if h : n.isValidChar then .ok (Char.ofNatAux n h)
  else .error .escape

/-- Reads `n` hexadecimal digits. -/
def fixedDigits (fl : Flags) : Nat → Text → Except Error (List Nat × Text)
  | 0, cs => .ok ([], cs)
  | _ + 1, [] => .error .escape
  | n + 1, c :: r =>
    match hexValue? c with
    | none => .error .escape
    | some d => (fixedDigits fl n (skip fl r)).map fun (ds, rest) => (d :: ds, rest)

/-- Reads hexadecimal digits up to a closing brace. -/
def bracedDigits (fl : Flags) (cs : Text) : Except Error (List Nat × Text) :=
  match cs with
  | [] => .error .escape
  | c :: r =>
    if c = '}' then .ok ([], skip fl r)
    else
      match hexValue? c with
      | none => .error .escape
      | some d => (bracedDigits fl (skip fl r)).map fun (ds, rest) => (d :: ds, rest)
termination_by cs.length
decreasing_by
  have := length_skip_le fl r
  simp
  omega

/-- Reads the code after `\x`, `\u` or `\U`: in braces, or of exactly `width` digits. Of two
digits it is a byte, which has to be ASCII where only ASCII characters count. -/
def hexEscape (fl : Flags) (width : Nat) (cs : Text) : Except Error (Char × Text) := do
  match skip fl cs with
  | '{' :: r =>
    let (digits, rest) ← bracedDigits fl (skip fl r)
    return (← charOf digits, rest)
  | cs =>
    let (digits, rest) ← fixedDigits fl width cs
    let c ← charOf digits
    if fl.ascii ∧ width = 2 ∧ 0x7F < c.toNat then .error .splitCharacter else return (c, rest)

/-- Reads the letters and hyphens of a name. -/
def edgeName (fl : Flags) (cs : Text) : Text × Text :=
  match cs with
  | [] => ([], [])
  | c :: r =>
    if c.isAlpha || c = '-' then
      let (name, rest) := edgeName fl (skip fl r)
      (c :: name, rest)
    else ([], c :: r)
termination_by cs.length
decreasing_by
  have := length_skip_le fl r
  simp
  omega

def edgeOf? : String → Option WordEdge
  | "start" => some .start
  | "end" => some .stop
  | "start-half" => some .startHalf
  | "end-half" => some .stopHalf
  | _ => none

/-- Reads the name in `\b{name}`; a brace that starts no name is left alone. -/
def boundary (fl : Flags) (cs : Text) : Except Error (WordEdge × Text) :=
  match cs with
  | '{' :: r =>
    let r := skip fl r
    if r.isEmpty then .error .escape
    else
      match edgeName fl r with
      | ([], _) => .ok (.boundary, cs)
      | (name, '}' :: rest) =>
        match edgeOf? (String.ofList name) with
        | some edge => .ok (edge, rest)
        | none => .error .escape
      | _ => .error .escape
  | _ => .ok (.boundary, cs)

def asciiDigit : CharSet := [(48, 57)]

def asciiSpace : CharSet := [(9, 13), (32, 32)]

def asciiWord : CharSet := [(48, 57), (65, 90), (95, 95), (97, 122)]

/-- The class that a letter names: words, digits or blanks. -/
def classOf? (fl : Flags) : Char → Option CharSet
  | 'd' => some (if fl.ascii then asciiDigit else Alphabet.digit)
  | 's' => some (if fl.ascii then asciiSpace else Alphabet.space)
  | 'w' => some (if fl.ascii then asciiWord else Alphabet.word)
  | _ => none

/-- Reads the name of a class up to its closing brace. -/
def bracedName (fl : Flags) (cs : Text) : Except Error (Text × Text) :=
  match cs with
  | [] => .error .escape
  | c :: r =>
    if c = '}' then .ok ([], r)
    else (bracedName fl (skip fl r)).map fun (name, rest) => (c :: name, rest)
termination_by cs.length
decreasing_by
  have := length_skip_le fl r
  simp
  omega

/-- The class of a property that a character has or has not, or of a general category. -/
def propertyOf? (name : Text) : Option CharSet :=
  match GeneralCategory.looseName name with
  | "alphabetic" | "alpha" => some Alphabet.letter
  | "whitespace" | "wspace" | "space" => some Alphabet.space
  | loose => GeneralCategory.ofLooseName? loose

/-- The class of the characters with this value of a property. -/
def valueOf? (property value : Text) : Option CharSet :=
  match GeneralCategory.looseName property with
  | "gc" | "generalcategory" => GeneralCategory.ofLooseName? (GeneralCategory.looseName value)
  | _ => none

/-- The class that is called for in braces, by a name alone or by a property and its value, and
whether its complement is meant. -/
def classInBraces? (name : Text) : Option (Bool × CharSet) :=
  match name.splitOnce? "!=".toList with
  | some (property, value) => (valueOf? property value).map (true, ·)
  | none =>
    match (name.splitOnce? [':']).or (name.splitOnce? ['=']) with
    | some (property, value) => (valueOf? property value).map (false, ·)
    | none => (propertyOf? name).map (false, ·)

/-- Reads the name of a class, one letter or in braces. The class is there only where characters
count that are not ASCII. -/
def unicodeClass (fl : Flags) (negated : Bool) (cs : Text) : Except Error (CharSet × Text) := do
  let (found, rest) ←
    match skip fl cs with
    | [] | '\\' :: _ => throw .escape
    | '{' :: r => do
      let (name, rest) ← bracedName fl (skip fl r)
      pure (classInBraces? name, rest)
    | c :: r => pure ((propertyOf? [c]).map (false, ·), r)
  match found with
  | some (swapped, s) =>
    if fl.ascii then throw .escape
    else return (← fl.negate (negated != swapped) (fl.fold s), rest)
  | none => throw .escape

/-- The control character that a letter names. -/
def controlOf? : Char → Option Char
  | 'a' => some '\x07'
  | 'f' => some '\x0c'
  | 't' => some '\t'
  | 'n' => some '\n'
  | 'r' => some '\r'
  | 'v' => some '\x0b'
  | _ => none

/-- Reads an escape after its backslash. -/
def escape (fl : Flags) (cs : Text) : Except Error (Escape × Text) :=
  match cs with
  | [] => .error .escape
  | c :: r =>
    let edge (e : WordEdge) : Except Error (Escape × Text) := .ok (.look (.word e fl.ascii), r)
    if c.isDigit then .error .backReference
    else if isEscapable c then .ok (.literal c, r)
    else
      match controlOf? c, classOf? fl c, classOf? fl c.toLower with
      | some x, _, _ => .ok (.literal x, r)
      | none, some s, _ => .ok (.set s, r)
      | none, none, some s => (fl.complement s).map fun s => (.set s, r)
      | none, none, none =>
        match c with
        | 'x' => (hexEscape fl 2 r).map fun (x, rest) => (.literal x, rest)
        | 'u' => (hexEscape fl 4 r).map fun (x, rest) => (.literal x, rest)
        | 'U' => (hexEscape fl 8 r).map fun (x, rest) => (.literal x, rest)
        | 'p' => (unicodeClass fl false r).map fun (s, rest) => (.set s, rest)
        | 'P' => (unicodeClass fl true r).map fun (s, rest) => (.set s, rest)
        | 'A' => .ok (.look .textStart, r)
        | 'z' => .ok (.look .textEnd, r)
        | 'b' => (boundary fl r).map fun (e, rest) => (.look (.word e fl.ascii), rest)
        | 'B' => edge .noBoundary
        | '<' => edge .start
        | '>' => edge .stop
        | _ => .error .escape

end Parser
end SourceMend.Pattern
