import SourceMend.Toml.Tree

/-!
Reading TOML 1.1. A reader takes something off the front of a text and returns it with what
follows, or `none` when the text is not valid. Readers of nested values spend fuel; twice the
length of the text is always enough.
-/
namespace SourceMend.Toml.Reader

def skipBlank (cs : Text) : Text := cs.dropWhile fun c => c = ' ' || c = '\t'

/-- Control characters, apart from the tab, are valid nowhere. -/
def isControl (c : Char) : Bool := (c.toNat < 32 && c ≠ '\t') || c.toNat = 127

/-- Skips a comment, if there is one; `none` when it holds a control character. -/
def comment (cs : Text) : Option Text :=
  match cs with
  | '#' :: r =>
    let rest := r.dropWhile fun c => c ≠ '\n' && !(isControl c)
    match rest with
    | [] => some rest
    | '\n' :: _ => some rest
    | '\r' :: '\n' :: _ => some rest
    | _ => none
  | _ => some cs

/-- Skips the rest of a line that must hold nothing but blanks and a comment. -/
def lineEnd (cs : Text) : Option Text := do
  match ← comment (skipBlank cs) with
  | [] => some []
  | '\n' :: r => some r
  | '\r' :: '\n' :: r => some r
  | _ => none

/-- Skips blanks, comments and line ends between items or members. -/
def skipLines (fuel : Nat) (cs : Text) : Option Text :=
  match fuel with
  | 0 => none
  | fuel + 1 =>
    match skipBlank cs with
    | '\n' :: r => skipLines fuel r
    | '\r' :: '\n' :: r => skipLines fuel r
    | '#' :: r => do
      let rest ← comment ('#' :: r)
      skipLines fuel rest
    | rest => some rest

def hexValue (c : Char) : Option Nat :=
  if c.isDigit then some (c.toNat - 48)
  else if 'a' ≤ c ∧ c ≤ 'f' then some (c.toNat - 87)
  else if 'A' ≤ c ∧ c ≤ 'F' then some (c.toNat - 55)
  else none

def codePoint (width : Nat) (cs : Text) : Option Char := do
  if cs.length < width then none
  let ds ← (cs.take width).mapM hexValue
  let n := ds.foldl (fun n d => n * 16 + d) 0
  if h : n.isValidChar then some (Char.ofNatAux n h) else none

/-- The character that an escape stands for and the number of characters after the backslash. -/
def unescape (cs : Text) : Option (Char × Nat) :=
  match cs with
  | 'b' :: _ => some ('\x08', 1)
  | 't' :: _ => some ('\t', 1)
  | 'n' :: _ => some ('\n', 1)
  | 'f' :: _ => some ('\x0c', 1)
  | 'r' :: _ => some ('\r', 1)
  | 'e' :: _ => some ('\x1b', 1)
  | '"' :: _ => some ('"', 1)
  | '\\' :: _ => some ('\\', 1)
  | 'x' :: r => (codePoint 2 r).map (·, 3)
  | 'u' :: r => (codePoint 4 r).map (·, 5)
  | 'U' :: r => (codePoint 8 r).map (·, 9)
  | _ => none

/-- Reads a string in double quotes after the opening quote. -/
def basicString (cs : Text) : Option (Text × Text) :=
  match cs with
  | [] => none
  | c :: r =>
    if c = '"' then some ([], r)
    else if c = '\\' then
      match unescape r with
      | some (x, n) => (basicString (r.drop n)).map fun (s, rest) => (x :: s, rest)
      | none => none
    else if isControl c then none
    else (basicString r).map fun (s, rest) => (c :: s, rest)
termination_by cs.length
decreasing_by all_goals (simp; try omega)

/-- Reads a string in single quotes after the opening quote. -/
def literalString (cs : Text) : Option (Text × Text) :=
  let s := cs.takeWhile fun c => c ≠ '\'' && !(isControl c)
  match cs.drop s.length with
  | '\'' :: rest => some (s, rest)
  | _ => none

/-- Skips the line end that directly follows three opening quotes. -/
def skipFirstLineEnd (cs : Text) : Text :=
  match cs with
  | '\n' :: r => r
  | '\r' :: '\n' :: r => r
  | _ => cs

/-- A run of at least three quotes `q` closes a string of several lines; up to two of them
belong to the string. -/
def closingQuotes? (q : Char) (cs : Text) : Option (Text × Text) :=
  let n := (cs.takeWhile (· = q)).length
  if n < 3 then none
  else if n ≤ 5 then some (List.replicate (n - 3) q, cs.drop n)
  else some (List.replicate 2 q, cs.drop 5)

/-- How many characters a backslash at the end of a line swallows, itself not counted: blanks and
line ends up to the next other character. -/
def lineContinuation? (cs : Text) : Option Nat :=
  let blanks := cs.takeWhile fun c => c = ' ' || c = '\t'
  match cs.drop blanks.length with
  | '\n' :: _ => some (space cs)
  | '\r' :: '\n' :: _ => some (space cs)
  | _ => none
where
  space : Text → Nat
    | '\r' :: '\n' :: r => space r + 2
    | c :: r => if c = ' ' ∨ c = '\t' ∨ c = '\n' then space r + 1 else 0
    | [] => 0

/-- Reads a string of several lines in double quotes after the opening quotes. -/
def longBasicString (cs : Text) : Option (Text × Text) :=
  match closingQuotes? '"' cs with
  | some closed => some closed
  | none =>
    match cs with
    | [] => none
    | c :: r =>
      if c = '\\' then
        match lineContinuation? r with
        | some n => longBasicString (r.drop n)
        | none =>
          match unescape r with
          | some (x, n) => (longBasicString (r.drop n)).map fun (s, rest) => (x :: s, rest)
          | none => none
      else if c = '\r' ∧ r.head? ≠ some '\n' then none
      else if isControl c ∧ c ≠ '\n' ∧ c ≠ '\r' then none
      else (longBasicString r).map fun (s, rest) => (c :: s, rest)
termination_by cs.length
decreasing_by all_goals (simp; try omega)

/-- Reads a string of several lines in single quotes after the opening quotes. -/
def longLiteralString (cs : Text) : Option (Text × Text) :=
  match closingQuotes? '\'' cs with
  | some closed => some closed
  | none =>
    match cs with
    | [] => none
    | c :: r =>
      if c = '\r' ∧ r.head? ≠ some '\n' then none
      else if isControl c ∧ c ≠ '\n' ∧ c ≠ '\r' then none
      else (longLiteralString r).map fun (s, rest) => (c :: s, rest)

/-- Digits with single underscores between them. -/
def digitGroup (isDigit : Char → Bool) : Text → Option Text
  | [] => none
  | [c] => if isDigit c then some [c] else none
  | c :: '_' :: r => if isDigit c then (digitGroup isDigit r).map (c :: ·) else none
  | c :: r => if isDigit c then (digitGroup isDigit r).map (c :: ·) else none

def radixInteger (base : Nat) (cs : Text) : Option Int := do
  let isDigit := fun c => (hexValue c).any (· < base)
  let ds ← digitGroup isDigit cs
  return (ds.foldl (fun n d => n * base + ((hexValue d).getD 0)) 0 : Nat)

/-- An integer: decimal with an optional sign, or unsigned with a prefix for another base. -/
def integer? (cs : Text) : Option Int :=
  match cs with
  | '0' :: 'x' :: r => radixInteger 16 r
  | '0' :: 'o' :: r => radixInteger 8 r
  | '0' :: 'b' :: r => radixInteger 2 r
  | '+' :: r => decimal r
  | '-' :: r => (decimal r).map (- ·)
  | r => decimal r
where
  decimal (cs : Text) : Option Int :=
    if 1 < cs.length ∧ cs.head? = some '0' then none else radixInteger 10 cs

/-- Whether a word can be a float or a date. -/
def isOther (cs : Text) : Bool :=
  let unsigned := if cs.head? = some '+' ∨ cs.head? = some '-' then cs.tail else cs
  unsigned = "inf".toList || unsigned = "nan".toList ||
    (unsigned.head?.any Char.isDigit &&
      unsigned.any (fun c => c = '.' || c = 'e' || c = 'E' || c = ':' || c = '-'))

def isWordChar (c : Char) : Bool :=
  c.isAlphanum || c = '_' || c = '+' || c = '-' || c = '.' || c = ':'

def word (cs : Text) : Option (Toml × Text) :=
  let w := cs.takeWhile isWordChar
  let rest := cs.dropWhile isWordChar
  if w = "true".toList then some (.boolean true, rest)
  else if w = "false".toList then some (.boolean false, rest)
  else
    match integer? w with
    | some n => some (.integer n, rest)
    | none => if isOther w then some (.other, rest) else none

def isBareKeyChar (c : Char) : Bool := c.isAlphanum || c = '_' || c = '-'

/-- One part of a key. -/
def simpleKey (cs : Text) : Option (String × Text) :=
  match cs with
  | '"' :: r => (basicString r).map fun (s, rest) => (String.ofList s, rest)
  | '\'' :: r => (literalString r).map fun (s, rest) => (String.ofList s, rest)
  | _ =>
    let key := cs.takeWhile isBareKeyChar
    if key.isEmpty then none else some (String.ofList key, cs.dropWhile isBareKeyChar)

/-- A key with its parts in order, blanks around the dots allowed. -/
def key (fuel : Nat) (cs : Text) : Option (List String × Text) :=
  match fuel with
  | 0 => none
  | fuel + 1 => do
    let (part, rest) ← simpleKey (skipBlank cs)
    match skipBlank rest with
    | '.' :: r => do
      let (parts, rest) ← key fuel r
      return (part :: parts, rest)
    | rest => return ([part], rest)

/-- Gives a key of several parts a value. -/
def assignKey (parts : List String) (t : Tree) (es : Entries) : Option Entries :=
  match parts.getLast? with
  | some last => Tree.assign parts.dropLast last t es
  | none => none

mutual
def value (fuel : Nat) (cs : Text) : Option (Toml × Text) :=
  match fuel with
  | 0 => none
  | fuel + 1 =>
    match cs with
    | '"' :: '"' :: '"' :: r =>
      (longBasicString (skipFirstLineEnd r)).map fun (s, rest) => (.string (String.ofList s), rest)
    | '\'' :: '\'' :: '\'' :: r =>
      (longLiteralString (skipFirstLineEnd r)).map fun (s, rest) =>
        (.string (String.ofList s), rest)
    | '"' :: r => (basicString r).map fun (s, rest) => (.string (String.ofList s), rest)
    | '\'' :: r => (literalString r).map fun (s, rest) => (.string (String.ofList s), rest)
    | '[' :: r => (items fuel r).map fun (vs, rest) => (.array vs, rest)
    | '{' :: r =>
      (members fuel [] r).map fun (es, rest) => (.table (Tree.entriesToToml es), rest)
    | _ => word cs

/-- The items of an array up to its closing bracket; a comma may follow the last one. -/
def items (fuel : Nat) (cs : Text) : Option (List Toml × Text) :=
  match fuel with
  | 0 => none
  | fuel + 1 => do
    match ← skipLines (cs.length + 1) cs with
    | ']' :: rest => return ([], rest)
    | r =>
      let (v, rest) ← value fuel r
      match ← skipLines (rest.length + 1) rest with
      | ',' :: r => do
        let (vs, rest) ← items fuel r
        return (v :: vs, rest)
      | ']' :: rest => return ([v], rest)
      | _ => none

/-- The members of a table in braces up to the closing one; a comma may follow the last. Lines may
end around the equals sign. -/
def members (fuel : Nat) (es : Entries) (cs : Text) : Option (Entries × Text) :=
  match fuel with
  | 0 => none
  | fuel + 1 => do
    match ← skipLines (cs.length + 1) cs with
    | '}' :: rest => return (es, rest)
    | r =>
      let (parts, rest) ← key (r.length + 1) r
      match ← skipLines (rest.length + 1) rest with
      | '=' :: r =>
        let r ← skipLines (r.length + 1) r
        let (v, rest) ← value fuel r
        let es ← assignKey parts (.leaf v) es
        match ← skipLines (rest.length + 1) rest with
        | ',' :: r => members fuel es r
        | '}' :: rest => return (es, rest)
        | _ => none
      | _ => none
end

/-- The document so far, and the way to the table that is open. -/
structure State where
  root : Entries := []
  path : List String := []

/-- Reads one line, or several when a value spans them. -/
def line (st : State) (cs : Text) : Option (State × Text) :=
  match cs with
  | '[' :: '[' :: r => do
    let (parts, rest) ← key (r.length + 1) r
    match rest with
    | ']' :: ']' :: rest =>
      let last ← parts.getLast?
      let root ← Tree.openItem parts.dropLast last st.root
      return ({ root, path := parts }, ← lineEnd rest)
    | _ => none
  | '[' :: r => do
    let (parts, rest) ← key (r.length + 1) r
    match rest with
    | ']' :: rest =>
      let last ← parts.getLast?
      let root ← Tree.openTable parts.dropLast last st.root
      return ({ root, path := parts }, ← lineEnd rest)
    | _ => none
  | _ => do
    let (parts, rest) ← key (cs.length + 1) cs
    match rest with
    | '=' :: r =>
      let r := skipBlank r
      let (v, rest) ← value (2 * r.length + 2) r
      let root ← Tree.atHeader st.path (assignKey parts (.leaf v)) st.root
      return ({ st with root }, ← lineEnd rest)
    | _ => none

/-- Reads lines to the end; there are no more lines than `fuel`. -/
def lines (fuel : Nat) (st : State) (cs : Text) : Option State :=
  match fuel with
  | 0 => none
  | fuel + 1 => do
    match ← skipLines (cs.length + 1) cs with
    | [] => return st
    | r =>
      let (st, rest) ← line st r
      lines fuel st rest

end Reader

/-- Reads a document; a byte order mark at its start is skipped. -/
def parse? (cs : Text) : Option Toml :=
  let cs := if cs.head? = some '\uFEFF' then cs.tail else cs
  (Reader.lines (cs.length + 1) {} cs).map fun st => .table (Tree.entriesToToml st.root)

end SourceMend.Toml
