import SourceMend.Json.Basic

/-!
Reading JSON. A reader takes a value off the front of a text and returns it with what follows;
the readers for nested values spend one unit of fuel for each value they enter, and the length of
the text is always enough. `parse?` accepts one value with blanks around it.
-/
namespace SourceMend.Json.Reader

def skipBlank (cs : Text) : Text :=
  cs.dropWhile fun c => c = ' ' || c = '\t' || c = '\n' || c = '\r'

def hexValue (c : Char) : Option Nat :=
  if c.isDigit then some (c.toNat - 48)
  else if 'a' ≤ c ∧ c ≤ 'f' then some (c.toNat - 87)
  else if 'A' ≤ c ∧ c ≤ 'F' then some (c.toNat - 55)
  else none

/-- The value of the first four hexadecimal digits. -/
def hex4 : Text → Option Nat
  | a :: b :: c :: d :: _ => do
    let a ← hexValue a
    let b ← hexValue b
    let c ← hexValue c
    let d ← hexValue d
    return ((a * 16 + b) * 16 + c) * 16 + d
  | _ => none

/-- The character that an escape stands for and the number of characters after the backslash.
Code units above the basic plane come as a pair of surrogates; a lone surrogate is refused. -/
def unescape : Text → Option (Char × Nat)
  | '"' :: _ => some ('"', 1)
  | '\\' :: _ => some ('\\', 1)
  | '/' :: _ => some ('/', 1)
  | 'b' :: _ => some ('\x08', 1)
  | 'f' :: _ => some ('\x0c', 1)
  | 'n' :: _ => some ('\n', 1)
  | 'r' :: _ => some ('\r', 1)
  | 't' :: _ => some ('\t', 1)
  | 'u' :: r => do
    let hi ← hex4 r
    if 0xD800 ≤ hi ∧ hi < 0xDC00 then
      match r.drop 4 with
      | '\\' :: 'u' :: r' =>
        let lo ← hex4 r'
        if 0xDC00 ≤ lo ∧ lo < 0xE000 then
          some (Char.ofNat (0x10000 + (hi - 0xD800) * 1024 + (lo - 0xDC00)), 11)
        else none
      | _ => none
    else if 0xDC00 ≤ hi ∧ hi < 0xE000 then none
    else some (Char.ofNat hi, 5)
  | _ => none

/-- Reads a string after its opening quote. -/
def stringBody (cs : Text) : Option (Text × Text) :=
  match cs with
  | [] => none
  | c :: r =>
    if c = '"' then some ([], r)
    else if c = '\\' then
      match unescape r with
      | some (x, n) => (stringBody (r.drop n)).map fun (s, rest) => (x :: s, rest)
      | none => none
    else if c.toNat < 32 then none
    else (stringBody r).map fun (s, rest) => (c :: s, rest)
termination_by cs.length
decreasing_by all_goals (simp; try omega)

def digitsValue (ds : Text) : Nat := ds.foldl (fun n d => n * 10 + (d.toNat - 48)) 0

/-- What follows the digits of a fraction or exponent; `none` when there are no digits. -/
def someDigits (cs : Text) : Option (Text × Text) :=
  let ds := cs.takeWhile Char.isDigit
  if ds.isEmpty then none else some (ds, cs.dropWhile Char.isDigit)

def fraction (cs : Text) : Option (Text × Text) :=
  match cs with
  | '.' :: r => (someDigits r).map fun (ds, rest) => ('.' :: ds, rest)
  | _ => some ([], cs)

def exponent (cs : Text) : Option (Text × Text) :=
  match cs with
  | c :: r =>
    if c = 'e' ∨ c = 'E' then
      match r with
      | s :: r' =>
        if s = '+' ∨ s = '-' then (someDigits r').map fun (ds, rest) => (c :: s :: ds, rest)
        else (someDigits r).map fun (ds, rest) => (c :: ds, rest)
      | [] => none
    else some ([], cs)
  | [] => some ([], cs)

/-- Reads a number. The whole part has no leading zero unless it is zero. -/
def number (cs : Text) : Option (Json × Text) := do
  let negative := cs.head? = some '-'
  let cs := if negative then cs.tail else cs
  let (whole, rest) ← someDigits cs
  if 1 < whole.length ∧ whole.head? = some '0' then none
  let (frac, rest) ← fraction rest
  let (exp, rest) ← exponent rest
  let sign : Text := if negative then ['-'] else []
  if frac.isEmpty && exp.isEmpty && !(negative && whole = ['0']) then
    let n : Int := digitsValue whole
    return (.integer (if negative then -n else n), rest)
  else
    return (.decimal (String.ofList (sign ++ whole ++ frac ++ exp)), rest)

mutual
def value (fuel : Nat) (cs : Text) : Option (Json × Text) :=
  match fuel with
  | 0 => none
  | fuel + 1 =>
    match skipBlank cs with
    | '"' :: r => (stringBody r).map fun (s, rest) => (.string (String.ofList s), rest)
    | '[' :: r =>
      match skipBlank r with
      | ']' :: rest => some (.array [], rest)
      | r' => (items fuel r').map fun (js, rest) => (.array js, rest)
    | '{' :: r =>
      match skipBlank r with
      | '}' :: rest => some (.object [], rest)
      | r' => (members fuel r').map fun (ms, rest) => (.object ms, rest)
    | 't' :: 'r' :: 'u' :: 'e' :: rest => some (.bool true, rest)
    | 'f' :: 'a' :: 'l' :: 's' :: 'e' :: rest => some (.bool false, rest)
    | 'n' :: 'u' :: 'l' :: 'l' :: rest => some (.null, rest)
    | r => number r

/-- One or more items up to the closing bracket. -/
def items (fuel : Nat) (cs : Text) : Option (List Json × Text) :=
  match fuel with
  | 0 => none
  | fuel + 1 =>
    match value fuel cs with
    | none => none
    | some (j, rest) =>
      match skipBlank rest with
      | ',' :: r => (items fuel r).map fun (js, rest) => (j :: js, rest)
      | ']' :: r => some ([j], r)
      | _ => none

/-- One or more members up to the closing brace. -/
def members (fuel : Nat) (cs : Text) : Option (List (String × Json) × Text) :=
  match fuel with
  | 0 => none
  | fuel + 1 =>
    match skipBlank cs with
    | '"' :: r =>
      match stringBody r with
      | none => none
      | some (key, rest) =>
        match skipBlank rest with
        | ':' :: r' =>
          match value fuel r' with
          | none => none
          | some (j, rest) =>
            match skipBlank rest with
            | ',' :: r =>
              (members fuel r).map fun (ms, rest) => ((String.ofList key, j) :: ms, rest)
            | '}' :: r => some ([(String.ofList key, j)], r)
            | _ => none
        | _ => none
    | _ => none
end

end Reader

/-- Reads a whole text as one value. -/
def parse? (cs : Text) : Option Json :=
  match Reader.value (2 * cs.length + 2) cs with
  | some (j, rest) => if (Reader.skipBlank rest).isEmpty then some j else none
  | none => none

end SourceMend.Json
