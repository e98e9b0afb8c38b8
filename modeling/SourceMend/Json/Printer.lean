import SourceMend.Json.Basic

/-!
The two written forms of a JSON value: compact, on one line, and indented, two blanks for each
level with one member or item a line. Both write an escape only for a quote, a backslash and the
control characters below 32.
-/
namespace SourceMend.Json

def hexDigit (n : Nat) : Char := Char.ofNat (if n < 10 then 48 + n else 87 + n)

/-- How one character is written inside a string. -/
def escape (c : Char) : Text :=
  if c = '"' then ['\\', '"']
  else if c = '\\' then ['\\', '\\']
  else if c = '\x08' then ['\\', 'b']
  else if c = '\x0c' then ['\\', 'f']
  else if c = '\n' then ['\\', 'n']
  else if c = '\r' then ['\\', 'r']
  else if c = '\t' then ['\\', 't']
  else if c.toNat < 32 then ['\\', 'u', '0', '0', hexDigit (c.toNat / 16), hexDigit (c.toNat % 16)]
  else [c]

def quote (s : Text) : Text := '"' :: s.flatMap escape ++ ['"']

/-- The decimal digits of an integer. -/
def writeInt : Int → Text
  | .ofNat n => Nat.toDigits 10 n
  | .negSucc n => '-' :: Nat.toDigits 10 (n + 1)

def writeBool (b : Bool) : Text := if b then "true".toList else "false".toList

/-- A new line at nesting depth `depth`. -/
def lineBreak (depth : Nat) : Text := '\n' :: List.replicate (2 * depth) ' '

mutual
/-- Puts the compact form in front of `tail`. -/
def compact (j : Json) (tail : Text) : Text :=
  match j with
  | .null => "null".toList ++ tail
  | .bool b => writeBool b ++ tail
  | .integer n => writeInt n ++ tail
  | .decimal w => w.toList ++ tail
  | .string s => quote s.toList ++ tail
  | .array items => '[' :: compactItems items true (']' :: tail)
  | .object members => '{' :: compactMembers members true ('}' :: tail)

def compactItems (items : List Json) (first : Bool) (tail : Text) : Text :=
  match items with
  | [] => tail
  | j :: js =>
    let rest := compact j (compactItems js false tail)
    if first then rest else ',' :: rest

def compactMembers (members : List (String × Json)) (first : Bool) (tail : Text) : Text :=
  match members with
  | [] => tail
  | (key, j) :: ms =>
    let rest := quote key.toList ++ ':' :: compact j (compactMembers ms false tail)
    if first then rest else ',' :: rest
end

mutual
/-- Puts the indented form at nesting depth `depth` in front of `tail`. -/
def pretty (depth : Nat) (j : Json) (tail : Text) : Text :=
  match j with
  | .null => "null".toList ++ tail
  | .bool b => writeBool b ++ tail
  | .integer n => writeInt n ++ tail
  | .decimal w => w.toList ++ tail
  | .string s => quote s.toList ++ tail
  | .array [] => '[' :: ']' :: tail
  | .array (j :: js) =>
    '[' :: prettyItems (depth + 1) (j :: js) true (lineBreak depth ++ ']' :: tail)
  | .object [] => '{' :: '}' :: tail
  | .object (m :: ms) =>
    '{' :: prettyMembers (depth + 1) (m :: ms) true (lineBreak depth ++ '}' :: tail)

def prettyItems (depth : Nat) (items : List Json) (first : Bool) (tail : Text) : Text :=
  match items with
  | [] => tail
  | j :: js =>
    let rest := lineBreak depth ++ pretty depth j (prettyItems depth js false tail)
    if first then rest else ',' :: rest

def prettyMembers (depth : Nat) (members : List (String × Json)) (first : Bool) (tail : Text) :
    Text :=
  match members with
  | [] => tail
  | (key, j) :: ms =>
    let rest := lineBreak depth ++ quote key.toList ++
      ':' :: ' ' :: pretty depth j (prettyMembers depth ms false tail)
    if first then rest else ',' :: rest
end

def toCompactString (j : Json) : String := String.ofList (j.compact [])

def toPrettyString (j : Json) : String := String.ofList (j.pretty 0 [])

end SourceMend.Json
