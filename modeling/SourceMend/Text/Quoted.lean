import SourceMend.Text.Hidden

/-!
Quoted text for messages: the text in double quotes, with quotes, backslashes, line ends, tabs and
NUL escaped and every other hidden character given by its code in hexadecimal.
-/
namespace SourceMend.Text

def hexCode (n : Nat) : Text := Nat.toDigits 16 n

def quoteChar (c : Char) : Text :=
  if c = '"' ∨ c = '\\' then ['\\', c]
  else if c = '\n' then ['\\', 'n']
  else if c = '\r' then ['\\', 'r']
  else if c = '\t' then ['\\', 't']
  else if c = '\x00' then ['\\', '0']
  else if hidden.contains c then ['\\', 'u', '{'] ++ hexCode c.toNat ++ ['}']
  else [c]

def quoted (t : Text) : String := String.ofList ('"' :: t.flatMap quoteChar ++ ['"'])

end SourceMend.Text
