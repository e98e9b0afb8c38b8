import SourceMend.Text.Basic

/-!
Path globs. `?` stands for one character and `*` for any run of characters, slashes included;
`**` stands for any run of whole path components; brackets hold a set of characters.
-/
namespace SourceMend
namespace Glob

/-- One character, or a range with both ends. -/
inductive Specifier where
  | single (c : Char)
  | range (lo hi : Char)
  deriving DecidableEq, Repr, Inhabited

inductive Token where
  | char (c : Char)
  | anyChar
  | anySequence
  /-- Any run of whole components. -/
  | anyComponents
  | within (specs : List Specifier)
  | except (specs : List Specifier)
  deriving DecidableEq, Repr, Inhabited

end Glob

/-- A glob as it was written and the tokens it was read into. -/
structure Glob where
  source : String
  tokens : List Glob.Token
  deriving DecidableEq, Repr, Inhabited

namespace Glob

/-- What is wrong with a glob, at which character. -/
inductive Error where
  | wildcards (pos : Nat)
  | recursiveWildcards (pos : Nat)
  | range (pos : Nat)
  deriving DecidableEq, Repr, Inhabited

def Error.message : Error → String
  | .wildcards pos => s!"Pattern syntax error near position {pos}: " ++
    "wildcards are either regular `*` or recursive `**`"
  | .recursiveWildcards pos => s!"Pattern syntax error near position {pos}: " ++
    "recursive wildcards must form a single path component"
  | .range pos => s!"Pattern syntax error near position {pos}: invalid range pattern"

/-- Reads the characters between brackets. -/
def specifiers : Text → List Specifier
  | a :: '-' :: b :: rest => .range a b :: specifiers rest
  | a :: rest => .single a :: specifiers rest
  | [] => []

/-- Reads a bracket after `[`: the token and how many characters it took. The first character is
a member whatever it is. -/
def bracket? (cs : Text) : Option (Token × Nat) :=
  match cs with
  | '!' :: first :: rest =>
    if rest.contains ']' then
      let more := rest.takeWhile (· ≠ ']')
      some (.except (specifiers (first :: more)), more.length + 3)
    else none
  | '!' :: [] => none
  | first :: rest =>
    if rest.contains ']' then
      let more := rest.takeWhile (· ≠ ']')
      some (.within (specifiers (first :: more)), more.length + 2)
    else none
  | [] => none

/-- Adds `**`; directly after another `**` that is not the first token it adds nothing. -/
def addComponents (done : List Token) : List Token :=
  match done with
  | .anyComponents :: _ :: _ => done
  | _ => .anyComponents :: done

/-- Reads the text from character `pos` on. `prev` is the character before, and `done` holds the
tokens so far, the latest first. -/
def readTokens (pos : Nat) (prev : Option Char) (done : List Token) (cs : Text) :
    Except Error (List Token) :=
  match cs with
  | [] => .ok done.reverse
  | c :: r =>
    if c = '?' then readTokens (pos + 1) (some c) (.anyChar :: done) r
    else if c = '*' then
      match r with
      | '*' :: '*' :: _ => .error (.wildcards (pos + 2))
      | '*' :: rest =>
        if prev.all (· = '/') then
          match rest with
          | [] => .ok (addComponents done).reverse
          | '/' :: rest' => readTokens (pos + 3) (some '/') (addComponents done) rest'
          | _ => .error (.recursiveWildcards (pos + 2))
        else .error (.recursiveWildcards (pos - 1))
      | rest => readTokens (pos + 1) (some c) (.anySequence :: done) rest
    else if c = '[' then
      match bracket? r with
      | some (t, n) => readTokens (pos + n + 1) (some ']') (t :: done) (r.drop n)
      | none => .error (.range pos)
    else readTokens (pos + 1) (some c) (.char c :: done) r
termination_by cs.length
decreasing_by all_goals (simp_all; try omega)

def parse (source : String) : Except Error Glob :=
  (readTokens 0 none [] source.toList).map fun tokens => { source, tokens }

def Specifier.admits : Specifier → Char → Bool
  | .single a, c => a = c
  | .range lo hi, c => lo ≤ c && c ≤ hi

/-- Whether a token that stands for one character admits a character. -/
def Token.admits : Token → Char → Bool
  | .char c, d => c = d
  | .anyChar, _ => true
  | .within specs, d => specs.any (·.admits d)
  | .except specs, d => !specs.any (·.admits d)
  | .anySequence, _ | .anyComponents, _ => false

/-- For each place, whether a later entry holds, or the one at the place. -/
def anyFrom (entries : List Bool) : List Bool :=
  entries.foldr (fun b later => (b || later.headD false) :: later) []

/-- Where a glob matches that starts with a token, given where the glob behind the token does. Of
both lists there is an entry for each place of the text, which says whether the glob matches all
that follows the place. -/
def Token.column (t : Token) (cs : Text) (later : List Bool) : List Bool :=
  match t with
  | .anySequence => anyFrom later
  | .anyComponents =>
    let behindSlash := cs.zipWith (fun c b => c = '/' && b) later.tail
    later.zipWith (fun b c => b || c || later.getLastD false) (anyFrom (behindSlash ++ [false]))
  | t => cs.zipWith (fun c b => t.admits c && b) later.tail ++ [false]

/-- Where a glob matches all that follows a place of the text. -/
def matchTable (cs : Text) (tokens : List Token) : List Bool :=
  tokens.foldr (fun t later => t.column cs later) (cs.map (fun _ => false) ++ [true])

/-- Whether the whole text matches. -/
def isMatch (g : Glob) (t : Text) : Bool := (matchTable t g.tokens).headD false

end Glob
end SourceMend
