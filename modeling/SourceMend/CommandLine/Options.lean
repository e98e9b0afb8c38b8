import SourceMend.Text.Basic

/-!
Command lines. An option is written `--name`, its value behind it or after an equals sign; options
of one letter may share a dash. Everything else is an operand, and so is everything behind `--`.
-/
namespace SourceMend.CommandLine

/-- How often an option may come and whether it has a value. -/
inductive Takes where
  /-- A switch, given at most once. -/
  | nothing
  /-- A value, given at most once. -/
  | oneValue
  /-- A value each time. -/
  | manyValues
  deriving DecidableEq, Repr, Inhabited

structure OptionSpec where
  name : String
  letter : Option Char := none
  takes : Takes
  accepts : String → Bool := fun _ => true

structure Grammar where
  options : List OptionSpec
  operands : Bool
  /-- Whether the version can be asked for. -/
  version : Bool := false

/-- What was given, in order; the value of a switch is empty. -/
structure Parsed where
  values : List (String × String) := []
  operands : List String := []
  deriving DecidableEq, Repr, Inhabited

/-- Why there is nothing to do but to answer. -/
inductive Stop where
  | help
  | version
  | misuse
  deriving DecidableEq, Repr, Inhabited

namespace Parsed

def has (p : Parsed) (name : String) : Bool := p.values.any (·.1 = name)

def all (p : Parsed) (name : String) : List String :=
  (p.values.filter (·.1 = name)).map (·.2)

def get? (p : Parsed) (name : String) : Option String := (p.all name).head?

/-- Notes an option; only those that take many values may come again. -/
def note (p : Parsed) (o : OptionSpec) (value : String) : Except Stop Parsed :=
  if (o.takes ≠ .manyValues && p.has o.name) || !o.accepts value then .error .misuse
  else .ok { p with values := p.values ++ [(o.name, value)] }

end Parsed

/-- Whether an argument cannot be the value of the option before it. -/
def isOptionLike (arg : String) : Bool :=
  match arg.toList with
  | '-' :: _ :: _ => true
  | _ => false

/-- Letters that share a dash. -/
def readLetters (g : Grammar) (p : Parsed) : Text → Except Stop Parsed
  | [] => .ok p
  | c :: cs =>
    if c = 'h' then .error .help
    else if c = 'V' && g.version then .error .version
    else
      match g.options.find? (·.letter = some c) with
      | some o => do readLetters g (← p.note o "") cs
      | none => .error .misuse

/-- The name of a long option, and the value behind an equals sign. -/
def splitLong (t : Text) : String × Option String :=
  let name := t.takeWhile (· ≠ '=')
  (String.ofList name,
    if name.length < t.length then some (String.ofList (t.drop (name.length + 1))) else none)

def parseFrom (g : Grammar) (p : Parsed) : List String → Except Stop Parsed
  | [] => .ok p
  | arg :: rest =>
    match arg.toList with
    | ['-', '-'] =>
      if g.operands || rest.isEmpty then .ok { p with operands := p.operands ++ rest }
      else .error .misuse
    | '-' :: '-' :: long =>
      let (name, value?) := splitLong long
      match g.options.find? (·.name = name), value? with
      | none, some _ => .error .misuse
      | none, none =>
        if name = "help" then .error .help
        else if name = "version" && g.version then .error .version
        else .error .misuse
      | some o, some value =>
        if o.takes = .nothing then .error .misuse else do parseFrom g (← p.note o value) rest
      | some o, none =>
        if o.takes = .nothing then do parseFrom g (← p.note o "") rest
        else
          match rest with
          | [] => .error .misuse
          | value :: rest' =>
            if isOptionLike value then .error .misuse
            else do parseFrom g (← p.note o value) rest'
    | '-' :: c :: letters => do parseFrom g (← readLetters g p (c :: letters)) rest
    | _ =>
      if g.operands then parseFrom g { p with operands := p.operands ++ [arg] } rest
      else .error .misuse

def parse (g : Grammar) (args : List String) : Except Stop Parsed := parseFrom g {} args

/-- A number in decimal digits, with or without a plus sign. -/
def natural? (s : String) : Option Nat :=
  let digits := match s.toList with
    | '+' :: rest => rest
    | t => t
  if digits.isEmpty || !digits.all Char.isDigit then none
  else some (digits.foldl (fun n c => 10 * n + (c.toNat - 48)) 0)

/-- Whether a text is a number from `lo` to below `hi`. -/
def isBetween (lo hi : Nat) (s : String) : Bool := (natural? s).any fun n => lo ≤ n && n < hi

/-- The parts between commas. -/
def commaParts : Text → List Text
  | [] => [[]]
  | c :: cs =>
    if c = ',' then [] :: commaParts cs
    else
      match commaParts cs with
      | [] => [[c]]
      | part :: rest => (c :: part) :: rest

end SourceMend.CommandLine
