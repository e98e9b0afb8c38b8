import SourceMend.Pattern.Match
import SourceMend.Pattern.Parser

/-!
Search patterns. A pattern is read once from its written form. `survey` gives its preferred match
at every place of a text, and a search looks at one place after another from left to right.
-/
namespace SourceMend

/-- A pattern with its written form and the names of its groups; the whole match is group 0. -/
structure Pattern where
  source : String
  node : Pattern.Node
  groupNames : List (Option String)
  deriving Repr, Inhabited

namespace Pattern

/-- The names by group number. A group that was repeated zero times leaves no name. -/
def namesOf (groups : List (Nat × Option String)) : List (Option String) :=
  let count := groups.foldl (fun n g => Nat.max n g.1) 0
  (groups.foldl (fun names (i, name) => names.setIfInBounds i name)
    (Array.replicate (count + 1) none)).toList

def parse (source : String) : Except Error Pattern := do
  let node ← Parser.node source.toList
  return { source, node, groupNames := namesOf node.groups }

/-- The places from `k` on, each with the preferred match that starts there. -/
def survey (p : Pattern) (k : Cursor) : List Place := p.node.program.survey k

/-- The preferred match that starts at `k`. -/
def matchAt (p : Pattern) (k : Cursor) : Option Match := (p.survey k).head?.bind (·.found)

/-- Whether there is a match anywhere in the text. -/
def isMatch (p : Pattern) (t : Text) : Bool :=
  (p.survey (Cursor.start t)).any (·.found.isSome)

end Pattern
end SourceMend
