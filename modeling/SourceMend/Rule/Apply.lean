import SourceMend.Rule.Basic

/-!
Applying one rule to a text. Both `mendFrom` and `sitesFrom` go through the places of the text
from left to right and look at the preferred match at each. A match that is empty or not admitted
is passed by one character only, so it hides no admitted match that starts later.
-/
namespace SourceMend

/-- Where a match lies, seen from the guard of its rule. -/
inductive Placement where
  | admitted
  /-- In code, but outside the frames that the guard asks for. -/
  | outOfScope
  /-- Touching a string, comment, template, regex or markup. -/
  | literal
  deriving DecidableEq, Repr, Inhabited

structure MatchSite where
  start : Nat
  stop : Nat
  placement : Placement
  deriving DecidableEq, Repr, Inhabited

/-- The text after a rule was applied, and how many matches it replaced. -/
structure Mended where
  text : Text
  fired : Nat
  changed : Bool
  deriving DecidableEq, Repr, Inhabited

namespace Override

/-- Whether the override holds for a match in the file `path`. -/
def holds (o : Override) (p : Pattern) (path : String) (m : Pattern.Match) : Bool :=
  let value := match o.capture with
    | some ref => ref.text? p m
    | none => some m.text
  o.path.all (·.isMatch path.toList) &&
    match o.equals, value with
    | some expected, some actual => expected.toList = actual
    | some _, none => false
    | none, value => value.isSome

end Override

namespace Rule

def placement (r : Rule) (scope : ScopeMap) (m : Pattern.Match) : Placement :=
  let anchor := ((r.anchor?.bind m.group?).map (·.1)).getD m.start.pos
  if !scope.isCode m.start.pos m.stop.pos then .literal
  else if r.guard.admits (scope.frameAt anchor) then .admitted
  else .outOfScope

/-- The template for a match: that of the first override that holds, or the rule's own. -/
def templateFor (r : Rule) (own path : String) (m : Pattern.Match) : String :=
  ((r.overrides.find? (·.holds r.pattern path m)).map (·.replacement)).getD own

/-- The text that replaces a match. -/
def replacementFor (r : Rule) (own path : String) (m : Pattern.Match) : Text :=
  Template.expand (fun ref => (ref.text? r.pattern m).getD []) (r.templateFor own path m).toList

/-- The places of a text, each with the preferred match that starts there. -/
def places (r : Rule) (text : Text) : List Pattern.Place :=
  r.pattern.survey (Pattern.Cursor.start text)

/-- The match at a place, if there is one that is not empty. -/
def matchAt? (p : Pattern.Place) : Option Pattern.Match := p.found.filter (!·.isEmpty)

def admittedAt? (r : Rule) (scope : ScopeMap) (p : Pattern.Place) : Option Pattern.Match :=
  (matchAt? p).filter (r.placement scope · = .admitted)

/-- The places from byte `pos` on. -/
def placesFrom (pos : Nat) (places : List Pattern.Place) : List Pattern.Place :=
  places.dropWhile (·.cursor.pos < pos)

theorem length_placesFrom_le (pos : Nat) (places : List Pattern.Place) :
    (placesFrom pos places).length ≤ places.length :=
  (List.dropWhile_sublist _).length_le

/-- Replaces every admitted match from the first of the places on. -/
def mendFrom (r : Rule) (own path : String) (scope : ScopeMap) (places : List Pattern.Place) :
    Text × Nat :=
  match places with
  | [] => ([], 0)
  | p :: rest =>
    match r.admittedAt? scope p with
    | none =>
      let (out, n) := r.mendFrom own path scope rest
      (p.cursor.next.toList ++ out, n)
    | some m =>
      let (out, n) := r.mendFrom own path scope (placesFrom m.stop.pos rest)
      (r.replacementFor own path m ++ out, n + 1)
termination_by places.length
decreasing_by
  · simp
  · have := length_placesFrom_le m.stop.pos rest
    simp
    omega

/-- Applies the rule to a text with a known scope map. -/
def applyIn (r : Rule) (text : Text) (scope : ScopeMap) (ctx : Context) : Mended :=
  match r.replacement with
  | none => ⟨text, 0, false⟩
  | some own =>
    let (out, fired) := r.mendFrom own ctx.path scope (r.places text)
    ⟨out, fired, out != text⟩

/-- Applies the rule to a text, which is scanned only if the pattern matches somewhere. -/
def apply (r : Rule) (text : Text) (ctx : Context) : Mended :=
  if r.isFix && r.pattern.isMatch text then r.applyIn text (ScopeMap.scan text ctx.dialect) ctx
  else ⟨text, 0, false⟩

/-- The matches from the first of the places on. A rejected match that starts before `reported`
overlaps a site that is reported already and is left out. -/
def sitesFrom (r : Rule) (scope : ScopeMap) (reported : Nat) (places : List Pattern.Place) :
    List MatchSite :=
  match places with
  | [] => []
  | p :: rest =>
    match matchAt? p with
    | none => r.sitesFrom scope reported rest
    | some m =>
      let place := r.placement scope m
      let site : MatchSite := ⟨m.start.pos, m.stop.pos, place⟩
      let reported' := max reported m.stop.pos
      if place = .admitted then
        site :: r.sitesFrom scope reported' (placesFrom m.stop.pos rest)
      else if reported ≤ m.start.pos then site :: r.sitesFrom scope reported' rest
      else r.sitesFrom scope reported rest
termination_by places.length
decreasing_by
  · simp
  · have := length_placesFrom_le m.stop.pos rest
    simp
    omega
  · simp
  · simp

/-- Every match of the pattern, with its placement. -/
def matchSites (r : Rule) (text : Text) (scope : ScopeMap) : List MatchSite :=
  r.sitesFrom scope 0 (r.places text)

end Rule
end SourceMend
