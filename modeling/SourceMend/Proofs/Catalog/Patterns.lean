import SourceMend.Catalog

/-!
The patterns of the built-in rules in their read form. Reading the written patterns gives these
nodes, so each written rule compiles to the rule with its node.
-/
namespace SourceMend

open Pattern (Node)

theorem eq_ok_of_toOption {ε α : Type} {e : Except ε α} {a : α} (h : e.toOption = some a) :
    e = .ok a := by
  cases e with
  | error _ => simp [Except.toOption] at h
  | ok b => simpa [Except.toOption] using h

namespace RuleSpec

/-- The rule that a written rule without overrides becomes when its pattern reads as `node`. -/
def toRule (s : RuleSpec) (node : Node) : Rule where
  id := s.id
  category := s.category
  description := s.description
  pattern := ⟨s.pattern, node, Pattern.namesOf node.groups⟩
  replacement := s.replacement
  guard := s.guard
  severity := s.severity.getD .warn
  idempotent := s.idempotent
  enabled := s.enabled
  examples := s.examples

/-- Whether a template refers to groups of the pattern only, and to at least one. -/
def Refers (template : String) (p : Pattern) : Prop :=
  (Template.refs template.toList).all (·.existsIn p) = true ∧
    (Template.refs template.toList).isEmpty = false

theorem check_of_refers {id template : String} {p : Pattern} (h : Refers template p) :
    Template.check id p template = .ok () := by
  obtain ⟨hall, hsome⟩ := h
  have hnone : (Template.refs template.toList).find? (!·.existsIn p) = none := by
    refine List.find?_eq_none.2 fun ref href => ?_
    simp [List.all_eq_true.1 hall ref href]
  simp [Template.check, hnone, hsome]

/-- A written rule without overrides, whose pattern reads as `node` and whose template fits it. -/
structure ReadsAs (s : RuleSpec) (node : Node) : Prop where
  parses : (Pattern.Parser.node s.pattern.toList).toOption = some node
  refers : ∀ template ∈ s.replacement,
    Refers template ⟨s.pattern, node, Pattern.namesOf node.groups⟩
  overrides : s.overrides.isEmpty = true

instance (template : String) (p : Pattern) : Decidable (Refers template p) :=
  inferInstanceAs (Decidable (_ ∧ _))

instance (s : RuleSpec) (node : Node) : Decidable (s.ReadsAs node) :=
  decidable_of_iff ((Pattern.Parser.node s.pattern.toList).toOption = some node ∧
    (∀ template ∈ s.replacement, Refers template ⟨s.pattern, node, Pattern.namesOf node.groups⟩) ∧
      s.overrides.isEmpty = true)
    ⟨fun ⟨hn, hr, ho⟩ => ⟨hn, hr, ho⟩, fun h => ⟨h.parses, h.refers, h.overrides⟩⟩

theorem ReadsAs.compile_eq {s : RuleSpec} {node : Node} (h : s.ReadsAs node) :
    s.compile = .ok (s.toRule node) := by
  have hparse : Pattern.parse s.pattern = .ok ⟨s.pattern, node, Pattern.namesOf node.groups⟩ := by
    rw [Pattern.parse, eq_ok_of_toOption h.parses]
    rfl
  rw [compile, hparse, List.isEmpty_iff.1 h.overrides]
  cases hr : s.replacement with
  | none => simp only [toRule, hr]; rfl
  | some template =>
    simp only [toRule, hr, pure_bind, check_of_refers (h.refers template hr)]
    rfl

theorem mapM_compile {fs : List (RuleSpec × Node)} (h : ∀ f ∈ fs, f.1.ReadsAs f.2) :
    (fs.map Prod.fst).mapM compile = .ok (fs.map fun f => f.1.toRule f.2) := by
  induction fs with
  | nil => rfl
  | cons f fs ih =>
    obtain ⟨hf, hfs⟩ := List.forall_mem_cons.1 h
    rw [List.map_cons, List.mapM_cons, hf.compile_eq, ih hfs]
    rfl

end RuleSpec

namespace Catalog

/-- A space or a tab. -/
def spaceSet : CharSet := [(9, 9), (32, 32)]

/-- The characters that start a name. -/
def initialSet : CharSet := [(36, 36), (65, 90), (95, 95), (97, 122)]

/-- The characters of words. The ranges around ASCII are written out, so that looking for an ASCII
character does not open the tables. -/
def wordSet : CharSet :=
  [(48, 57), (65, 90), (95, 95), (97, 122), (170, 170)] ++ Alphabet.word.drop 5

/-- The characters of a name. -/
def nameSet : CharSet := (36, 36) :: wordSet

/-- The characters of a name with dots in it. -/
def pathSet : CharSet := (36, 36) :: (46, 46) :: wordSet

/-- The characters between the angle brackets of a simple type. -/
def argumentSet : CharSet := (32, 32) :: (36, 36) :: (44, 44) :: (46, 46) :: wordSet

/-- Any number of characters of a set. -/
def star (set : CharSet) : Node := .rep (.one set) 0 none true

def optional (a : Node) : Node := .rep a 0 (some 1) true

def spaces : Node := star spaceSet

/-- At least one space. -/
def gap : Node := .rep (.one spaceSet) 1 none true

def name : List Node := [.one initialSet, star nameSet]

def path : List Node := [.one initialSet, star pathSet]

def word (text : String) : Node := .literal text.toList

/-- The start of a line, or the end of the member before. -/
def lead : Node :=
  .group 1 (some "lead") (.alt (.look (.lineStart false)) (.one [(44, 44), (59, 59), (123, 123)]))

def margin : Node := .group 2 (some "ws") spaces

/-- The end of a member on the same line. -/
def memberEnd : Node := .one [(44, 44), (59, 59), (125, 125)]

def modifiers : Node :=
  .rep (.seq (.ofBranches (["public", "private", "protected", "readonly", "static",
    "declare"].map word)) gap) 0 none true

def indexSignature : Node :=
  .ofParts ([optional (.seq (word "readonly") gap), word "[", spaces] ++ name ++
    [spaces, word ":", spaces] ++ name ++ [spaces, word "]"])

def indexNode : Node := .ofParts [lead, margin, .group 3 (some "at") indexSignature,
  .group 4 (some "term") (.seq spaces memberEnd)]

def member : Node := .ofParts (modifiers :: name ++ [optional (word "?")])

def bareNode : Node := .ofParts [lead, margin, .group 3 (some "at") member, word "[]",
  .group 4 (some "term") (.seq spaces (.alt memberEnd (.look (.lineEnd false))))]

def parameter : Node := .ofParts (optional (word "...") :: name ++ [optional (word "?")])

def paramNode : Node := .ofParts [
  .group 1 (some "lead") (.seq (.one [(40, 40), (44, 44)]) spaces),
  .group 2 (some "at") parameter, word "[]",
  .group 3 (some "term") (.seq spaces (.one [(41, 41), (44, 44), (61, 61)]))]

/-- A type with a fallback behind it, as the element of the group 1. -/
def element : Node := .group 1 (some "elem") (.ofParts path)

def genericNode : Node := .ofParts [word "<", element, word ": any[]>"]

def castNode : Node :=
  .ofParts [.look (.word .boundary false), word "as ", element, word ": any[]"]

def unionNode : Node := .ofParts [word "| ", element, word ": any[]"]

def collapseNode : Node := .ofParts [
  .group 1 (some "name") (.ofParts name), .group 2 (some "opt") (optional (word "?")), word ": ",
  .group 3 (some "elem") (.ofParts (path ++
    [optional (.ofParts [word "<", star argumentSet, word ">"])])),
  word ": any[]"]

/-- A call of one of the methods with a callback of the given parameters; its arrow is the group
`arrow`. -/
def callbackNode (methods : List String) (params : List Node) (arrow : Nat) : Node :=
  .ofParts ([word ".", .group 1 (some "method") (.ofBranches (methods.map word)), word "(("] ++
    params ++ [word ")", .group arrow (some "arrow") (.seq spaces (word "=>"))])

def callbackParamNode : Node :=
  callbackNode ["map", "filter", "forEach", "find", "findIndex", "some", "every", "flatMap"]
    [.group 2 (some "param") (.ofParts name)] 3

def callbackPairNode : Node :=
  callbackNode ["reduce", "sort"] [.group 2 (some "first") (.ofParts name), word ",", spaces,
    .group 3 (some "second") (.ofParts name)] 4

def unresolvedNode : Node := .ofParts ([.group 1 (some "at") (.ofParts name), optional (word "?"),
  word ": "] ++ path ++ [word ": ", .one initialSet,
  star (Alphabet.word.union [(36, 36), (46, 46), (91, 91), (93, 93)])])

/-- The rules that fix and are on, with their patterns. -/
def fixes : List (RuleSpec × Node) := [
  (indexSignatureMissingValueType, indexNode), (arrayBareSuffix, bareNode),
  (arrayParamBareSuffix, paramNode), (colonChainGenericArgument, genericNode),
  (colonChainCast, castNode), (colonChainUnionMember, unionNode),
  (colonChainCollapse, collapseNode)]

/-- All rules of the catalog, with their patterns. -/
def entries : List (RuleSpec × Node) := fixes ++ [
  (implicitAnyCallbackParam, callbackParamNode), (implicitAnyCallbackPair, callbackPairNode),
  (colonChainUnresolved, unresolvedNode)]

end Catalog
end SourceMend
