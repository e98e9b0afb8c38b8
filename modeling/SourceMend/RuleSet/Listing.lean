import SourceMend.Json.Basic
import SourceMend.RuleSet.Basic

/-! Listings of a rule set: a table for people, and JSON with its members in alphabetical order. -/
namespace SourceMend

/-- Fills up with blanks on the right. -/
def padRight (width : Nat) (s : String) : String :=
  s ++ String.ofList (List.replicate (width - s.length) ' ')

namespace Rule

def kindName (r : Rule) : String := if r.isFix then "fix" else "detect"

def listingLine (r : Rule) : String :=
  let description := r.description.getD ""
  s!"  {padRight 36 r.id} {padRight 7 r.kindName} {padRight 10 r.guard.name} {description}\n"

def listingJson (r : Rule) : Json :=
  .object [
    ("category", .string r.category),
    ("description", (r.description.map Json.string).getD .null),
    ("guard", .string r.guard.name),
    ("id", .string r.id),
    ("kind", .string r.kindName),
    ("severity", .string r.severity.name)]

end Rule

namespace RuleSet

/-- The rules by category, in the order in which they apply. -/
def listing (s : RuleSet) : String :=
  s!"rule set version {s.version.toNat} ({s.rules.length} rules)\n" ++
  String.join (s.categories.map fun category =>
    s!"\n[{category}]\n" ++
    String.join ((s.rules.filter (·.category = category)).map Rule.listingLine))

def listingJson (s : RuleSet) : Json :=
  .object [
    ("rules", .array (s.rules.map Rule.listingJson)),
    ("version", .nat s.version.toNat)]

end RuleSet
end SourceMend
