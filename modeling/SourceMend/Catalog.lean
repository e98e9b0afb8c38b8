import SourceMend.Rule.Print
import SourceMend.RuleSet.Build

/-!
The built-in rules: repairs for TypeScript sources in which type annotations were damaged by a
machine. Members and parameters written `name[]` get the element type `any`, index signatures
without a value type get one, and a fallback `: any[]` behind a type that is there already is
taken back.
-/
namespace SourceMend.Catalog

def schema : String := "syntaxfix.rules.v1"

def origin : String := "builtin:typescript"

def indexSignatureMissingValueType : RuleSpec where
  id := "index-signature.missing-value-type"
  category := "index-signature"
  description := some "Index signature without a value type"
  pattern :=
    "(?m)(?P<lead>^|[\x7b;,])(?P<ws>[ \\t]*)" ++
    "(?P<at>(?:readonly[ \\t]+)?\\[[ \\t]*[A-Za-z_$][\\w$]*[ \\t]*:[ \\t]*[A-Za-z_$][\\w$]*[ \\t]*\\])" ++
    "(?P<term>[ \\t]*[;,\x7d])"
  replacement := some "$\x7blead\x7d$\x7bws\x7d$\x7bat\x7d: any$\x7bterm\x7d"
  guard := .typeBody
  examples := [
    { input := "interface Dict \x7b\n  [key: string];\n\x7d"
      expected := "interface Dict \x7b\n  [key: string]: any;\n\x7d" },
    { input := "type Lookup = \x7b [id: number] \x7d;"
      expected := "type Lookup = \x7b [id: number]: any \x7d;" },
    { input := "interface Handler \x7b\n  args: [value: string];\n  [name: string];\n\x7d"
      expected := "interface Handler \x7b\n  args: [value: string];\n  [name: string]: any;\n\x7d" }]

def arrayBareSuffix : RuleSpec where
  id := "array.bare-suffix"
  category := "array"
  description := some "Member declared as `name[]` with no element type"
  pattern :=
    "(?m)(?P<lead>^|[\x7b;,])(?P<ws>[ \\t]*)" ++
    "(?P<at>(?:(?:public|private|protected|readonly|static|declare)[ \\t]+)*[A-Za-z_$][\\w$]*\\??)\\[\\]" ++
    "(?P<term>[ \\t]*(?:[;,\x7d]|$))"
  replacement := some "$\x7blead\x7d$\x7bws\x7d$\x7bat\x7d: any[]$\x7bterm\x7d"
  guard := .typeBody
  examples := [
    { input := "interface Post \x7b\n  tags[];\n  author?: string;\n\x7d"
      expected := "interface Post \x7b\n  tags: any[];\n  author?: string;\n\x7d" },
    { input := "class Store \x7b\n  private items[];\n  count = 0;\n\x7d"
      expected := "class Store \x7b\n  private items: any[];\n  count = 0;\n\x7d" },
    { input := "interface Query \x7b\n  ids?[]\n\x7d"
      expected := "interface Query \x7b\n  ids?: any[]\n\x7d" }]

def arrayParamBareSuffix : RuleSpec where
  id := "array.param-bare-suffix"
  category := "array"
  description := some "Parameter declared as `name[]` with no element type"
  pattern :=
    "(?P<lead>[(,][ \\t]*)(?P<at>(?:\\.\\.\\.)?[A-Za-z_$][\\w$]*\\??)\\[\\]" ++
    "(?P<term>[ \\t]*[,)=])"
  replacement := some "$\x7blead\x7d$\x7bat\x7d: any[]$\x7bterm\x7d"
  guard := .paramList
  examples := [
    { input := "function sum(values[]) \x7b\n  return 0;\n\x7d"
      expected := "function sum(values: any[]) \x7b\n  return 0;\n\x7d" },
    { input := "const log = (...args[]) => args;"
      expected := "const log = (...args: any[]) => args;" }]

def colonChainGenericArgument : RuleSpec where
  id := "colon-chain.generic-argument"
  category := "colon-chain"
  description := some "Array fallback appended inside a generic argument"
  pattern := "<(?P<elem>[A-Za-z_$][\\w$.]*): any\\[\\]>"
  replacement := some "<$\x7belem\x7d[]>"
  examples := [
    { input := "const [posts, setPosts] = useState<Post: any[]>([]);"
      expected := "const [posts, setPosts] = useState<Post[]>([]);" }]

def colonChainCast : RuleSpec where
  id := "colon-chain.cast"
  category := "colon-chain"
  description := some "Array fallback appended to a type assertion"
  pattern := "\\bas (?P<elem>[A-Za-z_$][\\w$.]*): any\\[\\]"
  replacement := some "as $\x7belem\x7d[]"
  examples := [
    { input := "const rows = data as Row: any[];"
      expected := "const rows = data as Row[];" }]

def colonChainUnionMember : RuleSpec where
  id := "colon-chain.union-member"
  category := "colon-chain"
  description := some "Array fallback appended to the last member of a union"
  pattern := "\\| (?P<elem>[A-Za-z_$][\\w$.]*): any\\[\\]"
  replacement := some "| $\x7belem\x7d[]"
  examples := [
    { input := "let value: string | Item: any[];"
      expected := "let value: string | Item[];" }]

def colonChainCollapse : RuleSpec where
  id := "colon-chain.collapse"
  category := "colon-chain"
  description := some "Redundant `: any[]` appended to an existing element type"
  pattern :=
    "(?P<name>[A-Za-z_$][\\w$]*)(?P<opt>\\??): " ++
    "(?P<elem>[A-Za-z_$][\\w$.]*(?:<[\\w$., ]*>)?): any\\[\\]"
  replacement := some "$\x7bname\x7d$\x7bopt\x7d: $\x7belem\x7d[]"
  examples := [
    { input := "interface Post \x7b\n  tags: string: any[];\n\x7d"
      expected := "interface Post \x7b\n  tags: string[];\n\x7d" },
    { input := "function render(items: Item: any[]) \x7b\x7d"
      expected := "function render(items: Item[]) \x7b\x7d" },
    { input := "const related: any: any[] = [];"
      expected := "const related: any[] = [];" }]

def implicitAnyCallbackParam : RuleSpec where
  id := "implicit-any.callback-param"
  category := "implicit-any"
  description := some "Annotate the single parameter of an array callback"
  pattern :=
    "\\.(?P<method>map|filter|forEach|find|findIndex|some|every|flatMap)\\(\\(" ++
    "(?P<param>[A-Za-z_$][\\w$]*)\\)(?P<arrow>[ \\t]*=>)"
  replacement := some ".$\x7bmethod\x7d(($\x7bparam\x7d: any)$\x7barrow\x7d"
  enabled := false
  examples := [
    { input := "const ids = rows.map((row) => row.id);"
      expected := "const ids = rows.map((row: any) => row.id);" }]

def implicitAnyCallbackPair : RuleSpec where
  id := "implicit-any.callback-pair"
  category := "implicit-any"
  description := some "Annotate both parameters of a reduce or sort callback"
  pattern :=
    "\\.(?P<method>reduce|sort)\\(\\((?P<first>[A-Za-z_$][\\w$]*),[ \\t]*" ++
    "(?P<second>[A-Za-z_$][\\w$]*)\\)(?P<arrow>[ \\t]*=>)"
  replacement := some ".$\x7bmethod\x7d(($\x7bfirst\x7d: any, $\x7bsecond\x7d: any)$\x7barrow\x7d"
  enabled := false
  examples := [
    { input := "const total = rows.reduce((acc, row) => acc + row.n, 0);"
      expected := "const total = rows.reduce((acc: any, row: any) => acc + row.n, 0);" }]

def colonChainUnresolved : RuleSpec where
  id := "colon-chain.unresolved"
  category := "colon-chain"
  description := some "Chained type annotation the rules cannot resolve safely"
  pattern := "(?P<at>[A-Za-z_$][\\w$]*)\\??: [A-Za-z_$][\\w$.]*: [A-Za-z_$][\\w$.\\[\\]]*"
  guard := .signature
  severity := some .warn

/-- The comment at the head of the written catalog. -/
def heading : List String := [
  "# Built-in repair rules for mechanically corrupted TypeScript/TSX sources.",
  "#",
  "# Rules run top to bottom within a pass. Patterns must never match their own",
  "# output; every fix rule carries examples that are checked when the rule set",
  "# is built. A pattern may name a capture group `at`; the scope guard is then",
  "# evaluated at the start of that group instead of at the start of the match."]

def file : RuleFile where
  schema := some schema
  version := 4
  rules := [
    indexSignatureMissingValueType, arrayBareSuffix,
    arrayParamBareSuffix, colonChainGenericArgument,
    colonChainCast,
    colonChainUnionMember, colonChainCollapse, implicitAnyCallbackParam,
    implicitAnyCallbackPair, colonChainUnresolved]

/-- The catalog as a rule file. -/
def text : Text :=
  heading.flatMap (fun line => line.toList ++ ['\n']) ++ '\n' :: file.print

/-- The built-in rules that are on by default. -/
def ruleSet : Except RuleError RuleSet := do
  let draft ← RuleDraft.addFile {} file
  draft.build

end SourceMend.Catalog
