import SourceMend.Toml.Basic

/-!
The tree of tables that a TOML document builds up. Headers and dotted keys make tables on the way;
a table may be defined by a header once, a dotted key extends only tables that no header defined,
and a value is never extended.
-/
namespace SourceMend.Toml

/-- How a table came to be. -/
inductive Origin where
  /-- As a parent of another table. -/
  | implied
  /-- By its own header. -/
  | header
  /-- By a dotted key. -/
  | dotted
  deriving DecidableEq, Repr, Inhabited

inductive Tree where
  | leaf (v : Toml)
  | table (origin : Origin) (entries : List (String × Tree))
  /-- Tables under one repeated header, the latest first. -/
  | tables (items : List (List (String × Tree)))
  deriving Repr, Inhabited

abbrev Entries := List (String × Tree)

namespace Tree

/-- Replaces the entry `key`, or adds it at the end. -/
def put (key : String) (t : Tree) : Entries → Entries
  | [] => [(key, t)]
  | (k, old) :: rest => if k = key then (k, t) :: rest else (k, old) :: put key t rest

/-- Works on the table that the path of a header leads to, making the tables on the way. -/
def atHeader (path : List String) (work : Entries → Option Entries) (es : Entries) :
    Option Entries :=
  match path with
  | [] => work es
  | key :: path =>
    match es.lookup key with
    | none => (atHeader path work []).map fun sub => put key (.table .implied sub) es
    | some (.table origin sub) =>
      (atHeader path work sub).map fun sub => put key (.table origin sub) es
    | some (.tables (sub :: others)) =>
      (atHeader path work sub).map fun sub => put key (.tables (sub :: others)) es
    | some _ => none

/-- Works on the table that the leading keys of a dotted key lead to. -/
def atDotted (path : List String) (work : Entries → Option Entries) (es : Entries) :
    Option Entries :=
  match path with
  | [] => work es
  | key :: path =>
    match es.lookup key with
    | none => (atDotted path work []).map fun sub => put key (.table .dotted sub) es
    | some (.table origin sub) =>
      if origin = .header then none
      else (atDotted path work sub).map fun sub => put key (.table origin sub) es
    | some _ => none

/-- Opens the table of the header `[path.key]`. -/
def openTable (path : List String) (key : String) : Entries → Option Entries :=
  atHeader path fun es =>
    match es.lookup key with
    | none => some (put key (.table .header []) es)
    | some (.table .implied sub) => some (put key (.table .header sub) es)
    | some _ => none

/-- Opens a new table of the header `[[path.key]]`. -/
def openItem (path : List String) (key : String) : Entries → Option Entries :=
  atHeader path fun es =>
    match es.lookup key with
    | none => some (put key (.tables [[]]) es)
    | some (.tables items) => some (put key (.tables ([] :: items)) es)
    | some _ => none

/-- Gives `path.key` a value in a table. -/
def assign (path : List String) (key : String) (t : Tree) : Entries → Option Entries :=
  atDotted path fun es =>
    match es.lookup key with
    | none => some (put key t es)
    | some _ => none

mutual
def toToml : Tree → Toml
  | .leaf v => v
  | .table _ es => .table (entriesToToml es)
  | .tables items => .array (itemsToToml items).reverse

def entriesToToml : Entries → List (String × Toml)
  | [] => []
  | (key, t) :: rest => (key, toToml t) :: entriesToToml rest

def itemsToToml : List Entries → List Toml
  | [] => []
  | es :: rest => .table (entriesToToml es) :: itemsToToml rest
end

end Tree
end SourceMend.Toml
