import CodeTidy.Toml.Value

/-!
# Tables under construction

While a document is read, a table remembers how it came to be, because that decides what may
still be added to it: a table under a header of its own is closed to dotted keys, a table that
dotted keys made is closed to headers, and an inline table or array is a finished value.
`Table.modify` descends along a path of keys, making the tables that are missing.
-/

namespace CodeTidy.Toml

inductive Origin where
  /-- By a header that names it. -/
  | header
  /-- By a header that names a table inside it. -/
  | path
  /-- By a dotted key. -/
  | dotted
  deriving DecidableEq, Repr

/-- What a key of a table under construction holds. -/
inductive Node where
  | value (v : Toml)
  | table (origin : Origin) (entries : List (String × Node))
  | tables (elements : List (List (String × Node)))
  deriving Repr, Inhabited

/-- The entries of a table under construction, in the order in which they were made. -/
abbrev Nodes := List (String × Node)

namespace Nodes

def replace (key : String) (node : Node) (nodes : Nodes) : Nodes :=
  nodes.map fun (k, n) => if k = key then (k, node) else (k, n)

/-- Adds a key that is not there yet. -/
def add? (key : String) (node : Node) (nodes : Nodes) : Option Nodes :=
  if (nodes.lookup key).isSome then none else some (nodes ++ [(key, node)])

/-- Applies `f` to the table at the end of a path, the path being that of a dotted key or of a
header.  Through an array of tables a path leads to the last element. -/
def modify (dotted : Bool) (f : Origin → Nodes → Option Nodes) :
    List String → Origin → Nodes → Option Nodes
  | [], origin, nodes => f origin nodes
  | key :: path, _, nodes =>
    match nodes.lookup key with
    | none =>
      let origin := if dotted then Origin.dotted else .path
      (modify dotted f path origin []).map fun inner => nodes ++ [(key, .table origin inner)]
    | some (.table origin inner) =>
      if dotted ∧ origin = .header then none
      else
        (modify dotted f path origin inner).map fun inner =>
          replace key (.table origin inner) nodes
    | some (.tables elements) =>
      match elements.reverse with
      | [] => none
      | last :: before =>
        (modify dotted f path .header last).map fun last =>
          replace key (.tables (last :: before).reverse) nodes
    | some (.value _) => none

/-- Sets a key, `path` being what stands before its last dot.  A dotted key ends in a table
that dotted keys made, a plain key in one that they did not. -/
def set? (path : List String) (key : String) (node : Node) (nodes : Nodes) : Option Nodes :=
  modify true
    (fun origin inner =>
      if decide (origin = .dotted) = path.isEmpty then none else add? key node inner)
    path .header nodes

/-- Opens the table that a header names: a new one, or one that exists only as part of a
path. -/
def openTable? (path : List String) (key : String) (nodes : Nodes) : Option Nodes :=
  modify false
    (fun _ inner =>
      match inner.lookup key with
      | none => add? key (.table .header []) inner
      | some (.table .path es) => some (replace key (.table .header es) inner)
      | some _ => none)
    path .header nodes

/-- Adds an element to the array of tables that a header names. -/
def openElement? (path : List String) (key : String) (nodes : Nodes) : Option Nodes :=
  modify false
    (fun _ inner =>
      match inner.lookup key with
      | none => add? key (.tables [[]]) inner
      | some (.tables elements) => some (replace key (.tables (elements ++ [[]])) inner)
      | some _ => none)
    path .header nodes

end Nodes

/-! ### Finished values -/

mutual

def Node.toToml : Node → Toml
  | .value v => v
  | .table _ entries => .table (toEntries entries)
  | .tables elements => .array (toTables elements)

def toEntries : List (String × Node) → Entries
  | [] => []
  | (k, n) :: rest => Entries.insert k n.toToml (toEntries rest)

def toTables : List (List (String × Node)) → List Toml
  | [] => []
  | e :: es => .table (toEntries e) :: toTables es

end

end CodeTidy.Toml
