/-!
# TOML values

The values of a TOML document.  Floats and dates are kept as they were written, since nothing
computes with them; the entries of a table are sorted by key.
-/

namespace CodeTidy

inductive Toml where
  | string (value : String)
  | integer (value : Int)
  | float (literal : String)
  | boolean (value : Bool)
  | dateTime (literal : String)
  | array (items : List Toml)
  | table (entries : List (String × Toml))
  deriving Repr, Inhabited

namespace Toml

/-- The entries of a table, sorted by key. -/
abbrev Entries := List (String × Toml)

/-- Puts an entry where its key belongs. -/
def Entries.insert (key : String) (value : Toml) : Entries → Entries
  | [] => [(key, value)]
  | (k, v) :: es => if key < k then (key, value) :: (k, v) :: es else (k, v) :: insert key value es

def table? : Toml → Option Entries
  | .table entries => some entries
  | _ => none

/-- The key under which a date shows where a table is asked for. -/
def dateKey : String := "$__toml_private_datetime"

/-- The entries of what can stand for a table: a table, or a date under its reserved key. -/
def fields? : Toml → Option Entries
  | .table entries => some entries
  | .dateTime literal => some [(dateKey, .string literal)]
  | _ => none

end Toml

end CodeTidy
