import CodeTidy.Command
import CodeTidy.Diagnostic
import CodeTidy.Host.Path

/-!
# Outcomes and reports

An outcome is what one operation did to one file.  A report collects the outcomes of a run in
the order in which they came, and the names of the operations in the order in which they were
first mentioned.  `Report.summaries` counts per operation, `Report.total` over all of them.
-/

namespace CodeTidy

/-! ### Outcomes -/

/-- How an operation on a file ended. -/
inductive Status where
  | clean
  | modified
  | violation
  | error
  deriving DecidableEq, Repr

def Status.name : Status → String
  | clean => "clean"
  | modified => "modified"
  | violation => "violation"
  | error => "error"

/-- The result of one operation on one file. -/
structure Outcome where
  path : Path
  operation : String
  status : Status
  message : Option String := none
  diagnostics : List Diagnostic := []
  deriving DecidableEq, Repr

/-! ### Tallies -/

/-- How many outcomes there are of each status. -/
structure Tally where
  clean : Nat := 0
  modified : Nat := 0
  violations : Nat := 0
  errors : Nat := 0
  deriving DecidableEq, Repr

namespace Tally

def record (t : Tally) : Status → Tally
  | .clean => { t with clean := t.clean + 1 }
  | .modified => { t with modified := t.modified + 1 }
  | .violation => { t with violations := t.violations + 1 }
  | .error => { t with errors := t.errors + 1 }

def files (t : Tally) : Nat :=
  t.clean + t.modified + t.violations + t.errors

theorem files_record (t : Tally) (s : Status) : (t.record s).files = t.files + 1 := by
  cases s <;> simp only [record, files] <;> omega

def ofOutcomes (outcomes : List Outcome) : Tally :=
  outcomes.foldl (fun t o => t.record o.status) {}

end Tally

/-- The tallies of operations, in an order. -/
abbrev Summaries := List (String × Tally)

/-- Counts an outcome for its operation; one that is not there yet is put at the end. -/
def Summaries.record (table : Summaries) (o : Outcome) : Summaries :=
  match table with
  | [] => [(o.operation, Tally.record {} o.status)]
  | (name, t) :: rest =>
    if name = o.operation then (name, t.record o.status) :: rest else (name, t) :: record rest o

/-! ### Reports -/

/-- The outcomes of a run. -/
structure Report where
  mode : Mode
  operations : List String := []
  outcomes : List Outcome := []
  deriving DecidableEq, Repr

namespace Report

def beginOperation (r : Report) (name : String) : Report :=
  if r.operations.contains name then r else { r with operations := r.operations ++ [name] }

def push (r : Report) (o : Outcome) : Report :=
  let r := r.beginOperation o.operation
  { r with outcomes := r.outcomes ++ [o] }

/-- The tally of each operation.  The operations come in their order, with nothing counted yet, and
every outcome is counted for its own. -/
def summaries (r : Report) : Summaries :=
  r.outcomes.foldl Summaries.record (r.operations.map fun name => (name, {}))

def total (r : Report) : Tally :=
  Tally.ofOutcomes r.outcomes

def hasErrors (r : Report) : Bool :=
  r.outcomes.any (·.status == .error)

def hasViolations (r : Report) : Bool :=
  r.outcomes.any (·.status == .violation)

/-- The exit code of the run: errors outweigh violations, and modified files are a success. -/
def exitCode (r : Report) : Nat :=
  if r.hasErrors then 2 else if r.hasViolations then 1 else 0

end Report

end CodeTidy
