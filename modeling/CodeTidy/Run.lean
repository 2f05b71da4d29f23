import CodeTidy.Discovery.Discover
import CodeTidy.Operation.Perform

/-!
# Runs

A run performs operations one after another; for each it discovers the files anew and works
through them in order.  Every file has its outcome, also when the operation fails on it, and
the operations after it go on.  Only a root that is not there ends a run early.
-/

namespace CodeTidy

/-- What can be told about a run while it goes on. -/
inductive RunEvent where
  | started (op : Operation)
  /-- Some lines of the ignore files are no patterns. -/
  | badIgnoreFiles (text : String)
  /-- An operation is done with a file. -/
  | performed (outcome : Outcome)
  | finished (op : Operation) (files errors : Nat)
  deriving DecidableEq, Repr

def RunEvent.outcome? : RunEvent → Option Outcome
  | performed outcome => some outcome
  | _ => none

/-- How far a run has come. -/
structure Progress where
  site : Site
  report : Report
  events : List RunEvent := []
  deriving Repr

/-- What is fixed in a run. -/
structure RunPlan where
  workshop : Workshop
  discoverer : Discoverer
  root : Path
  mode : Mode

namespace RunPlan

/-- Performs an operation on one file and tells what came of it. -/
def visit (r : RunPlan) (op : Operation) (p : Progress) (path : Path) : Progress :=
  let (outcome, site) := r.workshop.perform r.mode op path p.site
  { site := site
    report := p.report.push outcome
    events := p.events ++ [.performed outcome] }

def visitAll (r : RunPlan) (op : Operation) (p : Progress) (paths : List Path) : Progress :=
  paths.foldl (r.visit op) p

/-- What is told before the first file of an operation. -/
def opening (r : RunPlan) (op : Operation) (s : Site) : List RunEvent :=
  .started op
    :: ((r.discoverer.warning? s.files s.workingDirectory r.root).elim [] fun text =>
          [.badIgnoreFiles text])

/-- The files that an operation sees at this point of a run. -/
def targets (r : RunPlan) (op : Operation) (s : Site) : Except DiscoveryError (List Path) :=
  r.discoverer.discover s.files s.workingDirectory r.root op.filter

/-- Performs one operation on the files below the root. -/
def stage (r : RunPlan) (p : Progress) (op : Operation) : Except DiscoveryError Progress :=
  match r.targets op p.site with
  | .error error => .error error
  | .ok paths =>
    let began :=
      { p with
        report := p.report.beginOperation op.name
        events := p.events ++ r.opening op p.site }
    let done := r.visitAll op began paths
    let errors := done.report.total.errors - p.report.total.errors
    .ok { done with events := done.events ++ [.finished op paths.length errors] }

/-- Performs operations until one cannot discover its files: the error, if there was one, and
what had come about by then. -/
def stages (r : RunPlan) (p : Progress) : List Operation → Option DiscoveryError × Progress
  | [] => (none, p)
  | op :: ops =>
    match r.stage p op with
    | .error error => (some error, p)
    | .ok p => r.stages p ops

/-- The progress of a run that has not begun. -/
def start (r : RunPlan) (s : Site) : Progress :=
  ⟨s, { mode := r.mode }, []⟩

/-- Performs operations on the files below the root. -/
def run (r : RunPlan) (ops : List Operation) (s : Site) : Option DiscoveryError × Progress :=
  r.stages (r.start s) ops

end RunPlan

end CodeTidy
