import CodeTidy.Json.Printer
import CodeTidy.Report.Outcome

/-!
# Reports for programs

`Report.toJson?` is one document with the counts of every operation and all outcomes.  A path
that is not text has no JSON form, so a report with such a path has none either.
-/

namespace CodeTidy

def Diagnostic.toJson (d : Diagnostic) : Json :=
  .object
    ([("line", Json.nat d.line), ("column", Json.nat d.column)]
      ++ (d.cell.elim [] fun n => [("cell", Json.nat n)])
      ++ [("code", .string d.code), ("message", .string d.message)])

/-- An outcome without what is absent or empty. -/
def Outcome.toJson? (o : Outcome) : Option Json :=
  (Utf8.decode? o.path.bytes).map fun path =>
    .object
      ([("path", .string path), ("operation", .string o.operation),
        ("status", .string o.status.name)]
        ++ (o.message.elim [] fun m => [("message", .string m)])
        ++ (if o.diagnostics.isEmpty then []
            else [("diagnostics", .array (o.diagnostics.map Diagnostic.toJson))]))

def Tally.toJson (name : String) (t : Tally) : Json :=
  .object
    [("name", .string name), ("files", Json.nat t.files), ("clean", Json.nat t.clean),
     ("modified", Json.nat t.modified), ("violations", Json.nat t.violations),
     ("errors", Json.nat t.errors)]

namespace Report

/-- The document of a report. -/
def toJson? (r : Report) : Option Json :=
  (r.outcomes.mapM Outcome.toJson?).map fun outcomes =>
    .object
      [("mode", .string r.mode.name), ("exit_code", Json.nat r.exitCode),
       ("operations", .array (r.summaries.map fun (name, t) => t.toJson name)),
       ("outcomes", .array outcomes)]

/-- The document as it is printed. -/
def jsonText? (r : Report) : Option String :=
  r.toJson?.map (Json.pretty 2)

end Report

end CodeTidy
