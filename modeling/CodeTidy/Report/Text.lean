import CodeTidy.Report.Outcome

/-!
# Reports for people

An outcome is written as one line when it is known, or one line per finding; a report ends with
a line per operation and a verdict.  Colours are escape sequences around a text; without them
the same text stands alone.
-/

namespace CodeTidy

/-! ### Colours -/

/-- What a text can look like. -/
inductive Style where
  | bold
  | reversed
  | red
  | green
  | yellow
  | boldRed
  | boldGreen
  | boldYellow
  deriving DecidableEq, Repr

namespace Style

/-- The parameters of the escape sequence. -/
def code : Style → String
  | bold => "1"
  | reversed => "7"
  | red => "31"
  | green => "32"
  | yellow => "33"
  | boldRed => "1;31"
  | boldGreen => "1;32"
  | boldYellow => "1;33"

def start (s : Style) : String :=
  "\x1b[" ++ s.code ++ "m"

/-- The sequence that ends every style. -/
def reset : String := "\x1b[0m"

/-- The text in the style.  Where a style ends inside the text, this one starts again. -/
def apply (s : Style) (text : String) : String :=
  let body := Text.replaceAll reset.toList (reset ++ s.start).toList text.toList
  s.start ++ String.ofList body ++ reset

end Style

/-! ### The text form -/

/-- How reports are written for people. -/
structure TextForm where
  colors : Bool
  /-- How the path of a file is shown. -/
  displayPath : Path → String

namespace TextForm

def paint (f : TextForm) (s : Style) (text : String) : String :=
  if f.colors then s.apply text else text

/-- A finding in a file. -/
def diagnosticLine (f : TextForm) (path : String) (d : Diagnostic) : String :=
  let cell :=
    match d.cell with
    | none => ""
    | some n => ":" ++ f.paint .reversed ("Cell" ++ toString n)
  f.paint .boldRed d.code ++ " " ++ path ++ cell ++ ":" ++ toString d.line ++ ":"
    ++ toString d.column ++ " - " ++ d.message

/-- What is printed about an outcome; nothing when it has neither findings nor a message. -/
def outcomeText? (f : TextForm) (o : Outcome) : Option String :=
  let path := f.displayPath o.path
  if !o.diagnostics.isEmpty then
    some (String.intercalate "\n" (o.diagnostics.map (f.diagnosticLine path)))
  else
    match o.message with
    | none => none
    | some message =>
      let path := f.paint .bold path
      match o.status with
      | .clean => none
      | .error => some (path ++ ": " ++ f.paint .red (o.operation ++ " failed:") ++ " " ++ message)
      | .modified => some (path ++ ": " ++ message)
      | .violation => some (path ++ ": " ++ message)

/-- A counter that is shown when it is not zero. -/
def counter (f : TextForm) (n : Nat) (what : String) (style : Option Style) : List String :=
  let text := toString n ++ " " ++ what
  if n = 0 then [] else [style.elim text fun s => f.paint s text]

def summaryLine (f : TextForm) (name : String) (t : Tally) : String :=
  let parts :=
    [toString t.files ++ " file(s)"]
      ++ f.counter t.clean "clean" none
      ++ f.counter t.modified "modified" (some .green)
      ++ f.counter t.violations "with violations" (some .yellow)
      ++ f.counter t.errors "failed" (some .red)
  f.paint .bold name ++ ": " ++ String.intercalate ", " parts

/-- The last line of a report. -/
def verdict (f : TextForm) (r : Report) : String :=
  if r.hasErrors then
    f.paint .boldRed ("Finished with " ++ toString r.total.errors ++ " error(s).")
  else if r.hasViolations then
    let hint := if r.mode = .check then "" else " Some of them cannot be fixed automatically."
    f.paint .boldYellow
      ("Found violations in " ++ toString r.total.violations ++ " file(s)." ++ hint)
  else f.paint .boldGreen "All done!"

def reportText (f : TextForm) (r : Report) : String :=
  String.intercalate "\n"
    (r.summaries.map (fun (name, t) => f.summaryLine name t) ++ [f.verdict r])

end TextForm

end CodeTidy
