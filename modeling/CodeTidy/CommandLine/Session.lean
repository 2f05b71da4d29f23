import CodeTidy.CommandLine.Request
import CodeTidy.Report.Json
import CodeTidy.Report.Text
import CodeTidy.Run
import CodeTidy.Settings.Search

/-!
# The program

`Session.perform` answers a request on a site: what is printed, what is logged, the exit code,
and the files afterwards.  An error that ends it is found before the first operation, so it
leaves every file as it was.
-/

namespace CodeTidy

open CodeTidy.Text

/-! ### Messages -/

/-- How important a message is. -/
inductive LogLevel where
  | warning
  | information
  deriving DecidableEq, Repr

/-- A message about what is going on, and the part of the program that it comes from. -/
structure LogEntry where
  level : LogLevel
  origin : String
  message : String
  deriving DecidableEq, Repr

namespace LogEntry

/-- Whether the message is shown to a user who asked so often for more of them. -/
def isShown (verbosity : Nat) (e : LogEntry) : Bool :=
  match e.level with
  | .warning => true
  | .information => 0 < verbosity

/-- The message as it is written; lines after the first are indented. -/
def line (e : LogEntry) : String :=
  let level :=
    match e.level with
    | .warning => "WARN "
    | .information => "INFO "
  let indented := replaceAll ['\n'] "\n    ".toList e.message.toList
  "[" ++ level ++ " " ++ e.origin ++ "] " ++ String.ofList indented ++ "\n"

def program (level : LogLevel) (message : String) : LogEntry :=
  ⟨level, "colint", message⟩

def settings (message : String) : LogEntry :=
  ⟨.warning, "colint_lib::config", message⟩

/-- The message that tells of an event; outcomes are printed and not logged.  There is no clock,
and durations are given as zero. -/
def ofEvent? : RunEvent → Option LogEntry
  | .started op =>
    some ⟨.information, "colint_lib::file_processor::processing",
      "Running " ++ op.name ++ " (" ++ op.description ++ ")"⟩
  | .badIgnoreFiles text => some ⟨.warning, "colint_lib::file_processor::discovery", text⟩
  | .performed _ => none
  | .finished op files errors =>
    some ⟨.information, "colint_lib::file_processor::processing",
      "Finished " ++ op.name ++ " on " ++ toString files ++ " file(s) in 0ms ("
        ++ toString errors ++ " error(s))"⟩

end LogEntry

/-! ### Errors -/

/-- Why a request is not carried out. -/
inductive FatalError where
  | missingTarget (target : Path)
  | directoryForDocformat (target : Path)
  | config (error : ConfigError)
  | discovery (error : DiscoveryError)
  deriving Repr

namespace FatalError

/-- What is said, from the outermost to the innermost cause. -/
def chain : FatalError → List String
  | missingTarget target => ["Path '" ++ target.display ++ "' does not exist"]
  | directoryForDocformat target =>
    ["docformat works on a single file, but '" ++ target.display ++ "' is a directory"]
  | config error =>
    ["Failed to load configuration", error.message] ++ error.cause?.toList
  | discovery error => error.message :: error.cause?.toList

def message (e : FatalError) : String :=
  String.intercalate ": " e.chain

end FatalError

/-! ### Sessions -/

/-- What has come of a request. -/
structure Session where
  site : Site
  /-- The lines that are printed. -/
  printed : List String := []
  log : List LogEntry := []
  error : Option FatalError := none
  exitCode : Nat := 0
  deriving Repr

namespace Session

/-- The exit code of a request that is not carried out. -/
def errorCode : Nat := 2

/-- The exit code when a report cannot be written, because a path in it is not text. -/
def unwritableCode : Nat := 101

def log1 (s : Session) (e : LogEntry) : Session :=
  { s with log := s.log ++ [e] }

def fail (s : Session) (e : FatalError) : Session :=
  { s with error := some e, exitCode := errorCode }

def textForm (s : Site) (colors : Bool) : TextForm :=
  ⟨colors, displayPath s.files s.workingDirectory⟩

/-- The lines about what a run tells: one for every outcome that has a text, unless the user wants
it quiet. -/
def detailLines (r : Request) (form : TextForm) (events : List RunEvent) : List String :=
  match r.format with
  | .json => []
  | .text =>
    if r.quiet then [] else (events.filterMap RunEvent.outcome?).filterMap form.outcomeText?

/-- The text of a report; nothing when it has none. -/
def reportText? (r : Request) (form : TextForm) (report : Report) : Option String :=
  match r.format with
  | .json => report.jsonText?
  | .text => some (form.reportText report)

/-- Prints a report, and ends with its exit code. -/
def printReport (s : Session) (r : Request) (form : TextForm) (report : Report) : Session :=
  match reportText? r form report with
  | some text => { s with printed := s.printed ++ [text], exitCode := report.exitCode }
  | none => { s with exitCode := unwritableCode }

/-- Carries out a request with the settings that have been loaded. -/
def performWith (s : Session) (launch : Toolbox) (terminal : Bool) (r : Request)
    (config : Config) : Session :=
  match Discoverer.ofPatterns config.general.exclude config.general.respectGitignore with
  | .error e => s.fail (.discovery e)
  | .ok discoverer =>
    let plan : RunPlan :=
      { workshop := ⟨config.toSections, ⟨launch, config.general.timeout⟩⟩
        discoverer := discoverer
        root := r.target
        mode := r.mode }
    let (error?, progress) := plan.run (r.command.plan r.cleanNotebooks) s.site
    let form := textForm progress.site (terminal && r.colors)
    let s :=
      { s with
        site := progress.site
        printed := s.printed ++ detailLines r form progress.events
        log := s.log ++ progress.events.filterMap LogEntry.ofEvent? }
    match error? with
    | some e => s.fail (.discovery e)
    | none => s.printReport r form progress.report

/-- Carries out a request.  `terminal` tells whether somebody sees the colours. -/
def perform (launch : Toolbox) (terminal : Bool) (r : Request) (site : Site) : Session :=
  let s : Session := { site := site }
  if !site.files.exists? site.workingDirectory r.target then s.fail (.missingTarget r.target)
  else if r.command = .docformat ∧ site.files.isDir site.workingDirectory r.target then
    s.fail (.directoryForDocformat r.target)
  else
    let s :=
      if r.cleanNotebooks ∧ r.command ≠ .lint then
        s.log1 (.program .warning
          ("--clean-notebooks only applies to lint; ignoring it for " ++ r.command.name))
      else s
    match LoadedConfig.load site.files site.workingDirectory r.settingsFile r.target with
    | .error e => s.fail (.config e)
    | .ok loaded =>
      let s := loaded.warnings.foldl (fun s w => s.log1 (.settings w)) s
      let s :=
        match loaded.source with
        | none => s
        | some path =>
          s.log1 (.program .information ("Using configuration from " ++ path.display))
      s.performWith launch terminal r loaded.config

end Session

/-! ### What the user sees -/

/-- What a program run writes to its two streams, its exit code, and the files afterwards. -/
structure Transcript where
  stdout : String := ""
  stderr : String := ""
  exitCode : Nat := 0
  site : Site
  deriving Repr

namespace Transcript

/-- The name and version of the program. -/
def versionLine : String := "colint 0.2.0\n"

def usageLine : String := "Usage: colint [OPTIONS] <COMMAND> <PATH_TO_DIR>\n"

def ofSession (verbosity : Nat) (s : Session) : Transcript :=
  let log := String.join ((s.log.filter (·.isShown verbosity)).map LogEntry.line)
  let error := s.error.elim "" fun e => "Error: " ++ e.message ++ "\n"
  { stdout := String.join (s.printed.map (· ++ "\n"))
    stderr := log ++ error
    exitCode := s.exitCode
    site := s.site }

/-- Answers the arguments of a command line. -/
def ofArguments (launch : Toolbox) (terminal : Bool) (arguments : List String) (site : Site) :
    Transcript :=
  match Ask.ofArguments arguments with
  | .error e =>
    { stderr := "error: " ++ e.message ++ "\n\n" ++ usageLine
      exitCode := Session.errorCode
      site := site }
  | .ok .version => { stdout := versionLine, site := site }
  | .ok .help => { stdout := usageLine, site := site }
  | .ok (.run r) => ofSession r.verbosity (Session.perform launch terminal r site)

end Transcript

end CodeTidy
