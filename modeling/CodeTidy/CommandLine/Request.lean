import CodeTidy.Command
import CodeTidy.Host.Path
import CodeTidy.Text.Lines

/-!
# Command lines

A command line has two operands, the command and the path of the target, and options before,
between and after them.  `Request.ofArguments` reads one from left to right.  The value of an
operand or option is looked at when the next argument is understood, so that an argument which
is no option at all is reported first.
-/

namespace CodeTidy

open CodeTidy.Text

/-! ### What can be asked for -/

inductive ReportFormat where
  | text
  | json
  deriving DecidableEq, Repr

/-- What the user wants to be done. -/
structure Request where
  command : Command
  target : Path
  mode : Mode := .apply
  cleanNotebooks : Bool := false
  settingsFile : Option Path := none
  format : ReportFormat := .text
  quiet : Bool := false
  /-- How often more messages were asked for. -/
  verbosity : Nat := 0
  colors : Bool := true
  deriving DecidableEq, Repr

/-- What a command line asks for. -/
inductive Ask where
  | run (r : Request)
  | version
  | help
  deriving DecidableEq, Repr

/-! ### Options -/

/-- An option without a value. -/
inductive Flag where
  | check
  | cleanNotebooks
  | quiet
  | verbose
  | noColor
  | version
  | help
  deriving DecidableEq, Repr

namespace Flag

def all : List Flag :=
  [check, cleanNotebooks, quiet, verbose, noColor, version, help]

def name : Flag → String
  | check => "check"
  | cleanNotebooks => "clean-notebooks"
  | quiet => "quiet"
  | verbose => "verbose"
  | noColor => "no-color"
  | version => "version"
  | help => "help"

/-- The letter that stands for the flag. -/
def letter? : Flag → Option Char
  | quiet => some 'q'
  | verbose => some 'v'
  | version => some 'V'
  | help => some 'h'
  | _ => none

def ofName? (name : String) : Option Flag :=
  all.find? (·.name == name)

def ofLetter? (c : Char) : Option Flag :=
  all.find? (·.letter? == some c)

end Flag

/-- What takes a value: the operands and the options with one. -/
inductive Slot where
  | command
  | target
  | settingsFile
  | format
  deriving DecidableEq, Repr

namespace Slot

/-- How messages speak of it. -/
def label : Slot → String
  | command => "<COMMAND>"
  | target => "<PATH_TO_DIR>"
  | settingsFile => "--config-file <FILE>"
  | format => "--output-format <OUTPUT_FORMAT>"

def ofName? (name : String) : Option Slot :=
  if name = "config-file" then some settingsFile
  else if name = "output-format" then some format
  else none

end Slot

/-! ### Errors -/

/-- Why a command line cannot be understood. -/
inductive UsageError where
  | unexpectedArgument (argument : String)
  | unneededValue (flag : Flag) (value : String)
  | missingValue (slot : Slot)
  | unknownCommand (name : String)
  | unknownFormat (name : String)
  | repeatedFlag (flag : Flag)
  | repeatedOption (slot : Slot)
  | missingOperands (slots : List Slot)
  deriving DecidableEq, Repr

/-- The message, of which the first line says what is wrong. -/
def UsageError.message : UsageError → String
  | unexpectedArgument argument => "unexpected argument '" ++ argument ++ "' found"
  | unneededValue flag value =>
    "unexpected value '" ++ value ++ "' for '--" ++ flag.name ++ "' found; no more were expected"
  | missingValue slot => "a value is required for '" ++ slot.label ++ "' but none was supplied"
  | unknownCommand name =>
    "invalid value '" ++ name ++ "' for '" ++ Slot.label .command ++ "': "
      ++ Command.unknownMessage name
  | unknownFormat name => "invalid value '" ++ name ++ "' for '" ++ Slot.label .format ++ "'"
  | repeatedFlag flag => "the argument '--" ++ flag.name ++ "' cannot be used multiple times"
  | repeatedOption slot => "the argument '" ++ slot.label ++ "' cannot be used multiple times"
  | missingOperands slots =>
    "the following required arguments were not provided:"
      ++ String.join (slots.map fun slot => "\n  " ++ slot.label)

/-! ### Reading -/

/-- What has been read of a command line. -/
structure Draft where
  command : Option Command := none
  target : Option Path := none
  settingsFile : Option Path := none
  format : Option ReportFormat := none
  flags : List Flag := []
  /-- How many operands there have been. -/
  operands : Nat := 0
  /-- What waits for a value, or for its value to be looked at. -/
  pending : Option (Slot × Option String) := none
  /-- Whether only operands follow. -/
  operandsOnly : Bool := false
  deriving DecidableEq, Repr

/-- How reading goes on. -/
inductive Reading where
  | more (d : Draft)
  /-- The command line asks for nothing else. -/
  | done (a : Ask)

namespace Draft

def fill (d : Draft) (slot : Slot) (value : String) : Except UsageError Draft :=
  match slot with
  | .command =>
    match Command.ofName? value with
    | some c => .ok { d with command := some c }
    | none => .error (.unknownCommand value)
  | .target =>
    if value.isEmpty then .error (.missingValue .target)
    else .ok { d with target := some (Path.ofString value) }
  | .settingsFile =>
    if d.settingsFile.isSome then .error (.repeatedOption .settingsFile)
    else if value.isEmpty then .error (.missingValue .settingsFile)
    else .ok { d with settingsFile := some (Path.ofString value) }
  | .format =>
    if d.format.isSome then .error (.repeatedOption .format)
    else
      match value with
      | "text" => .ok { d with format := some .text }
      | "json" => .ok { d with format := some .json }
      | "" => .error (.missingValue .format)
      | value => .error (.unknownFormat value)

/-- Looks at the value that waits for it. -/
def settle (d : Draft) : Except UsageError Draft :=
  match d.pending with
  | none => .ok d
  | some (slot, none) => .error (.missingValue slot)
  | some (slot, some value) => { d with pending := none }.fill slot value

def raise (d : Draft) (flag : Flag) : Except UsageError Reading := do
  let d ← d.settle
  match flag with
  | .version => .ok (.done .version)
  | .help => .ok (.done .help)
  | .verbose => .ok (.more { d with flags := .verbose :: d.flags })
  | flag =>
    if d.flags.contains flag then .error (.repeatedFlag flag)
    else .ok (.more { d with flags := flag :: d.flags })

/-- Reads the name of an option with or without a value. -/
def readLong (d : Draft) (body : List Char) : Except UsageError Reading :=
  let (name, value?) :=
    match splitOnce '=' body with
    | none => (body, none)
    | some (name, value) => (name, some (String.ofList value))
  let name := String.ofList name
  match Flag.ofName? name, Slot.ofName? name, value? with
  | some flag, _, some value => .error (.unneededValue flag value)
  | some flag, _, none => d.raise flag
  | none, some slot, some value => do
    let d ← d.settle
    let d ← d.fill slot value
    .ok (.more d)
  | none, some slot, none => do
    let d ← d.settle
    .ok (.more { d with pending := some (slot, none) })
  | none, none, _ => .error (.unexpectedArgument ("--" ++ name))

/-- Reads the letters of flags. -/
def readLetters (d : Draft) : List Char → Except UsageError Reading
  | [] => .ok (.more d)
  | c :: cs =>
    match Flag.ofLetter? c with
    | none => .error (.unexpectedArgument (String.ofList ['-', c]))
    | some flag =>
      match d.raise flag with
      | .error e => .error e
      | .ok (.done a) => .ok (.done a)
      | .ok (.more d) => readLetters d cs

def readOperand (d : Draft) (value : String) : Except UsageError Reading :=
  let slot? : Option Slot :=
    match d.operands with
    | 0 => some .command
    | 1 => some .target
    | _ => none
  match slot? with
  | none => .error (.unexpectedArgument value)
  | some slot => do
    let d ← d.settle
    .ok (.more { d with pending := some (slot, some value), operands := d.operands + 1 })

def read (d : Draft) (argument : String) : Except UsageError Reading :=
  if d.operandsOnly then d.readOperand argument
  else
    match argument.toList with
    | ['-', '-'] => .ok (.more { d with operandsOnly := true })
    | '-' :: '-' :: body => d.readLong body
    | '-' :: c :: cs => d.readLetters (c :: cs)
    | _ =>
      match d.pending with
      | some (slot, none) => .ok (.more { d with pending := some (slot, some argument) })
      | _ => d.readOperand argument

def readAll (d : Draft) : List String → Except UsageError Reading
  | [] => .ok (.more d)
  | a :: rest =>
    match d.read a with
    | .error e => .error e
    | .ok (.done ask) => .ok (.done ask)
    | .ok (.more d) => readAll d rest

/-- The request, when both operands are there. -/
def request (d : Draft) : Except UsageError Request :=
  match d.command, d.target with
  | some command, some target =>
    .ok
      { command := command
        target := target
        mode := if d.flags.contains .check then .check else .apply
        cleanNotebooks := d.flags.contains .cleanNotebooks
        settingsFile := d.settingsFile
        format := d.format.getD .text
        quiet := d.flags.contains .quiet
        verbosity := d.flags.count .verbose
        colors := !d.flags.contains .noColor }
  | some _, none => .error (.missingOperands [.target])
  | none, some _ => .error (.missingOperands [.command])
  | none, none => .error (.missingOperands [.command, .target])

end Draft

/-- What the arguments of a command line ask for. -/
def Ask.ofArguments (arguments : List String) : Except UsageError Ask :=
  match Draft.readAll {} arguments with
  | .error e => .error e
  | .ok (.done ask) => .ok ask
  | .ok (.more d) =>
    match d.settle with
    | .error e => .error e
    | .ok d => d.request.map .run

end CodeTidy
