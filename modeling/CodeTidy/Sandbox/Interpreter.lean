import CodeTidy.Sandbox.Script
import CodeTidy.Sandbox.Utility

/-!
# Running scripts

`Interpreter.exec` runs a script on a state: what is left to read, what has been printed, the
variables, the status of the last command, the files.  Programs are found among the utilities
and among the executable files of the tree.  Only redirections change files.
-/

namespace CodeTidy.Sandbox

namespace Interpreter

/-! ### State -/

/-- Why nothing more is run. -/
inductive Halt where
  /-- The script has ended itself. -/
  | exited
  /-- A signal has ended the shell. -/
  | killed
  deriving DecidableEq, Repr

structure State where
  surroundings : Surroundings
  name : Octets
  arguments : List Octets
  input : Octets
  bindings : List (Octets × Octets) := []
  status : Nat := 0
  /-- What has been printed, and the number of the stream, the last first. -/
  printed : List (Nat × Octets) := []
  halt : Option Halt := none
  /-- How many milliseconds have passed. -/
  duration : Nat := 0
  deriving Repr

/-- The number by which the shell knows itself. -/
def ownNumber : Octets := "4242".toList

namespace State

def set (m : State) (name value : Octets) : State :=
  { m with bindings := (name, value) :: m.bindings.filter (·.1 != name) }

def print (m : State) (stream : Nat) (text : Octets) : State :=
  if text.isEmpty then m else { m with printed := (stream, text) :: m.printed }

/-- Everything that has been printed to a stream. -/
def stream (m : State) (number : Nat) : Octets :=
  (m.printed.reverse.filter (·.1 == number)).flatMap (·.2)

def parameter (m : State) (name : Octets) : Octets :=
  match name with
  | ['?'] => Octets.ofNat m.status
  | ['#'] => Octets.ofNat m.arguments.length
  | ['$'] => ownNumber
  | ['@'] => List.intercalate [' '] m.arguments
  | ['*'] => List.intercalate [' '] m.arguments
  | name =>
    match Octets.nat? name with
    | some 0 => m.name
    | some (n + 1) => (m.arguments[n]?).getD []
    | none => (m.bindings.lookup name).getD []

/-- Ends a command that complains. -/
def complain (m : State) (text : String) (status : Nat) : State :=
  { m.print 2 (m.name ++ ": 1: ".toList ++ text.toList ++ ['\n']) with status := status }

/-- Takes over how a program ended. -/
def finish (m : State) (f : Finish) : State :=
  { (m.print 1 f.stdout).print 2 f.stderr with
    status := f.status, input := f.rest, duration := m.duration + f.duration }

/-- A shell with the same variables that reads something of its own. -/
def child (m : State) (input : Octets) : State :=
  { m with input := input, printed := [], duration := 0 }

/-- Takes over from a shell of its own what others can see of it. -/
def absorb (m : State) (c : State) : State :=
  { m with
    surroundings := c.surroundings
    printed := c.printed ++ m.printed
    status := c.status
    halt := if c.halt = some .killed then c.halt else m.halt
    duration := m.duration + c.duration }

/-- Takes over from a program that has ended what others can see of it. -/
def receive (m : State) (c : State) : State :=
  let status := if c.halt = some .killed then 128 + 9 else c.status
  { m.absorb { c with halt := none, status := status } with input := c.input }

end State

/-! ### Fields -/

/-- The words that come of a word: those that are complete, and the current one if it has
begun. -/
structure Fields where
  complete : List Octets := []
  current : Option Octets := none
  deriving Repr

namespace Fields

def add (f : Fields) (s : Octets) : Fields :=
  { f with current := some (f.current.getD [] ++ s) }

def close (f : Fields) : Fields :=
  { complete := f.complete ++ f.current.toList }

/-- Adds text whose blanks separate words. -/
def split (f : Fields) (s : Octets) : Fields :=
  s.foldl (fun f c => if c == ' ' || c == '\t' || c == '\n' then f.close else f.add [c]) f

/-- Adds words of which the first continues the current one. -/
def addAll (f : Fields) : List Octets → Fields
  | [] => f
  | [a] => f.add a
  | a :: rest => ((f.add a).close).addAll rest

def all (f : Fields) : List Octets :=
  f.close.complete

end Fields

/-! ### Reading lines -/

/-- Reads a line up to its newline: the line, the rest, and whether there was a newline.  Unless
the line is raw, a backslash makes the next character an ordinary one. -/
def takeLine (raw : Bool) (found : Octets) : Octets → Octets × Octets × Bool
  | [] => (found.reverse, [], false)
  | '\\' :: c :: rest =>
    if raw then takeLine raw ('\\' :: found) (c :: rest)
    else takeLine raw (if c = '\n' then found else c :: found) rest
  | c :: rest => if c = '\n' then (found.reverse, rest, true) else takeLine raw (c :: found) rest
termination_by s => s.length

/-- Distributes a line over variables; the last one takes what is left. -/
def distribute (separators : Octets) (m : State) (line : Octets) : List Octets → State
  | [] => m
  | [name] =>
    m.set name ((line.dropWhile separators.contains).reverse.dropWhile separators.contains).reverse
  | name :: names =>
    let line := line.dropWhile separators.contains
    let first := line.takeWhile fun c => !separators.contains c
    distribute separators (m.set name first) (line.drop first.length) names

def readLine (m : State) (arguments : List Octets) : State :=
  let raw := arguments.contains ['-', 'r']
  let names := arguments.filter (·.head? != some '-')
  let (line, rest, complete) := takeLine raw [] m.input
  let separators := (m.bindings.lookup "IFS".toList).getD " \t\n".toList
  { distribute separators m line names with
    input := rest, status := if complete then 0 else 1 }

/-! ### Signals -/

/-- The signals of the arguments of `kill`, without which it sends one that ends a program, and
the receivers. -/
def signal (arguments : List Octets) : Octets × List Octets :=
  match arguments with
  | ['-', 's'] :: name :: rest => (name, rest)
  | ('-' :: name) :: rest => (name, rest)
  | rest => ("TERM".toList, rest)

def kill (m : State) (arguments : List Octets) : State :=
  let (name, receivers) := signal arguments
  if receivers.all (· == ownNumber) && !receivers.isEmpty then
    if name = ['0'] then { m with status := 0 } else { m with halt := some .killed, status := 0 }
  else m.complain "kill: No such process" 1

/-! ### Redirections -/

/-- Where something ends that is printed. -/
inductive Destination where
  /-- A stream of the shell. -/
  | stream (number : Nat)
  | file (l : Location)
  | nowhere
  deriving Repr

/-- Hands something printed to its destination. -/
def State.deliver (m : State) (text : Octets) : Destination → State
  | .stream number => m.print number text
  | .file l => { m with surroundings := m.surroundings.appended l text.toBytes }
  | .nowhere => m

/-- Where the streams of a command go. -/
structure Wiring where
  output : Destination := .stream 1
  errors : Destination := .stream 2
  /-- What the command reads, when it is not what the shell reads. -/
  input : Option Octets := none
  /-- Why a redirection is not possible. -/
  problem : Option String := none
  deriving Repr

namespace Wiring

def target (w : Wiring) (stream : Nat) : Destination :=
  if stream = 1 then w.output else if stream = 2 then w.errors else .nowhere

/-- Gives a stream another destination. -/
def connect (w : Wiring) (stream : Nat) (destination : Destination) : Wiring :=
  if stream = 1 then { w with output := destination }
  else if stream = 2 then { w with errors := destination }
  else w

/-- What is said of a file that cannot be opened for writing. -/
def creationProblem (name : Octets) (reason : OsError) : String :=
  let told :=
    if reason = .notFound ∨ reason = .notADirectory then "Directory nonexistent"
    else reason.reason
  "cannot create " ++ String.ofList name ++ ": " ++ told

/-- The wiring after a redirection to a file that is written, and the state in which the file
is open. -/
def toFile (w : Wiring) (m : State) (stream : Nat) (keep : Bool) (name : Octets) :
    Wiring × State :=
  match String.ofList name with
  | "/dev/null" => (w.connect stream .nowhere, m)
  | "/dev/stdout" => (w.connect stream w.output, m)
  | "/dev/stderr" => (w.connect stream w.errors, m)
  | _ =>
    match m.surroundings.target name with
    | .ok l =>
      (w.connect stream (.file l), { m with surroundings := m.surroundings.opened keep l })
    | .error reason => ({ w with problem := some (creationProblem name reason) }, m)

/-- The wiring after a redirection to a target, and the state then. -/
def redirect (w : Wiring) (m : State) (stream : Nat) (connection : Connection)
    (target : Octets) : Wiring × State :=
  match connection with
  | .stream =>
    if target = ['-'] then (w.connect stream .nowhere, m)
    else
      match Octets.nat? target with
      | some n => (w.connect stream (w.target n), m)
      | none => ({ w with problem := some "Bad fd number" }, m)
  | .output => w.toFile m stream false target
  | .appended => w.toFile m stream true target
  | .input =>
    let s := m.surroundings
    if target = "/dev/null".toList then ({ w with input := some [] }, m)
    else
      match s.files.read s.workingDirectory ⟨target.toBytes⟩ with
      | .ok content => ({ w with input := some (Octets.ofBytes content) }, m)
      | .error _ =>
        let problem := "cannot open " ++ String.ofList target ++ ": No such file"
        ({ w with problem := some problem }, m)

/-- Runs something with its streams connected. -/
def around (w : Wiring) (m : State) (run : State → State) : State :=
  match w.problem with
  | some text => m.complain text 2
  | none =>
    let done := run { m with input := w.input.getD m.input, printed := [] }
    let input := if w.input.isSome then m.input else done.input
    done.printed.foldr (fun (stream, text) m => m.deliver text (w.target stream))
      { done with printed := m.printed, input := input }

end Wiring

/-! ### Programs -/

inductive Program where
  | utility (u : Utility)
  | shell
  /-- A script in a file, with the words of the program that its first line names. -/
  | file (interpreter : List Octets)

def utilityDirectories : List Octets :=
  ["/bin/", "/usr/bin/"].map String.toList

def systemProgram? (name : Octets) : Option Program :=
  let name := String.ofList name
  if name = "sh" ∨ name = "dash" then some .shell else (Utility.ofName? name).map .utility

/-- The words after the mark with which a script names its interpreter. -/
def interpreterLine? (content : Octets) : Option (List Octets) :=
  match content with
  | '#' :: '!' :: rest =>
    let line := rest.takeWhile (· != '\n')
    let words := (({} : Fields).split line).all
    if words.isEmpty then none else some words
  | _ => none

/-- The program that a word names: one of the system, or an executable file. -/
def findProgram (s : Surroundings) (word : Octets) : Except OsError Program :=
  if word.contains '/' then
    let system? := utilityDirectories.findSome? fun dir =>
      if dir.isPrefixOf word then systemProgram? (word.drop dir.length) else none
    match system? with
    | some program => .ok program
    | none =>
      match s.files.stat s.workingDirectory ⟨word.toBytes⟩ with
      | .error reason => .error reason
      | .ok (.file content true) =>
        let content := Octets.ofBytes content
        match interpreterLine? content with
        | some words => .ok (.file words)
        | none => .error .badExecutable
      | .ok _ => .error .permissionDenied
  else
    match systemProgram? word with
    | some program => .ok program
    | none =>
      -- the directories that are searched are found under these names
      .error (if word = ['.'] ∨ word = ['.', '.'] then .permissionDenied else .notFound)

/-- The status with which the shell answers a program that cannot be started. -/
def refusalStatus (reason : OsError) : Nat :=
  if reason = .notFound then 127 else 126

/-! ### Execution -/

def running (m : State) : Bool :=
  m.halt.isNone

mutual

/-- Adds the words that come of a word. -/
def expand : (fuel : Nat) → (f : Fields) → State → List Piece → Fields × State
  | 0, f, m, _ => (f, m)
  | _ + 1, f, m, [] => (f, m)
  | fuel + 1, f, m, .text t :: rest => expand fuel (f.add t) m rest
  | fuel + 1, f, m, .parameter name quoted :: rest =>
    let f :=
      if quoted then
        if name = ['@'] then f.addAll m.arguments else f.add (m.parameter name)
      else f.split (m.parameter name)
    expand fuel f m rest
  | fuel + 1, f, m, .output body quoted :: rest =>
    let c := exec fuel body (m.child m.input)
    let text := ((c.stream 1).reverse.dropWhile (· == '\n')).reverse
    let m :=
      { m.absorb { c with printed := c.printed.filter (·.1 == 2) } with input := c.input }
    expand fuel (if quoted then f.add text else f.split text) m rest

def expandAll :
    (fuel : Nat) → (done : List Octets) → State → List (List Piece) → List Octets × State
  | 0, done, m, _ => (done, m)
  | _ + 1, done, m, [] => (done, m)
  | fuel + 1, done, m, w :: rest =>
    let (f, m) := expand fuel {} m w
    expandAll fuel (done ++ f.all) m rest

def assign : (fuel : Nat) → State → List (Octets × List Piece) → State
  | 0, m, _ => m
  | _ + 1, m, [] => m
  | fuel + 1, m, (name, value) :: rest =>
    let (f, m) := expand fuel {} m value
    assign fuel (m.set name (List.intercalate [' '] f.all)) rest

/-- The wiring that redirections make. -/
def wire :
    (fuel : Nat) → (w : Wiring) → State → List Redirection → Wiring × State
  | 0, w, m, _ => (w, m)
  | _ + 1, w, m, [] => (w, m)
  | fuel + 1, w, m, .mk stream connection target :: rest =>
    let (f, m) := expand fuel {} m target
    let target := List.intercalate [' '] f.all
    if w.problem.isSome then (w, m)
    else
      let (w, m) := w.redirect m stream connection target
      wire fuel w m rest

/-- The state in which a program ends that is started by a name. -/
def start (s : Surroundings) :
    (fuel : Nat) → (program : Program) → (word : Octets) → (arguments : List Octets) →
      (input : Octets) → State
  | 0, _, word, arguments, input =>
    { surroundings := s, name := word, arguments := arguments, input := input }
  | fuel + 1, program, word, arguments, input =>
    let run (text name : Octets) (arguments : List Octets) (input : Octets) : State :=
      let m : State :=
        { surroundings := s, name := name, arguments := arguments, input := input }
      match Script.parse? text with
      | some body => exec fuel body m
      | none => m.complain "Syntax error" 2
    let m : State :=
      { surroundings := s, name := word, arguments := arguments, input := input }
    match program with
    | .utility u => m.finish (u s arguments input)
    | .shell =>
      match arguments with
      | ['-', 'c'] :: text :: rest => run text (rest.head?.getD word) (rest.drop 1) input
      | [] => run input word [] []
      | file :: rest =>
        match s.files.read s.workingDirectory ⟨file.toBytes⟩ with
        | .ok content => run (Octets.ofBytes content) file rest input
        | .error _ => m.complain ("cannot open " ++ String.ofList file ++ ": No such file") 2
    | .file interpreter =>
      let missing : State := m.complain (String.ofList word ++ ": not found") 127
      let words :=
        if interpreter.head? = some "/usr/bin/env".toList then interpreter.drop 1
        else interpreter
      match words with
      | [] => missing
      | first :: words =>
        match findProgram s first with
        | .ok program => start s fuel program first (words ++ word :: arguments) input
        | .error _ => missing

/-- Runs a command with its words. -/
def runWords : (fuel : Nat) → (words : List Octets) → State → State
  | 0, _, m => m
  | _ + 1, [], m => { m with status := 0 }
  | fuel + 1, word :: arguments, m =>
    match String.ofList word with
    | ":" => { m with status := 0 }
    | "exit" =>
      match arguments with
      | [] => { m with halt := some .exited }
      | code :: _ =>
        match Octets.nat? code with
        | some n => { m with halt := some .exited, status := n % 256 }
        | none =>
          { m.complain ("exit: Illegal number: " ++ String.ofList code) 2 with
            halt := some .exited }
    | "read" => readLine m arguments
    | "kill" => kill m arguments
    | "shift" => { m with arguments := m.arguments.drop 1, status := 0 }
    | "set" => { m with status := 0 }
    | "export" => { m with status := 0 }
    | "exec" =>
      if arguments.isEmpty then { m with status := 0 }
      else { runWords fuel arguments m with halt := some .exited }
    | "echo" => m.finish (Utility.echo true m.surroundings arguments m.input)
    | "printf" => m.finish (Utility.printf false m.surroundings arguments m.input)
    | _ =>
      match findProgram m.surroundings word with
      | .ok program => m.receive (start m.surroundings fuel program word arguments m.input)
      | .error reason =>
        let told := if reason = .notFound then "not found" else reason.reason
        m.complain (String.ofList word ++ ": " ++ told) (refusalStatus reason)

def exec : (fuel : Nat) → Script → State → State
  | 0, _, m => m
  | fuel + 1, script, m =>
    if !running m then m
    else
      match script with
      | .nothing => m
      | .command assignments words redirections =>
        let (words, m) := expandAll fuel [] m words
        let (w, m) := wire fuel {} m redirections
        if words.isEmpty then w.around { m with status := 0 } fun m => assign fuel m assignments
        else
          let done := w.around (assign fuel m assignments) fun m => runWords fuel words m
          if assignments.isEmpty then done
          else
            -- the assignments hold for the command alone
            let kept := done.bindings.filter fun v => !assignments.any (·.1 == v.1)
            let old := m.bindings.filter fun v => assignments.any (·.1 == v.1)
            { done with bindings := kept ++ old }
      | .pipe left right =>
        let l := exec fuel left (m.child m.input)
        let r := exec fuel right { m.child (l.stream 1) with surroundings := l.surroundings }
        let errors := { l with printed := l.printed.filter (·.1 == 2), duration := 0 }
        let r := { r with duration := max l.duration r.duration }
        { (m.absorb errors).absorb r with input := l.input }
      | .sequence first second => exec fuel second (exec fuel first m)
      | .ifSucceeds first second =>
        let m := exec fuel first m
        if m.status = 0 then exec fuel second m else m
      | .ifFails first second =>
        let m := exec fuel first m
        if m.status = 0 then m else exec fuel second m
      | .negated body =>
        let m := exec fuel body m
        if running m then { m with status := if m.status = 0 then 1 else 0 } else m
      | .group body redirections =>
        let (w, m) := wire fuel {} m redirections
        w.around m fun m => exec fuel body m
      | .subshell body redirections =>
        let (w, m) := wire fuel {} m redirections
        w.around m fun m =>
          let c := exec fuel body (m.child m.input)
          { m.absorb c with input := c.input }
      | .choose condition yes no =>
        let m := exec fuel condition m
        if m.status = 0 then exec fuel yes m
        else
          match no with
          | .nothing => if running m then { m with status := 0 } else m
          | no => exec fuel no m
      | .loop succeeds condition body =>
        let before := m.status
        let m := exec fuel condition m
        if !running m then m
        else if (m.status == 0) == succeeds then
          exec fuel (.loop succeeds condition body) (exec fuel body m)
        else { m with status := before }
      | .forEach name words body =>
        let (values, m) := expandAll fuel [] m words
        values.foldl (fun m v => exec fuel body (m.set name v)) { m with status := 0 }

end

/-- How deep commands may be nested, and how often loops may go round. -/
def depthLimit : Nat := 10000

end Interpreter

end CodeTidy.Sandbox
