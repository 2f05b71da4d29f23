import CodeTidy.Host.FileTree
import CodeTidy.Sandbox.Editor
import CodeTidy.Sandbox.Formatting
import CodeTidy.Sandbox.Transliteration

/-!
# Utilities

The small programs that filters are made of.  Each is a function from its arguments and its
input to what it prints; `Utility.ofName?` finds one by its name.
-/

namespace CodeTidy.Sandbox

/-- What a program can see besides its arguments and its input. -/
structure Surroundings where
  files : FileTree
  workingDirectory : Location
  deriving Repr

namespace Surroundings

/-- The location of the file that is written under a name, which may still have to be made.
Nothing is made through a link that leads nowhere. -/
def target (s : Surroundings) (name : Octets) : Except OsError Location :=
  let path : Path := ⟨name.toBytes⟩
  match s.files.stat s.workingDirectory path with
  | .ok (.file ..) => s.files.resolve s.workingDirectory path
  | .ok _ => .error .isADirectory
  | .error .notFound =>
    match path.fileName?, s.files.resolve s.workingDirectory path.directory with
    | some last, .ok dir =>
      if (s.files.get? (dir ++ [last])).isNone then .ok (dir ++ [last]) else .error .notFound
    | none, _ => .error .notFound
    | _, .error reason => .error reason
  | .error reason => .error reason

/-- Opens the file at a location for writing: it is made if it is not there, and loses its
content unless something is to be added. -/
def opened (s : Surroundings) (keep : Bool) (l : Location) : Surroundings :=
  match s.files.content? l with
  | none => { s with files := s.files.put l (.file [] false) }
  | some _ => if keep then s else { s with files := s.files.write l [] }

def appended (s : Surroundings) (l : Location) (added : Bytes) : Surroundings :=
  { s with files := s.files.write l ((s.files.content? l).getD [] ++ added) }

end Surroundings

/-- How a program ended. -/
structure Finish where
  stdout : Octets := []
  stderr : Octets := []
  status : Nat := 0
  /-- The input that it did not read. -/
  rest : Octets := []
  /-- How many milliseconds it ran. -/
  duration : Nat := 0
  deriving DecidableEq, Repr

abbrev Utility := Surroundings → (arguments : List Octets) → (input : Octets) → Finish

namespace Utility

/-! ### Input -/

/-- A complaint of a program about something. -/
def complaint (program : String) (about reason : Octets) : Octets :=
  program.toList ++ ": ".toList ++ about ++ ": ".toList ++ reason ++ ['\n']

/-- What a program reads: its input when no file is named, or else the files one after another.
Also returns the complaints about files that cannot be read. -/
def contents (s : Surroundings) (program : String) (input : Octets) (files : List Octets) :
    Octets × Octets :=
  let one (f : Octets) : Except Octets Octets :=
    if f = ['-'] then .ok input
    else
      match s.files.read s.workingDirectory ⟨f.toBytes⟩ with
      | .ok b => .ok (Octets.ofBytes b)
      | .error e => .error (complaint program f e.reason.toList)
  if files.isEmpty then (input, [])
  else
    let results := files.map one
    (results.flatMap fun | .ok s => s | .error _ => [],
      results.flatMap fun | .ok _ => [] | .error e => e)

/-- The end of a program that cannot do what it is asked to. -/
def misuse (program : String) (reason : String) (status : Nat) (input : Octets) : Finish :=
  { stderr := (program ++ ": " ++ reason ++ "\nTry '" ++ program
      ++ " --help' for more information.\n").toList
    status := status, rest := input }

/-- Splits arguments into option letters and the others; options end at two dashes. -/
def optionLetters : List Octets → Octets × List Octets
  | [] => ([], [])
  | a :: rest =>
    if a = ['-', '-'] then ([], rest)
    else
      let (letters, others) := optionLetters rest
      match a with
      | '-' :: c :: cs => (c :: cs ++ letters, others)
      | a => (letters, a :: others)

/-- The first letter that is no known option. -/
def unknownLetter? (known : String) (letters : Octets) : Option Char :=
  letters.find? (!known.toList.contains ·)

/-! ### Programs without input -/

def exit (status : Nat) : Utility := fun _ _ input =>
  { status := status, rest := input }

/-- The milliseconds of a time interval: a decimal number and a unit. -/
def interval? (s : Octets) : Option Nat :=
  let whole := s.takeWhile Char.isDigit
  let rest := s.drop whole.length
  let (places, rest) :=
    match rest with
    | '.' :: rest =>
      let digits := rest.takeWhile Char.isDigit
      (digits, rest.drop digits.length)
    | rest => ([], rest)
  let unit? : Option Nat :=
    match rest with
    | [] => some 1
    | ['s'] => some 1
    | ['m'] => some 60
    | ['h'] => some 3600
    | ['d'] => some 86400
    | _ => none
  if whole.isEmpty ∧ places.isEmpty then none
  else
    unit?.map fun unit =>
      let number (digits : Octets) : Nat := (Octets.nat? digits).getD 0
      (number whole * 1000 + number ((places ++ "000".toList).take 3)) * unit

def sleep : Utility := fun _ arguments input =>
  match arguments.find? fun a => (interval? a).isNone with
  | some a => misuse "sleep" ("invalid time interval '" ++ String.ofList a ++ "'") 1 input
  | none =>
    if arguments.isEmpty then misuse "sleep" "missing operand" 1 input
    else { rest := input, duration := (arguments.filterMap interval?).foldl (· + ·) 0 }

def echo (interprets : Bool) : Utility := fun _ arguments input =>
  let (newline, words) :=
    match arguments with
    | ['-', 'n'] :: rest => (false, rest)
    | words => (true, words)
  let (escapes, words) :=
    match interprets, words with
    | false, ['-', 'e'] :: rest => (true, rest)
    | false, ['-', 'E'] :: rest => (false, rest)
    | interprets, words => (interprets, words)
  let text := List.intercalate [' '] words
  let (text, goesOn) := if escapes then Formatting.unescaped text else (text, true)
  { stdout := if newline && goesOn then text ++ ['\n'] else text, rest := input }

def printf (extended : Bool) : Utility := fun _ arguments input =>
  let arguments := if arguments.head? = some ['-', '-'] then arguments.drop 1 else arguments
  match arguments with
  | [] => { stderr := "printf: missing operand\n".toList, status := 2, rest := input }
  | f :: arguments =>
    match Formatting.format? extended f arguments with
    | some text => { stdout := text, rest := input }
    | none =>
      { stderr := complaint "printf" f "invalid directive".toList, status := 2, rest := input }

/-! ### Conditions -/

def integer? (s : Octets) : Option Int :=
  match s with
  | '-' :: digits => (Octets.nat? digits).map fun n => -(n : Int)
  | '+' :: digits => (Octets.nat? digits).map Int.ofNat
  | digits => (Octets.nat? digits).map Int.ofNat

def holdsOf? (s : Surroundings) (operator operand : Octets) : Option Bool :=
  let path : Path := ⟨operand.toBytes⟩
  match String.ofList operator with
  | "-n" => some (!operand.isEmpty)
  | "-z" => some operand.isEmpty
  | "-e" => some (s.files.exists? s.workingDirectory path)
  | "-f" => some (s.files.isFile s.workingDirectory path)
  | "-d" => some (s.files.isDir s.workingDirectory path)
  | "-s" =>
    some (match s.files.read s.workingDirectory path with
      | .ok content => !content.isEmpty
      | .error _ => false)
  | _ => none

def holdsBetween? (a operator b : Octets) : Option Bool :=
  let compare (test : Int → Int → Bool) : Option Bool :=
    match integer? a, integer? b with
    | some m, some n => some (test m n)
    | _, _ => none
  match String.ofList operator with
  | "=" => some (a == b)
  | "==" => some (a == b)
  | "!=" => some (a != b)
  | "-eq" => compare (· == ·)
  | "-ne" => compare (· != ·)
  | "-lt" => compare (· < ·)
  | "-le" => compare (· ≤ ·)
  | "-gt" => compare (· > ·)
  | "-ge" => compare (· ≥ ·)
  | _ => none

/-- Whether a condition holds; nothing when it is malformed. -/
def condition? (s : Surroundings) : List Octets → Option Bool
  | [] => some false
  | [a] => some (!a.isEmpty)
  | [a, b] => if a = ['!'] then some b.isEmpty else holdsOf? s a b
  | [a, b, c] =>
    (holdsBetween? a b c).or (if a = ['!'] then (condition? s [b, c]).map (!·) else none)
  | a :: rest =>
    if a = ['!'] then (condition? s rest).map (!·)
    else
      match rest with
      | operator :: b :: junction :: rest =>
        match holdsBetween? a operator b, condition? s rest with
        | some x, some y =>
          if junction = "-a".toList then some (x && y)
          else if junction = "-o".toList then some (x || y)
          else none
        | _, _ => none
      | _ => none

/-- Tests a condition; in brackets it needs the closing one. -/
def test (inBrackets : Bool) : Utility := fun s arguments input =>
  let arguments? : Option (List Octets) :=
    if inBrackets then
      if arguments.getLast? = some [']'] then some arguments.dropLast else none
    else some arguments
  match arguments? >>= condition? s with
  | some true => { rest := input }
  | some false => { status := 1, rest := input }
  | none => { stderr := "test: bad condition\n".toList, status := 2, rest := input }

/-! ### Filters -/

def cat : Utility := fun s arguments input =>
  let (letters, files) := optionLetters arguments
  match unknownLetter? "u" letters with
  | some c => misuse "cat" ("invalid option -- '" ++ String.ofList [c] ++ "'") 1 input
  | none =>
    let (text, complaints) := contents s "cat" input files
    { stdout := text, stderr := complaints, status := if complaints.isEmpty then 0 else 1 }

def tr : Utility := fun _ arguments input =>
  let (letters, sets) := optionLetters arguments
  match unknownLetter? "cCdst" letters with
  | some c => misuse "tr" ("invalid option -- '" ++ String.ofList [c] ++ "'") 1 input
  | none =>
    let options : Transliteration.Options :=
      { complement := letters.contains 'c' || letters.contains 'C'
        delete := letters.contains 'd'
        squeeze := letters.contains 's'
        truncate := letters.contains 't' }
    match Transliteration.plan? options sets with
    | some plan => { stdout := plan.apply input }
    | none =>
      match sets with
      | [] => misuse "tr" "missing operand" 1 input
      | [set] =>
        misuse "tr" ("missing operand after '" ++ String.ofList set
          ++ "'\nTwo strings must be given when translating.") 1 input
      | _ => misuse "tr" "invalid arguments" 1 input

structure EditorOptions where
  quiet : Bool := false
  kind : PatternSyntax := .basic
  scripts : List Octets := []
  others : List Octets := []
  deriving DecidableEq, Repr

def editorOptions? (o : EditorOptions) : List Octets → Option EditorOptions
  | [] => some o
  | a :: rest =>
    match String.ofList a with
    | "-n" => editorOptions? { o with quiet := true } rest
    | "-E" => editorOptions? { o with kind := .extended } rest
    | "-r" => editorOptions? { o with kind := .extended } rest
    | "-nE" => editorOptions? { o with quiet := true, kind := .extended } rest
    | "-u" => editorOptions? o rest
    | "--" => some { o with others := o.others ++ rest }
    | "-e" =>
      match rest with
      | [] => none
      | script :: rest => editorOptions? { o with scripts := o.scripts ++ [script] } rest
    | "-ne" =>
      match rest with
      | [] => none
      | script :: rest =>
        editorOptions? { o with quiet := true, scripts := o.scripts ++ [script] } rest
    | _ =>
      if a.head? = some '-' ∧ 1 < a.length then none
      else editorOptions? { o with others := o.others ++ [a] } rest

/-- Edits its input line by line. -/
def sed : Utility := fun s arguments input =>
  match editorOptions? {} arguments with
  | none => misuse "sed" "invalid option" 1 input
  | some o =>
    let (script, files) :=
      if o.scripts.isEmpty then (o.others.head?.getD [], o.others.drop 1)
      else (List.intercalate ['\n'] o.scripts, o.others)
    match Editor.program? o.kind script with
    | none =>
      { stderr := "sed: -e expression #1: invalid program\n".toList, status := 1, rest := input }
    | some program =>
      let (text, complaints) := contents s "sed" input files
      let (printed, status) := Editor.run program o.quiet (Octets.lines text)
      { stdout := printed, stderr := complaints
        status := if complaints.isEmpty then status else 2 }

/-- The number at the start of a line, in thousandths. -/
def leadingNumber (s : Octets) : Int :=
  let s := s.dropWhile fun c => c == ' ' || c == '\t'
  let (negative, s) := if s.head? = some '-' then (true, s.drop 1) else (false, s)
  let whole := s.takeWhile Char.isDigit
  let places :=
    match s.drop whole.length with
    | '.' :: rest => rest.takeWhile Char.isDigit
    | _ => []
  let number (digits : Octets) : Nat := (Octets.nat? digits).getD 0
  let n : Int := number whole * 1000 + number ((places ++ "000".toList).take 3)
  if negative then -n else n

/-- Drops lines that are equal to the line before. -/
def distinct (same : Octets → Octets → Bool) : List Octets → List Octets
  | [] => []
  | [a] => [a]
  | a :: b :: rest =>
    if same a b then distinct same (a :: rest) else a :: distinct same (b :: rest)
termination_by l => l.length

def sort : Utility := fun s arguments input =>
  let (letters, files) := optionLetters arguments
  match unknownLetter? "rnus" letters with
  | some c => misuse "sort" ("invalid option -- '" ++ String.ofList [c] ++ "'") 2 input
  | none =>
    let (text, complaints) := contents s "sort" input files
    let numeric := letters.contains 'n'
    let le (a b : Octets) : Bool :=
      if numeric then
        leadingNumber a < leadingNumber b
          || (leadingNumber a == leadingNumber b
              && (letters.contains 'u' || letters.contains 's' || Octets.le a b))
      else Octets.le a b
    let same (a b : Octets) : Bool :=
      if numeric then leadingNumber a == leadingNumber b else a == b
    let lines := (Octets.lines text).map (·.text)
    let sorted :=
      lines.mergeSort (if letters.contains 'r' then fun a b => le b a else le)
    let sorted := if letters.contains 'u' then distinct same sorted else sorted
    { stdout := Octets.unlines sorted, stderr := complaints
      status := if complaints.isEmpty then 0 else 2 }

/-- How many words a text has; `inWord` tells whether one goes on from before it.  Only what can
be printed begins a word. -/
def wordCount (inWord : Bool) (count : Nat) : Octets → Nat
  | [] => count
  | c :: cs =>
    if Octets.isSpace c then wordCount false count cs
    else if 32 < c.toNat ∧ c.toNat < 127 then
      wordCount true (if inWord then count else count + 1) cs
    else wordCount inWord count cs

def wc : Utility := fun s arguments input =>
  let (letters, files) := optionLetters arguments
  match unknownLetter? "clmw" letters with
  | some c => misuse "wc" ("invalid option -- '" ++ String.ofList [c] ++ "'") 1 input
  | none =>
    let (text, complaints) := contents s "wc" input files
    let wants (c : Char) : Bool := letters.isEmpty && c != 'm' || letters.contains c
    let counts :=
      (if wants 'l' then [(text.filter (· == '\n')).length] else [])
        ++ (if wants 'w' then [wordCount false 0 text] else [])
        ++ (if wants 'm' then [text.length] else [])
        ++ (if wants 'c' then [text.length] else [])
    let width := if counts.length = 1 ∨ !files.isEmpty then 1 else 7
    let columns := counts.map fun n => Formatting.pad [] width (Octets.ofNat n)
    let name := match files with | [f] => [f] | _ => []
    { stdout := List.intercalate [' '] (columns ++ name) ++ ['\n'], stderr := complaints
      status := if complaints.isEmpty then 0 else 1 }

/-- What `head` and `tail` are asked for: a number of lines or bytes, counted from the start when
it has a plus. -/
structure Extent where
  count : Nat := 10
  bytes : Bool := false
  fromStart : Bool := false
  files : List Octets := []
  deriving DecidableEq, Repr

/-- Reads the arguments of `head` and `tail`. -/
def extent? (e : Extent) (fuel : Nat) (arguments : List Octets) : Option Extent :=
  let counted (bytes : Bool) (s : Octets) : Option Extent :=
    match s with
    | '+' :: digits =>
      (Octets.nat? digits).map fun n => { e with count := n, bytes := bytes, fromStart := true }
    | '-' :: digits => (Octets.nat? digits).map fun n => { e with count := n, bytes := bytes }
    | digits => (Octets.nat? digits).map fun n => { e with count := n, bytes := bytes }
  match fuel, arguments with
  | 0, _ => none
  | _, [] => some e
  | fuel + 1, ['-', 'n'] :: n :: rest => counted false n >>= fun e => extent? e fuel rest
  | fuel + 1, ['-', 'c'] :: n :: rest => counted true n >>= fun e => extent? e fuel rest
  | fuel + 1, ('-' :: 'n' :: n) :: rest => counted false n >>= fun e => extent? e fuel rest
  | fuel + 1, ('-' :: 'c' :: n) :: rest => counted true n >>= fun e => extent? e fuel rest
  | fuel + 1, ('-' :: c :: n) :: rest =>
    if c.isDigit then counted false (c :: n) >>= fun e => extent? e fuel rest else none
  | fuel + 1, f :: rest => extent? { e with files := e.files ++ [f] } fuel rest

/-- Prints the start or the end of its input. -/
def excerpt (program : String) (start : Bool) : Utility := fun s arguments input =>
  match extent? {} (arguments.length + 1) arguments with
  | none => misuse program "invalid arguments" 1 input
  | some e =>
    let (text, complaints) := contents s program input e.files
    let cut {α : Type} (l : List α) : List α :=
      if start then l.take e.count
      else if e.fromStart then l.drop (e.count - 1)
      else l.drop (l.length - e.count)
    let kept :=
      if e.bytes then cut text else ((cut (Octets.lines text)).map Octets.Line.octets).flatten
    { stdout := kept, stderr := complaints, status := if complaints.isEmpty then 0 else 1 }

/-! ### All utilities -/

def ofName? (name : String) : Option Utility :=
  match name with
  | "true" => some (exit 0)
  | "false" => some (exit 1)
  | "sleep" => some sleep
  | "echo" => some (echo false)
  | "printf" => some (printf true)
  | "test" => some (test false)
  | "[" => some (test true)
  | "cat" => some cat
  | "tr" => some tr
  | "sed" => some sed
  | "sort" => some sort
  | "wc" => some wc
  | "head" => some (excerpt "head" true)
  | "tail" => some (excerpt "tail" false)
  | _ => none

end Utility

end CodeTidy.Sandbox
