import CodeTidy.Sandbox.Pattern

/-!
# The stream editor

A program of instructions runs once for every line of its input.  `Editor.program?` reads a
program, and `Editor.run` runs one on lines.  An unterminated last line stays unterminated,
unless something is printed after it.
-/

namespace CodeTidy.Sandbox

namespace Editor

/-! ### Programs -/

/-- Which lines an instruction names. -/
inductive Address where
  | number (n : Nat)
  | last
  /-- The lines in which a pattern occurs; without one the pattern that was used last. -/
  | matching (p : Option Pattern)
  deriving DecidableEq, Repr

/-- The lines that an instruction applies to: all, some, or the ranges between two. -/
structure Selector where
  first : Option Address := none
  second : Option Address := none
  negated : Bool := false
  deriving DecidableEq, Repr

/-- How letters are folded while a replacement is written. -/
inductive Folding where
  | keep
  | upper
  | lower
  deriving DecidableEq, Repr

/-- A part of a replacement. -/
inductive Part where
  | char (c : Char)
  /-- What a group matched; group zero is the whole match. -/
  | group (number : Nat)
  | fold (f : Folding)
  | foldNext (f : Folding)
  deriving DecidableEq, Repr

/-- What is done to the selected lines. -/
inductive Action where
  | substitute (p : Option Pattern) (replacement : List Part) (which : Nat) (all prints : Bool)
  | transliterate (table : List (Char × Char))
  | print
  | printFirst
  | delete
  | deleteFirst
  | next
  | joinNext
  | printNumber
  | quit (status : Nat) (prints : Bool)
  | hold
  | holdMore
  | recall
  | recallMore
  | exchange
  | appendText (text : Octets)
  | insertText (text : Octets)
  | changeText (text : Octets)
  | label (name : Octets)
  | jump (name : Octets)
  | jumpIfSubstituted (name : Octets)
  | opening
  | closing
  deriving DecidableEq, Repr

structure Instruction where
  selector : Selector
  action : Action
  deriving DecidableEq, Repr

/-! ### Reading programs -/

/-- The text up to the next delimiter, and what follows it.  A backslash makes the delimiter an
ordinary character and otherwise stays. -/
def delimited? (delimiter : Char) (found : Octets) : Octets → Option (Octets × Octets)
  | [] => none
  | '\\' :: c :: rest =>
    if c = delimiter then delimited? delimiter (c :: found) rest
    else delimited? delimiter (c :: '\\' :: found) rest
  | c :: rest =>
    if c = delimiter then some (found.reverse, rest) else delimited? delimiter (c :: found) rest

/-- The pattern of a text; the empty text stands for the pattern that was used last. -/
def pattern? (kind : PatternSyntax) (text : Octets) : Option (Option Pattern) :=
  if text.isEmpty then some none else (Pattern.parse? kind text).map some

/-- Reads an address; nothing is read where none stands. -/
def address? (kind : PatternSyntax) (s : Octets) : Option (Option Address × Octets) :=
  match s with
  | '$' :: rest => some (some .last, rest)
  | '/' :: rest =>
    match delimited? '/' [] rest with
    | none => none
    | some (text, rest) => (pattern? kind text).map fun p => (some (.matching p), rest)
  | '\\' :: c :: rest =>
    match delimited? c [] rest with
    | none => none
    | some (text, rest) => (pattern? kind text).map fun p => (some (.matching p), rest)
  | s =>
    let digits := s.takeWhile Char.isDigit
    match Octets.nat? digits with
    | none => some (none, s)
    | some n => some (some (.number n), s.drop digits.length)

def parts : Octets → List Part
  | [] => []
  | '\\' :: c :: rest =>
    let part : Part :=
      match c with
      | 'U' => .fold .upper
      | 'L' => .fold .lower
      | 'E' => .fold .keep
      | 'u' => .foldNext .upper
      | 'l' => .foldNext .lower
      | c =>
        if c.isDigit then .group (c.toNat - 48)
        else .char (if c = 'b' then c else (Octets.control? c).getD c)
    part :: parts rest
  | '&' :: rest => .group 0 :: parts rest
  | c :: rest => .char c :: parts rest

/-- What follows a substitution: which match is meant, whether all after it, whether to print. -/
structure Flags where
  which : Nat := 1
  all : Bool := false
  prints : Bool := false
  deriving DecidableEq, Repr

/-- Reads the flags of a substitution; `fuel` bounds their number. -/
def flags (fuel : Nat) (f : Flags) (s : Octets) : Flags × Octets :=
  match fuel, s with
  | fuel + 1, 'g' :: rest => flags fuel { f with all := true } rest
  | fuel + 1, 'p' :: rest => flags fuel { f with prints := true } rest
  | fuel + 1, s =>
    let digits := s.takeWhile Char.isDigit
    match Octets.nat? digits with
    | none => (f, s)
    | some n => flags fuel { f with which := n } (s.drop digits.length)
  | 0, s => (f, s)

/-- Replaces escapes in the characters of a transliteration. -/
def unescape : Octets → Octets
  | '\\' :: c :: rest => (Octets.control? c).getD c :: unescape rest
  | c :: rest => c :: unescape rest
  | [] => []

/-- A text that is to be printed: the rest of the line, or the next line after a backslash. -/
def textArgument (s : Octets) : Octets × Octets :=
  let s := s.dropWhile fun c => c == ' ' || c == '\t'
  let s :=
    match s with
    | '\\' :: rest =>
      match rest.dropWhile fun c => c == ' ' || c == '\t' with
      | '\n' :: rest => rest
      | rest => rest
    | s => s
  let line := s.takeWhile (· != '\n')
  (line.filter (· != '\\'), s.drop line.length)

def labelArgument (s : Octets) : Octets × Octets :=
  let s := s.dropWhile (· == ' ')
  let name := s.takeWhile fun c => c != '\n' && c != ';' && c != ' ' && c != '\x7d'
  (name, s.drop name.length)

def action? (kind : PatternSyntax) : Octets → Option (Action × Octets)
  | 's' :: delimiter :: rest =>
    match delimited? delimiter [] rest with
    | none => none
    | some (text, rest) =>
      match pattern? kind text, delimited? delimiter [] rest with
      | some p, some (replacement, rest) =>
        let (f, rest) := flags (rest.length + 1) {} rest
        some (.substitute p (parts replacement) f.which f.all f.prints, rest)
      | _, _ => none
  | 'y' :: delimiter :: rest =>
    match delimited? delimiter [] rest with
    | none => none
    | some (old, rest) =>
      match delimited? delimiter [] rest with
      | none => none
      | some (new, rest) =>
        let old := unescape old
        let new := unescape new
        if old.length = new.length then some (.transliterate (old.zip new), rest) else none
  | 'p' :: rest => some (.print, rest)
  | 'P' :: rest => some (.printFirst, rest)
  | 'd' :: rest => some (.delete, rest)
  | 'D' :: rest => some (.deleteFirst, rest)
  | 'n' :: rest => some (.next, rest)
  | 'N' :: rest => some (.joinNext, rest)
  | '=' :: rest => some (.printNumber, rest)
  | 'h' :: rest => some (.hold, rest)
  | 'H' :: rest => some (.holdMore, rest)
  | 'g' :: rest => some (.recall, rest)
  | 'G' :: rest => some (.recallMore, rest)
  | 'x' :: rest => some (.exchange, rest)
  | '\x7b' :: rest => some (.opening, rest)
  | '\x7d' :: rest => some (.closing, rest)
  | ':' :: rest =>
    let (name, rest) := labelArgument rest
    some (.label name, rest)
  | 'b' :: rest =>
    let (name, rest) := labelArgument rest
    some (.jump name, rest)
  | 't' :: rest =>
    let (name, rest) := labelArgument rest
    some (.jumpIfSubstituted name, rest)
  | 'a' :: rest =>
    let (text, rest) := textArgument rest
    some (.appendText text, rest)
  | 'i' :: rest =>
    let (text, rest) := textArgument rest
    some (.insertText text, rest)
  | 'c' :: rest =>
    let (text, rest) := textArgument rest
    some (.changeText text, rest)
  | c :: rest =>
    if c = 'q' ∨ c = 'Q' then
      let rest := rest.dropWhile (· == ' ')
      let digits := rest.takeWhile Char.isDigit
      some (.quit ((Octets.nat? digits).getD 0) (c == 'q'), rest.drop digits.length)
    else none
  | [] => none

def instruction? (kind : PatternSyntax) (s : Octets) : Option (Instruction × Octets) :=
  match address? kind s with
  | none => none
  | some (first, rest) =>
    let second? : Option (Option Address × Octets) :=
      match first, rest with
      | some _, ',' :: rest =>
        match address? kind (rest.dropWhile (· == ' ')) with
        | some (some a, rest) => some (some a, rest)
        | _ => none
      | _, rest => some (none, rest)
    match second? with
    | none => none
    | some (second, rest) =>
      let rest := rest.dropWhile (· == ' ')
      let negated := rest.head? == some '!'
      let rest := rest.dropWhile fun c => c == '!' || c == ' '
      (action? kind rest).map fun (action, rest) => (⟨⟨first, second, negated⟩, action⟩, rest)

/-- Reads the instructions of a program; `fuel` bounds their number. -/
def instructions? (kind : PatternSyntax) (fuel : Nat) (found : List Instruction) (s : Octets) :
    Option (List Instruction) :=
  match fuel, s.dropWhile (fun c => Octets.isSpace c || c == ';') with
  | _, [] => some found
  | 0, _ => none
  | fuel + 1, '#' :: rest => instructions? kind fuel found (rest.dropWhile (· != '\n'))
  | fuel + 1, s =>
    match instruction? kind s with
    | none => none
    | some (i, rest) =>
      match rest.dropWhile fun c => c == ' ' || c == '\t' || c == '\r' with
      | [] => some (found ++ [i])
      | c :: rest =>
        if c = ';' ∨ c = '\n' then instructions? kind fuel (found ++ [i]) rest
        else if c = '#' ∨ c = '\x7d' ∨ i.action = .opening then
          instructions? kind fuel (found ++ [i]) (c :: rest)
        else none

/-- The program that a text spells. -/
def program? (kind : PatternSyntax) (s : Octets) : Option (List Instruction) :=
  instructions? kind (s.length + 1) [] s

/-! ### Substitution -/

def Folding.apply (f : Folding) (c : Char) : Char :=
  match f with
  | keep => c
  | upper => c.toUpper
  | lower => c.toLower

/-- The text of a replacement for a match. -/
def expand (whole : Octets) (groups : List (Nat × Octets)) (f : Folding) (once : Option Folding) :
    List Part → Octets
  | [] => []
  | .fold f :: rest => expand whole groups f none rest
  | .foldNext g :: rest => expand whole groups f (some g) rest
  | .char c :: rest => (once.getD f).apply c :: expand whole groups f none rest
  | .group number :: rest =>
    let text := if number = 0 then whole else (groups.lookup number).getD []
    match text with
    | [] => expand whole groups f once rest
    | c :: cs => (once.getD f).apply c :: cs.map f.apply ++ expand whole groups f none rest

/-- Replaces matches of a pattern from a place on.  `count` matches have been seen, the last of
which ended at `lastEnd`; `done` is the text so far, reversed.  The result is nothing when no
match is replaced. -/
def replaceFrom (p : Pattern) (replacement : List Part) (which : Nat) (all : Bool) :
    (fuel offset count : Nat) → (lastEnd : Option Nat) → (replaced : Bool) → (done rest : Octets) →
      Option Octets
  | 0, _, _, _, replaced, done, rest => if replaced then some (done.reverse ++ rest) else none
  | fuel + 1, offset, count, lastEnd, replaced, done, rest =>
    match p.find? offset rest with
    | none => if replaced then some (done.reverse ++ rest) else none
    | some (s, t) =>
      let done := (rest.take (s.offset - offset)).reverse ++ done
      let matched := s.upTo t
      if matched.isEmpty ∧ lastEnd = some s.offset then
        match s.rest with
        | [] => if replaced then some done.reverse else none
        | c :: cs =>
          replaceFrom p replacement which all fuel (s.offset + 1) count lastEnd replaced
            (c :: done) cs
      else
        let now := which ≤ count + 1
        let text := if now then expand matched t.groups .keep none replacement else matched
        let done := text.reverse ++ done
        if now ∧ !all then some (done.reverse ++ t.rest)
        else
          replaceFrom p replacement which all fuel t.offset (count + 1) (some t.offset)
            (replaced || now) done t.rest

def replaceIn? (p : Pattern) (replacement : List Part) (which : Nat) (all : Bool) (s : Octets) :
    Option Octets :=
  replaceFrom p replacement which all (2 * s.length + 2) 0 0 none false [] s

/-! ### Execution -/

structure State where
  /-- The lines that have not been read. -/
  input : List Octets.Line
  /-- The number of the current line. -/
  number : Nat := 0
  space : Octets := []
  /-- Whether the current line ends with a newline. -/
  terminated : Bool := true
  held : Octets := []
  /-- Whether what is held was taken from a line that ends with a newline. -/
  heldTerminated : Bool := true
  /-- What has been printed, the last first. -/
  printed : List Octets := []
  /-- Whether what was printed last lacks its newline. -/
  owesNewline : Bool := false
  /-- What is printed at the end of the cycle. -/
  appended : List Octets := []
  /-- The instructions whose ranges are open. -/
  openRanges : List Nat := []
  substituted : Bool := false
  lastPattern : Option Pattern := none
  status : Nat := 0
  deriving Repr

namespace State

def print (m : State) (text : Octets) (terminated : Bool) : State :=
  let text := if m.owesNewline then '\n' :: text else text
  let text := if terminated then text ++ ['\n'] else text
  { m with printed := text :: m.printed, owesNewline := !terminated }

def printSpace (m : State) : State :=
  m.print m.space m.terminated

/-- Prints what waits for the end of the cycle. -/
def flush (m : State) : State :=
  m.appended.foldl (fun m text => m.print text true) { m with appended := [] }

/-- Prints the newline that is owed. -/
def settle (m : State) : State :=
  if m.owesNewline then { m with printed := ['\n'] :: m.printed, owesNewline := false } else m

def finish (m : State) (quiet : Bool) : State :=
  (if quiet then m else m.printSpace).flush

/-- Whether an address names the current line, and the state after that question. -/
def names (m : State) : Address → Bool × State
  | .number n => (m.number == n, m)
  | .last => (m.input.isEmpty, m)
  | .matching (some p) => (p.occursIn m.space, { m with lastPattern := some p })
  | .matching none => ((m.lastPattern.map (·.occursIn m.space)).getD false, m)

/-- Whether a selector selects the current line for the instruction at an index. -/
def selects (m : State) (index : Nat) (s : Selector) : Bool × State :=
  let answer (b : Bool) (m : State) : Bool × State := (b != s.negated, m)
  match s.first, s.second with
  | none, _ => answer true m
  | some a, none =>
    let (b, m) := m.names a
    answer b m
  | some a, some z =>
    let closed (m : State) : State := { m with openRanges := m.openRanges.filter (· != index) }
    if m.openRanges.contains index then
      match z with
      | .number n => answer (m.number ≤ n) (if n ≤ m.number then closed m else m)
      | z =>
        let (ends, m) := m.names z
        answer true (if ends then closed m else m)
    else
      let (begins, m) := m.names a
      if begins then
        let opens : Bool :=
          match z with
          | .number n => m.number < n
          | _ => true
        answer true (if opens then { m with openRanges := index :: m.openRanges } else m)
      else answer false m

end State

/-- The index after the brace that closes the group which begins before `index`. -/
def afterGroup (program : List Instruction) : (depth index : Nat) → (fuel : Nat) → Nat
  | _, index, 0 => index
  | depth, index, fuel + 1 =>
    match program[index]? with
    | none => index
    | some i =>
      match i.action with
      | .opening => afterGroup program (depth + 1) (index + 1) fuel
      | .closing =>
        match depth with
        | 0 => index + 1
        | depth + 1 => afterGroup program depth (index + 1) fuel
      | _ => afterGroup program depth (index + 1) fuel

/-- The index of a label; the end of the program when the name is empty. -/
def indexOf (program : List Instruction) (name : Octets) : Nat :=
  if name.isEmpty then program.length
  else (program.findIdx? (·.action == .label name)).getD program.length

/-- What comes after an instruction. -/
inductive Flow where
  | at (index : Nat)
  /-- The next line is read; the pattern space is printed before unless this says not to. -/
  | cycle (prints : Bool)
  /-- The program runs again on what is in the pattern space. -/
  | again
  /-- The run ends because no line is left. -/
  | stop
  /-- The run ends because the program says so. -/
  | quit (prints : Bool)
  deriving DecidableEq, Repr

/-- Executes the action of the instruction at an index. -/
def act (program : List Instruction) (quiet : Bool) (index : Nat) (m : State) :
    Action → State × Flow
  | .substitute p replacement which all prints =>
    match p.or m.lastPattern with
    | none => (m, .at (index + 1))
    | some p =>
      let m := { m with lastPattern := some p }
      match replaceIn? p replacement which all m.space with
      | none => (m, .at (index + 1))
      | some space =>
        let m := { m with space := space, substituted := true }
        (if prints then m.printSpace else m, .at (index + 1))
  | .transliterate table =>
    ({ m with space := m.space.map fun c => (table.lookup c).getD c }, .at (index + 1))
  | .print => (m.printSpace, .at (index + 1))
  | .printFirst =>
    let first := m.space.takeWhile (· != '\n')
    (m.print first (first.length < m.space.length || m.terminated), .at (index + 1))
  | .delete => (m, .cycle false)
  | .deleteFirst =>
    match m.space.dropWhile (· != '\n') with
    | [] => (m, .cycle false)
    | _ :: rest => ({ m with space := rest }, .again)
  | .next =>
    match m.input with
    | [] => (m, .stop)
    | l :: input =>
      let m := if quiet then m else m.printSpace
      let m := m.flush
      ({ m with input := input, number := m.number + 1, space := l.text,
                terminated := l.terminated, substituted := false }, .at (index + 1))
  | .joinNext =>
    match m.input with
    | [] => (m, .stop)
    | l :: input =>
      let m := m.flush
      ({ m with input := input, number := m.number + 1, space := m.space ++ '\n' :: l.text,
                terminated := l.terminated, substituted := false }, .at (index + 1))
  | .printNumber => (m.print (Octets.ofNat m.number) true, .at (index + 1))
  | .quit status prints => ({ m with status := status }, .quit prints)
  | .hold => ({ m with held := m.space, heldTerminated := m.terminated }, .at (index + 1))
  | .holdMore =>
    ({ m with held := m.held ++ '\n' :: m.space, heldTerminated := m.terminated },
      .at (index + 1))
  | .recall => ({ m with space := m.held, terminated := m.heldTerminated }, .at (index + 1))
  | .recallMore =>
    ({ m with space := m.space ++ '\n' :: m.held, terminated := m.heldTerminated },
      .at (index + 1))
  | .exchange =>
    ({ m with
        space := m.held
        terminated := m.heldTerminated
        held := m.space
        heldTerminated := m.terminated }, .at (index + 1))
  | .appendText text => ({ m with appended := m.appended ++ [text] }, .at (index + 1))
  | .insertText text => (m.print text true, .at (index + 1))
  | .changeText text =>
    (if m.openRanges.contains index then m else m.print text true, .cycle false)
  | .label _ => (m, .at (index + 1))
  | .jump name => (m, .at (indexOf program name))
  | .jumpIfSubstituted name =>
    if m.substituted then ({ m with substituted := false }, .at (indexOf program name))
    else (m, .at (index + 1))
  | .opening => (m, .at (index + 1))
  | .closing => (m, .at (index + 1))

/-- Executes the instruction at an index; the end of the program ends the cycle. -/
def step (program : List Instruction) (quiet : Bool) (index : Nat) (m : State) : State × Flow :=
  match program[index]? with
  | none => (m, .cycle true)
  | some i =>
    let (selected, m) := m.selects index i.selector
    if selected then act program quiet index m i.action
    else if i.action = .opening then
      (m, .at (afterGroup program 0 (index + 1) program.length))
    else (m, .at (index + 1))

/-- Executes instructions until the run ends, at most `fuel` of them. -/
def steps (program : List Instruction) (quiet : Bool) : (fuel index : Nat) → State → State
  | 0, _, m => m
  | fuel + 1, index, m =>
    match step program quiet index m with
    | (m, .at index) => steps program quiet fuel index m
    | (m, .again) => steps program quiet fuel 0 m.flush
    | (m, .stop) => m.finish quiet
    | (m, .quit prints) => if prints then (m.finish quiet).settle else m
    | (m, .cycle prints) =>
      let m := m.finish (quiet || !prints)
      match m.input with
      | [] => m
      | l :: input =>
        steps program quiet fuel 0
          { m with input := input, number := m.number + 1, space := l.text,
                   terminated := l.terminated, substituted := false }

def stepLimit (program : List Instruction) (lines : Nat) : Nat :=
  1000 + 20 * (lines + 1) * (program.length + 1)

/-- Runs a program on lines: what it prints and its exit status. -/
def run (program : List Instruction) (quiet : Bool) (lines : List Octets.Line) : Octets × Nat :=
  match lines with
  | [] => ([], 0)
  | l :: rest =>
    let m : State := { input := rest, number := 1, space := l.text, terminated := l.terminated }
    let m := steps program quiet (stepLimit program lines.length) 0 m
    (m.printed.reverse.flatten, m.status)

end Editor

end CodeTidy.Sandbox
