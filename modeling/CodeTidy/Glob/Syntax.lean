/-!
# Glob patterns

A pattern is a list of tokens.  `?` and `*` stand for one or any number of bytes, `[...]` for
one of a class, `{a,b}` for alternatives, a backslash makes the next character literal, and
`**` as a whole component stands for any number of components.  `Glob.parse` reads a pattern.
-/

namespace CodeTidy

/-- What a pattern is made of. -/
inductive GlobToken where
  | literal (c : Char)
  | anyOne
  | anyRun
  /-- `**` with a slash at the start of a pattern or alternative. -/
  | anyDirs
  /-- A slash and `**` at the end. -/
  | anyBelow
  /-- `**` between slashes. -/
  | anyBetween
  | charClass (negated : Bool) (ranges : List (Char × Char))
  | alternatives (branches : List (List GlobToken))
  deriving Repr, Inhabited

/-- What sets two uses of patterns apart. -/
structure GlobOptions where
  /-- Whether `?` and `*` do not match a slash. -/
  literalSeparator : Bool
  /-- Whether a bracket that nothing closes is literal. -/
  allowUnclosedClass : Bool
  deriving DecidableEq, Repr

inductive GlobError where
  | unclosedClass
  | invalidRange (low high : Char)
  | unclosedAlternates
  | unopenedAlternates
  | danglingEscape
  deriving DecidableEq, Repr

def GlobError.text : GlobError → String
  | unclosedClass => "unclosed character class; missing ']'"
  | invalidRange low high =>
    "invalid range; '" ++ low.toString ++ "' > '" ++ high.toString ++ "'"
  | unclosedAlternates =>
    "unclosed alternate group; missing '\x7d' (maybe escape '\x7b' with '[\x7b]'?)"
  | unopenedAlternates =>
    "unopened alternate group; missing '\x7b' (maybe escape '\x7d' with '[\x7d]'?)"
  | danglingEscape => "dangling '\\'"

def GlobError.message (e : GlobError) (pattern : String) : String :=
  "error parsing glob '" ++ pattern ++ "': " ++ e.text

/-- A pattern and the way in which it matches. -/
structure Glob where
  tokens : List GlobToken
  literalSeparator : Bool
  deriving Repr

namespace Glob

/-! ### Character classes -/

/-- Where the reading of a class stands. -/
structure ClassState where
  /-- The ranges so far, the last one first. -/
  ranges : List (Char × Char) := []
  /-- Whether a hyphen waits for the end of a range. -/
  inRange : Bool := false

def ClassState.add (s : ClassState) (c : Char) : Except GlobError ClassState :=
  match s.ranges with
  | (low, high) :: rest =>
    if s.inRange then
      if c < low then .error (.invalidRange low c) else .ok ⟨(low, c) :: rest, false⟩
    else .ok ⟨(c, c) :: (low, high) :: rest, false⟩
  | [] => .ok ⟨[(c, c)], false⟩

/-- The ranges of a finished class; a hyphen at its end is literal. -/
def ClassState.finish (s : ClassState) : List (Char × Char) :=
  if s.inRange then s.ranges.reverse ++ [('-', '-')] else s.ranges.reverse

/-- Reads a class after its first character: the ranges, and how many characters it took.
`none` is a class that nothing closes. -/
def readClass (s : ClassState) (taken : Nat) :
    List Char → Except GlobError (Option (List (Char × Char) × Nat))
  | [] => .ok none
  | c :: cs =>
    if c = ']' ∧ !s.ranges.isEmpty then .ok (some (s.finish, taken + 1))
    else if c = '-' ∧ !s.ranges.isEmpty ∧ !s.inRange then
      readClass { s with inRange := true } (taken + 1) cs
    else
      match s.add c with
      | .error e => .error e
      | .ok s => readClass s (taken + 1) cs

/-- Whether a class excludes its characters, and how many characters say so. -/
def classSign : List Char → Bool × Nat
  | '!' :: _ => (true, 1)
  | '^' :: _ => (true, 1)
  | _ => (false, 0)

/-! ### Patterns -/

/-- A list of alternatives that is being read: the branches before the current one, each with
its tokens reversed. -/
abbrev Branches := List (List GlobToken)

/-- Where the reading of a pattern stands.  Tokens and branches are kept reversed. -/
structure State where
  /-- The tokens of the current branch. -/
  current : List GlobToken := []
  /-- The finished branches of the current group. -/
  finished : Branches := []
  /-- The groups around it, each with its current and finished branches. -/
  outer : List (List GlobToken × Branches) := []
  /-- The character before. -/
  previous : Option Char := none
  /-- Whether a bracket was found that nothing closes. -/
  unclosed : Bool := false

namespace State

def push (s : State) (t : GlobToken) : State :=
  { s with current := t :: s.current }

/-- Whether an alternative is being read. -/
def inGroup (s : State) : Bool :=
  !s.outer.isEmpty

def openGroup (s : State) : State :=
  { s with current := [], finished := [], outer := (s.current, s.finished) :: s.outer }

def nextBranch (s : State) : State :=
  { s with current := [], finished := s.current :: s.finished }

def closeGroup (s : State) : Except GlobError State :=
  match s.outer with
  | [] => .error .unopenedAlternates
  | (current, finished) :: outer =>
    let branches := (s.current :: s.finished).reverse.map List.reverse
    .ok { s with current := .alternatives branches :: current, finished, outer }

/-- Adds the token of a `**` that fills a component and has something before it, in the place
of the slash before it. -/
def pushDirs (s : State) (token : GlobToken) : State :=
  match s.current with
  | .anyDirs :: _ => s
  | .anyBelow :: _ => s
  | _ :: rest => { s with current := token :: rest }
  | [] => s.push token

/-- Reads a `**` before `next`: the new state and whether `next`, a slash, is taken too. -/
def doubleStar (s : State) (next : Option Char) : State × Bool :=
  let plain := ((s.push .anyRun).push .anyRun, false)
  if s.current.isEmpty then
    if next = none then (s.push .anyDirs, false)
    else if next = some '/' then (s.push .anyDirs, true)
    else plain
  else if s.previous ≠ some '/'
      ∧ (!s.inGroup ∨ (s.previous ≠ some ',' ∧ s.previous ≠ some '\x7b')) then plain
  else
    match next with
    | none => (s.pushDirs .anyBelow, false)
    | some '/' => (s.pushDirs .anyBetween, true)
    | some c =>
      if s.inGroup ∧ (c = ',' ∨ c = '\x7d') then (s.pushDirs .anyBelow, false) else plain

end State

/-- Reads a pattern from one of its characters on, after dropping `skip` characters that belong
to what has been read. -/
def readTokens (options : GlobOptions) (s : State) :
    List Char → (skip : Nat) → Except GlobError State
  | [], _ => .ok s
  | c :: cs, skip + 1 => readTokens options { s with previous := some c } cs skip
  | c :: cs, 0 =>
    let continue_ (s : State) (skip : Nat) :=
      readTokens options { s with previous := some c } cs skip
    match c with
    | '?' => continue_ (s.push .anyOne) 0
    | '*' =>
      if cs.head? = some '*' then
        let (s, slash) := s.doubleStar (cs.drop 1).head?
        continue_ s (if slash then 2 else 1)
      else continue_ (s.push .anyRun) 0
    | '[' =>
      if s.unclosed then continue_ (s.push (.literal '[')) 0
      else
        let (negated, sign) := classSign cs
        match readClass {} sign (cs.drop sign) with
        | .error e => .error e
        | .ok (some (ranges, taken)) => continue_ (s.push (.charClass negated ranges)) taken
        | .ok none =>
          if options.allowUnclosedClass then
            continue_ { s.push (.literal '[') with unclosed := true } 0
          else .error .unclosedClass
    | '{' => continue_ s.openGroup 0
    | '}' =>
      match s.closeGroup with
      | .error e => .error e
      | .ok s => continue_ s 0
    | ',' => if s.inGroup then continue_ s.nextBranch 0 else continue_ (s.push (.literal ',')) 0
    | '\\' =>
      match cs with
      | [] => .error .danglingEscape
      | d :: _ => continue_ (s.push (.literal d)) 1
    | c => continue_ (s.push (.literal c)) 0

def parse (options : GlobOptions) (pattern : List Char) : Except GlobError Glob :=
  match readTokens options {} pattern 0 with
  | .error e => .error e
  | .ok s =>
    if s.inGroup then .error .unclosedAlternates
    else .ok ⟨s.current.reverse, options.literalSeparator⟩

end Glob

end CodeTidy
