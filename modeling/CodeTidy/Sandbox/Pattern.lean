import CodeTidy.Sandbox.Octets

/-!
# Regular expressions

The basic and the extended syntax of regular expressions, with groups and back-references, in
the C locale.  `Pattern.parse?` reads either syntax, and `Pattern.find?` returns the leftmost
match in a subject and among those the longest.
-/

namespace CodeTidy.Sandbox

/-- A regular expression. -/
inductive Pattern where
  | empty
  | lineStart
  | lineEnd
  | any
  | literal (c : Char)
  /-- One character in some range, or in none of them when the set is negated. -/
  | set (negated : Bool) (ranges : List (Char × Char))
  | sequence (first second : Pattern)
  | either (first second : Pattern)
  | repeated (p : Pattern) (least : Nat) (most : Option Nat)
  | group (number : Nat) (p : Pattern)
  /-- The text that a group matched. -/
  | same (number : Nat)
  deriving DecidableEq, Repr

inductive PatternSyntax where
  | basic
  | extended
  deriving DecidableEq, Repr

namespace Pattern

/-! ### Bracket expressions -/

/-- A member of a bracket expression. -/
inductive Member where
  | char (c : Char)
  | named (ranges : List (Char × Char))
  deriving DecidableEq, Repr

def classRanges? (name : Octets) : Option (List (Char × Char)) :=
  (Octets.inClass? (String.ofList name)).map fun test =>
    (Octets.all.filter test).map fun c => (c, c)

/-- Reads members up to the closing bracket; a bracket that comes first is a member.  `fuel`
bounds their number. -/
def members? (fuel : Nat) (found : List Member) (s : Octets) : Option (List Member × Octets) :=
  match fuel, s with
  | 0, _ => none
  | _, [] => none
  | fuel + 1, '[' :: ':' :: rest =>
    let name := rest.takeWhile (· != ':')
    match classRanges? name, rest.drop name.length with
    | some ranges, ':' :: ']' :: rest => members? fuel (found ++ [.named ranges]) rest
    | _, _ => none
  | fuel + 1, '\\' :: c :: rest =>
    match Octets.control? c with
    | some control => members? fuel (found ++ [.char control]) rest
    | none => members? fuel (found ++ [.char '\\']) (c :: rest)
  | fuel + 1, c :: rest =>
    if c = ']' ∧ !found.isEmpty then some (found, rest)
    else members? fuel (found ++ [.char c]) rest

/-- The ranges that the members denote. -/
def rangesOf : List Member → List (Char × Char)
  | .char a :: .char '-' :: .char b :: rest => (a, b) :: rangesOf rest
  | .char a :: rest => (a, a) :: rangesOf rest
  | .named ranges :: rest => ranges ++ rangesOf rest
  | [] => []

/-- Reads a bracket expression after its opening bracket. -/
def bracket? (s : Octets) : Option (Pattern × Octets) :=
  match s with
  | '^' :: rest =>
    (members? (rest.length + 1) [] rest).map fun (found, rest) => (set true (rangesOf found), rest)
  | rest =>
    (members? (rest.length + 1) [] rest).map fun (found, rest) =>
      (set false (rangesOf found), rest)

/-! ### Tokens -/

/-- What a regular expression is made of. -/
inductive Token where
  | one (p : Pattern)
  | opening
  | closing
  | bar
  | bound (least : Nat) (most : Option Nat)
  deriving DecidableEq, Repr

/-- Reads the bounds of a repetition after the opening brace. -/
def bounds? (kind : PatternSyntax) (s : Octets) : Option (Token × Octets) :=
  let closing (least : Nat) (most : Option Nat) : Octets → Option (Token × Octets)
    | '\\' :: '\x7d' :: rest => if kind = .basic then some (.bound least most, rest) else none
    | '\x7d' :: rest => if kind = .extended then some (.bound least most, rest) else none
    | _ => none
  let low := s.takeWhile Char.isDigit
  let least := (Octets.nat? low).getD 0
  match s.drop low.length with
  | ',' :: rest =>
    let high := rest.takeWhile Char.isDigit
    closing least (Octets.nat? high) (rest.drop high.length)
  | rest => closing least (some least) rest

/-- The characters that count as parts of words. -/
def wordRanges : List (Char × Char) :=
  [('a', 'z'), ('A', 'Z'), ('0', '9'), ('_', '_')]

/-- What a backslash and a character mean when they are no operator. -/
def escaped (c : Char) : Pattern :=
  match c with
  | 'w' => set false wordRanges
  | 'W' => set true wordRanges
  | 's' => set false [(' ', ' '), ('\t', '\r')]
  | 'S' => set true [(' ', ' '), ('\t', '\r')]
  | c =>
    if c.isDigit ∧ c ≠ '0' then same (c.toNat - 48)
    else literal (if c = 'b' then c else (Octets.control? c).getD c)

/-- The operator that a character is, in the extended syntax alone or in the basic syntax after a
backslash, together with what follows it. -/
def operator? (kind : PatternSyntax) (c : Char) (rest : Octets) :
    Option (Option (Token × Octets)) :=
  match c with
  | '(' => some (some (.opening, rest))
  | ')' => some (some (.closing, rest))
  | '|' => some (some (.bar, rest))
  | '+' => some (some (.bound 1 none, rest))
  | '?' => some (some (.bound 0 (some 1), rest))
  | '\x7b' => some (bounds? kind rest)
  | _ => none

/-- Whether a dollar before the given text ends a line in the basic syntax. -/
def endsBranch : Octets → Bool
  | [] => true
  | '\\' :: ')' :: _ => true
  | '\\' :: '|' :: _ => true
  | _ => false

/-- Whether nothing stands before the next token that could be repeated. -/
def atStart (found : List Token) : Bool :=
  match found.getLast? with
  | none => true
  | some .opening => true
  | some .bar => true
  | some (.one .lineStart) => true
  | _ => false

/-- Splits a regular expression into tokens; `fuel` bounds their number. -/
def tokens? (kind : PatternSyntax) (fuel : Nat) (found : List Token) (s : Octets) :
    Option (List Token) :=
  match fuel, s with
  | _, [] => some found
  | 0, _ => none
  | _, ['\\'] => none
  | fuel + 1, '\\' :: c :: rest =>
    let plain := tokens? kind fuel (found ++ [.one (escaped c)]) rest
    if kind = .basic then
      match operator? kind c rest with
      | some (some (token, rest)) => tokens? kind fuel (found ++ [token]) rest
      | some none => none
      | none => plain
    else if (operator? kind c rest).isSome then
      tokens? kind fuel (found ++ [.one (literal c)]) rest
    else plain
  | fuel + 1, c :: rest =>
    let literally := tokens? kind fuel (found ++ [.one (literal c)]) rest
    match c with
    | '.' => tokens? kind fuel (found ++ [.one any]) rest
    | '[' =>
      match bracket? rest with
      | none => none
      | some (p, rest) => tokens? kind fuel (found ++ [.one p]) rest
    | '*' =>
      if atStart found then literally else tokens? kind fuel (found ++ [.bound 0 none]) rest
    | '^' =>
      if kind = .extended ∨ (atStart found ∧ found.getLast? ≠ some (.one .lineStart)) then
        tokens? kind fuel (found ++ [.one lineStart]) rest
      else literally
    | '$' =>
      if kind = .extended ∨ endsBranch rest then
        tokens? kind fuel (found ++ [.one lineEnd]) rest
      else literally
    | c =>
      if kind = .extended then
        match operator? kind c rest with
        | some (some (token, rest)) => tokens? kind fuel (found ++ [token]) rest
        | some none => none
        | none => literally
      else literally

/-! ### Syntax -/

/-- What has been read of a group: the branches that are complete, the items of the current one
in reverse, and the number of the group. -/
structure Level where
  number : Nat
  branches : List Pattern := []
  items : List Pattern := []
  deriving Repr

namespace Level

def branch (l : Level) : Pattern :=
  match l.items with
  | [] => .empty
  | last :: before => before.foldl (fun rest p => .sequence p rest) last

/-- Everything that has been read. -/
def pattern (l : Level) : Pattern :=
  match l.branches with
  | [] => l.branch
  | b :: bs => .either (bs.foldl .either b) l.branch

end Level

/-- Reads tokens; `open` are the groups around the current one, the innermost first, and `count`
is how many groups have been opened. -/
def ofTokens? (count : Nat) (current : Level) (outer : List Level) : List Token → Option Pattern
  | [] => if outer.isEmpty then some current.pattern else none
  | .one p :: rest => ofTokens? count { current with items := p :: current.items } outer rest
  | .bound least most :: rest =>
    match current.items with
    | [] => none
    | p :: before =>
      ofTokens? count { current with items := .repeated p least most :: before } outer rest
  | .bar :: rest =>
    ofTokens? count
      { current with branches := current.branches ++ [current.branch], items := [] } outer rest
  | .opening :: rest => ofTokens? (count + 1) { number := count + 1 } (current :: outer) rest
  | .closing :: rest =>
    match outer with
    | [] => none
    | l :: outer =>
      let p := Pattern.group current.number current.pattern
      ofTokens? count { l with items := p :: l.items } outer rest

def parse? (kind : PatternSyntax) (s : Octets) : Option Pattern :=
  tokens? kind (s.length + 1) [] s >>= ofTokens? 0 { number := 0 } []

/-! ### Matching -/

/-- A place in a subject: how far it is from the start, what follows, and what the groups
matched. -/
structure Spot where
  offset : Nat
  rest : Octets
  groups : List (Nat × Octets) := []
  deriving DecidableEq, Repr

namespace Spot

/-- The spot after one character that satisfies a test. -/
def eat (s : Spot) (test : Char → Bool) : List Spot :=
  match s.rest with
  | [] => []
  | c :: cs => if test c then [{ s with offset := s.offset + 1, rest := cs }] else []

/-- The text between two spots. -/
def upTo (s t : Spot) : Octets :=
  s.rest.take (t.offset - s.offset)

end Spot

/-- The spots after between `least` and `most` steps, of which `count` have been taken; steps
that lead nowhere are not repeated. -/
def iterate (step : Spot → List Spot) (least : Nat) (most : Option Nat) :
    (fuel count : Nat) → Spot → List Spot
  | 0, count, s => if least ≤ count then [s] else []
  | fuel + 1, count, s =>
    let mayGoOn := most.all (count < ·)
    let onward :=
      if mayGoOn then
        ((step s).filter fun t => s.offset < t.offset || count < least).flatMap
          (iterate step least most fuel (count + 1))
      else []
    if least ≤ count then onward ++ [s] else onward

/-- The spots that a match from a spot can lead to. -/
def ends : Pattern → Spot → List Spot
  | empty, s => [s]
  | lineStart, s => if s.offset = 0 then [s] else []
  | lineEnd, s => if s.rest.isEmpty then [s] else []
  | any, s => s.eat fun _ => true
  | literal c, s => s.eat (· == c)
  | set negated ranges, s =>
    s.eat fun c => (ranges.any fun (low, high) => low ≤ c && c ≤ high) != negated
  | sequence p q, s => (p.ends s).flatMap q.ends
  | either p q, s => p.ends s ++ q.ends s
  | repeated p least most, s => iterate p.ends least most (s.rest.length + least + 1) 0 s
  | group number p, s =>
    (p.ends s).map fun t => { t with groups := (number, s.upTo t) :: t.groups }
  | same number, s =>
    match s.groups.lookup number with
    | none => []
    | some text =>
      if text.isPrefixOf s.rest then
        [{ s with offset := s.offset + text.length, rest := s.rest.drop text.length }]
      else []

/-- The longest of the matches from a spot, and of equally long ones the first. -/
def longest? (p : Pattern) (s : Spot) : Option Spot :=
  match p.ends s with
  | [] => none
  | t :: ts => some (ts.foldl (fun best t => if best.offset < t.offset then t else best) t)

/-- The first match at or after a place: where it starts and where it ends. -/
def find? (p : Pattern) (offset : Nat) (rest : Octets) : Option (Spot × Spot) :=
  match p.longest? ⟨offset, rest, []⟩ with
  | some t => some (⟨offset, rest, []⟩, t)
  | none =>
    match rest with
    | [] => none
    | _ :: cs => find? p (offset + 1) cs

/-- Whether some part of a subject matches. -/
def occursIn (p : Pattern) (subject : Octets) : Bool :=
  (p.find? 0 subject).isSome

end Pattern

end CodeTidy.Sandbox
