import CodeTidy.Text.Lines

/-!
# Line endings

A line feed that follows a carriage return is a CRLF break, any other line feed an LF break.
`LineEnding.detect` classifies a text by the breaks that occur in it, `normalize` brings all
breaks to one class, and `reapply` gives a tool's output the class of the tool's input.
-/

namespace CodeTidy

/-- The line endings of a text: one kind throughout, or both. -/
inductive LineEnding where
  | lf
  | crlf
  | mixed
  deriving DecidableEq, Repr

/-- How many breaks of each kind a sequence has. -/
structure Breaks where
  crlf : Nat
  lf : Nat
  deriving DecidableEq, Repr

namespace Breaks

/-- Counts the breaks of a sequence whose carriage returns and line feeds the two tests
recognise; `afterCr` says whether a carriage return stands just before it. -/
def count {α : Type} (isCr isLf : α → Bool) (afterCr : Bool) : List α → Breaks
  | [] => ⟨0, 0⟩
  | x :: xs =>
    let rest := count isCr isLf (isCr x) xs
    if isLf x then
      if afterCr then ⟨rest.crlf + 1, rest.lf⟩ else ⟨rest.crlf, rest.lf + 1⟩
    else rest

def ofBytes (content : List UInt8) : Breaks :=
  count (· == 13) (· == 10) false content

def ofText (text : List Char) : Breaks :=
  count (· == '\r') (· == '\n') false text

/-- The class of a sequence with these breaks; one without any counts as LF. -/
def ending (b : Breaks) : LineEnding :=
  if b.crlf = 0 then .lf else if b.lf = 0 then .crlf else .mixed

/-- Whether CRLF breaks are in the majority. -/
def crlfDominates (b : Breaks) : Bool :=
  b.lf < b.crlf

end Breaks

namespace LineEnding

/-! ### Detection -/

def detect (text : List Char) : LineEnding :=
  (Breaks.ofText text).ending

def detectBytes (content : List UInt8) : LineEnding :=
  (Breaks.ofBytes content).ending

/-- The break that most breaks of the text are; `\n` when neither kind leads. -/
def dominant (text : List Char) : List Char :=
  if (Breaks.ofText text).crlfDominates then ['\r', '\n'] else ['\n']

def dominantBytes (content : List UInt8) : List UInt8 :=
  if (Breaks.ofBytes content).crlfDominates then [13, 10] else [10]

/-! ### Normalisation -/

/-- Turns every CRLF break into LF. -/
def toLf : List Char → List Char
  | '\r' :: '\n' :: cs => '\n' :: toLf cs
  | c :: cs => c :: toLf cs
  | [] => []

/-- Writes every line feed as CRLF. -/
def expandLf (text : List Char) : List Char :=
  text.flatMap fun c => if c = '\n' then ['\r', '\n'] else [c]

/-- Turns every break into one of the target class; towards `mixed` there is nothing to do. -/
def normalize (target : LineEnding) (text : List Char) : List Char :=
  match target with
  | .lf => toLf text
  | .crlf => expandLf (toLf text)
  | .mixed => text

/-- Gives a tool's output the line endings of the text that it was given.  Mixed
endings set no rule. -/
def reapply (source output : List Char) : List Char :=
  let target := detect source
  if target = .mixed then output
  else if detect output = target then output
  else normalize target output

end LineEnding

end CodeTidy
