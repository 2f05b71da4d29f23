import CodeTidy.Text.Lines

/-!
# Diagnostics of a style checker

A checker prints one finding per line, as `row:col:code:text`.  `Diagnostic.parse?` reads one
line and `Diagnostic.parseAll` a whole output, in which every other line is noise; `render` is
the format that the checker is asked for.
-/

namespace CodeTidy

open CodeTidy.Text

structure Diagnostic where
  line : Nat
  column : Nat
  /-- The number of the notebook cell, from 1, for a finding inside a notebook. -/
  cell : Option Nat
  code : String
  message : String
  deriving DecidableEq, Repr

namespace Diagnostic

/-- The greatest line or column number that is read, `2 ^ 64 - 1`. -/
def maxNumber : Nat := 0xffffffffffffffff

/-- The value of ASCII digits, `acc` being the value of those before them. -/
def digitsValue? (acc : Nat) : List Char → Option Nat
  | [] => some acc
  | c :: cs => if c.isDigit then digitsValue? (acc * 10 + (c.toNat - 48)) cs else none

/-- The number that the digits spell, when they are ASCII and the number is not too large. -/
def number? (digits : List Char) : Option Nat :=
  (digitsValue? 0 digits).filter (· ≤ maxNumber)

/-- A run of decimal digits, at least one, followed by a colon: the run and what follows. -/
def field? (s : List Char) : Option (List Char × List Char) :=
  match s.takeWhile isDecimalDigit, s.dropWhile isDecimalDigit with
  | d :: ds, ':' :: rest => some (d :: ds, rest)
  | _, _ => none

/-- Upper-case ASCII letters and then decimal digits, at least one of each, followed by a
colon: the code and what follows. -/
def code? (s : List Char) : Option (List Char × List Char) :=
  let letters := s.takeWhile Char.isUpper
  if letters.isEmpty then none
  else
    (field? (s.dropWhile Char.isUpper)).map fun (digits, rest) => (letters ++ digits, rest)

/-- The text of a finding: at most one blank before it is skipped. -/
def messageOf : List Char → List Char
  | [] => []
  | c :: cs => if isBlank c then cs else c :: cs

/-- The finding on a line, if the line has the format. -/
def parse? (line : List Char) : Option Diagnostic := do
  let (row, s) ← field? (trimEnd line)
  let (col, s) ← field? s
  let (code, s) ← code? s
  let line ← number? row
  let column ← number? col
  return ⟨line, column, none, String.ofList code, String.ofList (messageOf s)⟩

def parseAll (output : List Char) : List Diagnostic :=
  (lines output).filterMap parse?

/-- A finding as the checker prints it. -/
def render (d : Diagnostic) : String :=
  toString d.line ++ ":" ++ toString d.column ++ ":" ++ d.code ++ ":" ++ d.message

end Diagnostic

end CodeTidy
