import CodeTidy.Toml.Literal

/-!
# Quoted TOML strings

Basic strings are written in double quotes and have escapes, literal strings in single quotes
and have none; three quotes allow line breaks.  Each reading function takes the input after the
opening quotes and returns the characters of the string and the input after the closing ones.
-/

namespace CodeTidy.Toml

/-- Whether a character may stand in a string or comment as it is. -/
def isPlain (c : Char) : Bool :=
  c == '\t' || (0x20 ≤ c.toNat && c.toNat != 0x7F)

def isSpace (c : Char) : Bool :=
  c == ' ' || c == '\t'

/-- What is read, and the input left. -/
abbrev Quoted := Option (List Char × List Char)

def Quoted.cons (c : Char) (q : Quoted) : Quoted :=
  q.map fun (s, rest) => (c :: s, rest)

def unescape? (c : Char) : Option Char :=
  match c with
  | 'b' => some (Char.ofNat 8)
  | 't' => some '\t'
  | 'n' => some '\n'
  | 'f' => some (Char.ofNat 12)
  | 'r' => some '\r'
  | 'e' => some (Char.ofNat 27)
  | '"' => some '"'
  | '\\' => some '\\'
  | _ => none

/-- The character with a given code in hexadecimal, if there is one. -/
def scalar? (digits : List Char) : Option Char :=
  let n := digitsValue 16 digits
  if digits.all isHexDigit ∧ n.isValidChar then some (Char.ofNat n) else none

/-! ### On one line -/

/-- Reads a literal string. -/
def readSingle : List Char → Quoted
  | [] => none
  | '\'' :: cs => some ([], cs)
  | c :: cs => if isPlain c then Quoted.cons c (readSingle cs) else none

/-- Reads a basic string. -/
def readDouble : List Char → Quoted
  | [] => none
  | '"' :: cs => some ([], cs)
  | '\\' :: 'x' :: a :: b :: cs =>
    (scalar? [a, b]).bind fun c => Quoted.cons c (readDouble cs)
  | '\\' :: 'u' :: a :: b :: c :: d :: cs =>
    (scalar? [a, b, c, d]).bind fun c => Quoted.cons c (readDouble cs)
  | '\\' :: 'U' :: a :: b :: c :: d :: e :: f :: g :: h :: cs =>
    (scalar? [a, b, c, d, e, f, g, h]).bind fun c => Quoted.cons c (readDouble cs)
  | '\\' :: c :: cs => (unescape? c).bind fun c => Quoted.cons c (readDouble cs)
  | c :: cs => if isPlain c then Quoted.cons c (readDouble cs) else none

/-! ### Over several lines -/

/-- Drops a line break at the start of a string. -/
def dropFirstBreak : List Char → List Char
  | '\n' :: cs => cs
  | '\r' :: '\n' :: cs => cs
  | cs => cs

/-- What follows three closing quotes: up to two more belong to the string. -/
def closeTriple (q : Char) : List Char → List Char × List Char
  | a :: b :: cs =>
    if a = q then if b = q then ([q, q], cs) else ([q], b :: cs) else ([], a :: b :: cs)
  | [a] => if a = q then ([q], []) else ([], [a])
  | [] => ([], [])

def readSingleLines : List Char → Quoted
  | [] => none
  | '\'' :: '\'' :: '\'' :: cs => some (closeTriple '\'' cs)
  | '\r' :: '\n' :: cs => Quoted.cons '\r' (Quoted.cons '\n' (readSingleLines cs))
  | c :: cs => if isPlain c ∨ c = '\n' then Quoted.cons c (readSingleLines cs) else none

/-- Whether only spaces stand before the next line break. -/
def endsLine (s : List Char) : Bool :=
  match s.dropWhile isSpace with
  | '\n' :: _ => true
  | '\r' :: '\n' :: _ => true
  | _ => false

/-- Reads a basic string of several lines.  A backslash at the end of a line skips the break and
all blanks after it; `skipping` says that this is going on. -/
def readDoubleLines (skipping : Bool) : List Char → Quoted
  | [] => none
  | '"' :: '"' :: '"' :: cs => some (closeTriple '"' cs)
  | '\r' :: '\n' :: cs =>
    if skipping then readDoubleLines true cs
    else Quoted.cons '\r' (Quoted.cons '\n' (readDoubleLines false cs))
  | '\\' :: 'x' :: a :: b :: cs =>
    (scalar? [a, b]).bind fun c => Quoted.cons c (readDoubleLines false cs)
  | '\\' :: 'u' :: a :: b :: c :: d :: cs =>
    (scalar? [a, b, c, d]).bind fun c => Quoted.cons c (readDoubleLines false cs)
  | '\\' :: 'U' :: a :: b :: c :: d :: e :: f :: g :: h :: cs =>
    (scalar? [a, b, c, d, e, f, g, h]).bind fun c => Quoted.cons c (readDoubleLines false cs)
  | '\\' :: c :: cs =>
    if endsLine (c :: cs) then readDoubleLines true (c :: cs)
    else (unescape? c).bind fun c => Quoted.cons c (readDoubleLines false cs)
  | c :: cs =>
    if isPlain c ∨ c = '\n' then
      if skipping ∧ (isSpace c ∨ c = '\n') then readDoubleLines true cs
      else Quoted.cons c (readDoubleLines false cs)
    else none

/-! ### Any string -/

def readLine? : List Char → Quoted
  | '"' :: cs => readDouble cs
  | '\'' :: cs => readSingle cs
  | _ => none

def readQuoted? : List Char → Quoted
  | '"' :: '"' :: '"' :: cs => readDoubleLines false (dropFirstBreak cs)
  | '\'' :: '\'' :: '\'' :: cs => readSingleLines (dropFirstBreak cs)
  | cs => readLine? cs

end CodeTidy.Toml
