import CodeTidy.Decimal.Shortest
import CodeTidy.Json.Value

/-!
# Printing JSON

`Json.pretty unit j` puts every item and member on a line of its own, indented by `unit` spaces
a level, and writes empty containers as `[]` and `{}`; `Json.compact` writes no blanks.
Strings escape the quote, the backslash and the control characters below U+0020 only.
-/

namespace CodeTidy.Json

/-! ### Strings -/

/-- The lower-case hexadecimal digit of a number below sixteen. -/
def hexDigit (n : Nat) : Char :=
  Nat.digitChar n

def escapeChar (c : Char) : List Char :=
  if c = '"' then ['\\', '"']
  else if c = '\\' then ['\\', '\\']
  else if c = '\n' then ['\\', 'n']
  else if c = '\r' then ['\\', 'r']
  else if c = '\t' then ['\\', 't']
  else if c.toNat = 8 then ['\\', 'b']
  else if c.toNat = 12 then ['\\', 'f']
  else if c.toNat < 32 then
    ['\\', 'u', '0', '0', hexDigit (c.toNat / 16), hexDigit (c.toNat % 16)]
  else [c]

def quote (s : String) : List Char :=
  '"' :: s.toList.flatMap escapeChar ++ ['"']

/-! ### Numbers -/

structure FloatFormat where
  /-- Scientific exponents below this one are written with an exponent. -/
  minPositional : Int
  /-- Scientific exponents from this one on are written with an exponent. -/
  maxPositional : Int

/-- Floats are positional from `0.00001` up to sixteen digits before the point. -/
def floatFormat : FloatFormat :=
  ⟨-5, 16⟩

/-- The shortest digits of a positive number with the point or exponent put in.  A positional
number always has a point, an exponent always has a sign. -/
def decimalText (f : FloatFormat) (d : Decimal) : List Char :=
  let digits := Nat.toDigits 10 d.digits
  let point : Int := digits.length + d.exponent
  if f.minPositional ≤ point - 1 ∧ point - 1 < f.maxPositional then
    if 0 ≤ d.exponent then digits ++ List.replicate d.exponent.toNat '0' ++ ['.', '0']
    else if 0 < point then digits.take point.toNat ++ '.' :: digits.drop point.toNat
    else '0' :: '.' :: List.replicate (-point).toNat '0' ++ digits
  else
    let mantissa :=
      match digits with
      | [] => []
      | [c] => [c]
      | c :: cs => c :: '.' :: cs
    let sign := if point - 1 < 0 then '-' else '+'
    mantissa ++ 'e' :: sign :: Nat.toDigits 10 (point - 1).natAbs

def Number.text : Number → List Char
  | .int (.ofNat n) => Nat.toDigits 10 n
  | .int (.negSucc n) => '-' :: Nat.toDigits 10 (n + 1)
  | .float negative x =>
    (if negative then ['-'] else [])
      ++ if x.isZero then "0.0".toList else decimalText floatFormat x.shortest

/-! ### Values -/

def newLine (unit level : Nat) : List Char :=
  '\n' :: List.replicate (unit * level) ' '

mutual

/-- A value over several lines, `level` levels deep. -/
def prettyAt (unit level : Nat) : Json → List Char
  | .null => "null".toList
  | .bool true => "true".toList
  | .bool false => "false".toList
  | .number n => n.text
  | .string s => quote s
  | .array [] => ['[', ']']
  | .array (j :: js) =>
    '[' :: newLine unit (level + 1) ++ prettyAt unit (level + 1) j
      ++ prettyItems unit (level + 1) js ++ newLine unit level ++ [']']
  | .object [] => ['{', '}']
  | .object ((k, j) :: ms) =>
    '{' :: newLine unit (level + 1) ++ quote k ++ [':', ' '] ++ prettyAt unit (level + 1) j
      ++ prettyMembers unit (level + 1) ms ++ newLine unit level ++ ['}']

/-- The items after the first. -/
def prettyItems (unit level : Nat) : List Json → List Char
  | [] => []
  | j :: js => ',' :: newLine unit level ++ prettyAt unit level j ++ prettyItems unit level js

/-- The members after the first. -/
def prettyMembers (unit level : Nat) : List (String × Json) → List Char
  | [] => []
  | (k, j) :: ms =>
    ',' :: newLine unit level ++ quote k ++ [':', ' '] ++ prettyAt unit level j
      ++ prettyMembers unit level ms

end

mutual

/-- A value without blanks. -/
def compactText : Json → List Char
  | .null => "null".toList
  | .bool true => "true".toList
  | .bool false => "false".toList
  | .number n => n.text
  | .string s => quote s
  | .array [] => ['[', ']']
  | .array (j :: js) => '[' :: compactText j ++ compactItems js ++ [']']
  | .object [] => ['{', '}']
  | .object ((k, j) :: ms) =>
    '{' :: quote k ++ ':' :: compactText j ++ compactMembers ms ++ ['}']

/-- The items after the first. -/
def compactItems : List Json → List Char
  | [] => []
  | j :: js => ',' :: compactText j ++ compactItems js

/-- The members after the first. -/
def compactMembers : List (String × Json) → List Char
  | [] => []
  | (k, j) :: ms => ',' :: quote k ++ ':' :: compactText j ++ compactMembers ms

end

/-- A value over several lines, indented by `unit` spaces a level. -/
def pretty (unit : Nat) (j : Json) : String :=
  String.ofList (prettyAt unit 0 j)

def compact (j : Json) : String :=
  String.ofList (compactText j)

end CodeTidy.Json
