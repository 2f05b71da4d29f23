import CodeTidy.Decimal.Binary64
import CodeTidy.Toml.Value

/-!
# Bare TOML literals

The values that are written without quotes or brackets: booleans, integers, floats, dates and
times.  `Toml.literal?` reads one from the characters that make it up.  Integers must fit 64
bits, floats must be finite unless they say otherwise, and dates must exist.
-/

namespace CodeTidy.Toml

/-! ### Digits -/

/-- The digits of a run in which single underscores may stand between digits. -/
def digitRun? (isDigit : Char → Bool) : List Char → Option (List Char)
  | [] => none
  | [c] => if isDigit c then some [c] else none
  | c :: '_' :: cs => if isDigit c then (digitRun? isDigit cs).map (c :: ·) else none
  | c :: cs => if isDigit c then (digitRun? isDigit cs).map (c :: ·) else none

def digitValue (c : Char) : Nat :=
  if c.isDigit then c.toNat - 48 else c.toLower.toNat - 87

def digitsValue (base : Nat) (digits : List Char) : Nat :=
  digits.foldl (fun n c => n * base + digitValue c) 0

def isHexDigit (c : Char) : Bool :=
  c.isDigit || ('a' ≤ c && c ≤ 'f') || ('A' ≤ c && c ≤ 'F')

def isOctalDigit (c : Char) : Bool :=
  '0' ≤ c && c ≤ '7'

def isBinaryDigit (c : Char) : Bool :=
  c == '0' || c == '1'

/-- The digits of a decimal integer: no zero stands before another digit. -/
def decimalRun? (s : List Char) : Option (List Char) :=
  match digitRun? Char.isDigit s with
  | some ('0' :: _ :: _) => none
  | digits => digits

def sign (s : List Char) : Bool × List Char :=
  match s with
  | '-' :: cs => (true, cs)
  | '+' :: cs => (false, cs)
  | cs => (false, cs)

/-! ### Numbers -/

/-- An integer within 64 bits. -/
def bounded? (i : Int) : Option Toml :=
  if -0x8000000000000000 ≤ i ∧ i ≤ 0x7fffffffffffffff then some (.integer i) else none

def integer? (s : List Char) : Option Toml :=
  match s with
  | '0' :: 'x' :: cs => (digitRun? isHexDigit cs).bind fun d => bounded? (digitsValue 16 d)
  | '0' :: 'o' :: cs => (digitRun? isOctalDigit cs).bind fun d => bounded? (digitsValue 8 d)
  | '0' :: 'b' :: cs => (digitRun? isBinaryDigit cs).bind fun d => bounded? (digitsValue 2 d)
  | cs =>
    let (negative, digits) := sign cs
    (decimalRun? digits).bind fun d =>
      bounded? (if negative then -(digitsValue 10 d : Int) else digitsValue 10 d)

/-- Splits at the first character that satisfies `p`, which is dropped. -/
def cutAt (p : Char → Bool) (s : List Char) : List Char × Option (List Char) :=
  match s.dropWhile (fun c => !p c) with
  | [] => (s, none)
  | _ :: rest => (s.takeWhile (fun c => !p c), some rest)

/-- More digits than any finite float has before or after its point. -/
def farExponent : Int := 400

/-- Whether `digits · 10 ^ exponent` rounds to a finite float. -/
def isFinite (digits : List Char) (exponent : Int) : Bool :=
  let n := digitsValue 10 digits
  if n = 0 then true
  else if exponent + digits.length < -farExponent then true
  else if farExponent < exponent + (digits.dropWhile (· == '0')).length then false
  else
    let ratio : Nat × Nat :=
      if 0 ≤ exponent then (n * Nat.pow 10 exponent.toNat, 1)
      else (n, Nat.pow 10 (-exponent).toNat)
    (Binary64.ofRatio ratio.1 ratio.2).isSome

def exponent? (s : List Char) : Option Int :=
  let (negative, digits) := sign s
  (digitRun? Char.isDigit digits).map fun d =>
    if negative then -(digitsValue 10 d : Int) else digitsValue 10 d

/-- Whether the characters are a float with a fraction, an exponent or both. -/
def isDecimalFloat (s : List Char) : Bool :=
  let (mantissa, exponent) := cutAt (fun c => c == 'e' || c == 'E') (sign s).2
  let (whole, fraction) := cutAt (· == '.') mantissa
  if fraction.isNone && exponent.isNone then false
  else
    match decimalRun? whole, fraction.map (digitRun? Char.isDigit), exponent.map exponent? with
    | some w, none, some (some e) => isFinite w e
    | some w, some (some f), none => isFinite (w ++ f) (-f.length)
    | some w, some (some f), some (some e) => isFinite (w ++ f) (e - f.length)
    | _, _, _ => false

def float? (s : List Char) : Option Toml :=
  let body := (sign s).2
  if body = "inf".toList ∨ body = "nan".toList ∨ isDecimalFloat s then
    some (.float (String.ofList s))
  else none

/-! ### Dates and times -/

def twoDigits? : List Char → Option (Nat × List Char)
  | a :: b :: cs =>
    if a.isDigit ∧ b.isDigit then some (digitValue a * 10 + digitValue b, cs) else none
  | _ => none

def expect? (c : Char) : List Char → Option (List Char)
  | d :: cs => if d = c then some cs else none
  | [] => none

def daysIn (year month : Nat) : Nat :=
  if month = 2 then
    if year % 4 = 0 ∧ (year % 100 ≠ 0 ∨ year % 400 = 0) then 29 else 28
  else if [4, 6, 9, 11].contains month then 30
  else 31

def date? (s : List Char) : Option (List Char) := do
  let (century, s) ← twoDigits? s
  let (year, s) ← twoDigits? s
  let (month, s) ← twoDigits? (← expect? '-' s)
  let (day, s) ← twoDigits? (← expect? '-' s)
  if 1 ≤ month ∧ month ≤ 12 ∧ 1 ≤ day ∧ day ≤ daysIn (century * 100 + year) month then some s
  else none

/-- Reads the fraction of a second, if there is one. -/
def fraction? : List Char → Option (List Char)
  | '.' :: c :: cs => if c.isDigit then some (cs.dropWhile Char.isDigit) else none
  | ['.'] => none
  | cs => some cs

/-- Reads a time; the seconds may be left out. -/
def time? (s : List Char) : Option (List Char) := do
  let (hour, s) ← twoDigits? s
  let (minute, s) ← twoDigits? (← expect? ':' s)
  if 23 < hour ∨ 59 < minute then none
  else
    match s with
    | ':' :: cs => do
      let (second, s) ← twoDigits? cs
      if 60 < second then none else fraction? s
    | cs => some cs

/-- Whether the characters are nothing or an offset from UTC. -/
def isOffset (s : List Char) : Bool :=
  match s with
  | [] => true
  | 'Z' :: cs => cs.isEmpty
  | 'z' :: cs => cs.isEmpty
  | c :: cs =>
    if c = '+' ∨ c = '-' then
      match twoDigits? cs with
      | some (hour, ':' :: cs) =>
        match twoDigits? cs with
        | some (minute, []) => hour ≤ 23 && minute ≤ 59
        | _ => false
      | _ => false
    else false

def isDateSeparator (c : Char) : Bool :=
  c == 'T' || c == 't' || c == ' '

/-- Dates are kept with upper-case letters and a `T` before the time. -/
def canonicalDate (s : List Char) : String :=
  String.ofList (s.map fun c => if c = ' ' then 'T' else c.toUpper)

/-- A date, a time, or both; only a date with a time has an offset. -/
def dateTime? (s : List Char) : Option Toml :=
  let ok :=
    match date? s with
    | some [] => true
    | some (c :: cs) => isDateSeparator c && ((time? cs).map isOffset).getD false
    | none => time? s = some []
  if ok then some (.dateTime (canonicalDate s)) else none

/-! ### Any literal -/

def boolean? (s : List Char) : Option Toml :=
  if s = "true".toList then some (.boolean true)
  else if s = "false".toList then some (.boolean false)
  else none

def literal? (s : List Char) : Option Toml :=
  (((boolean? s).or (integer? s)).or (float? s)).or (dateTime? s)

def isLiteralChar (c : Char) : Bool :=
  c.isAlphanum || c == '_' || c == '+' || c == '-' || c == '.' || c == ':'

/-- Reads a literal.  One space may stand between a date and the digit of a time. -/
def readLiteral? (s : List Char) : Option (Toml × List Char) :=
  let head := s.takeWhile isLiteralChar
  let rest := s.dropWhile isLiteralChar
  match date? head, rest with
  | some [], ' ' :: c :: cs =>
    if c.isDigit then
      (literal? (head ++ ' ' :: (c :: cs).takeWhile isLiteralChar)).map fun v =>
        (v, (c :: cs).dropWhile isLiteralChar)
    else (literal? head).map fun v => (v, rest)
  | _, _ => (literal? head).map fun v => (v, rest)

end CodeTidy.Toml
