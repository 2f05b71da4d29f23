import CodeTidy.Json.Fault
import CodeTidy.Json.Value

/-!
# Reading JSON

`Json.parse text` reads one value and nothing but blanks after it.  An integer that fits 64 bits
stays an integer; every other number becomes a binary64, computed from at most the digits that
fit 64 bits and one power of ten.  Containers nest at most 127 deep.  Each reading function
takes the input and returns what it read with the input left, or a `Fault`.
-/

namespace CodeTidy.Json

abbrev Read (α : Type) := Except Fault (α × List Char)

/-- The blanks between the tokens. -/
def isJsonBlank (c : Char) : Bool :=
  c == ' ' || c == '\n' || c == '\t' || c == '\r'

def skipBlanks (s : List Char) : List Char :=
  s.dropWhile isJsonBlank

/-! ### Names -/

/-- Reads the rest of `null`, `true` or `false`. -/
def readName (value : Json) : (name input : List Char) → Read Json
  | [], s => .ok (value, s)
  | _ :: _, [] => .error (.before .eofInValue [])
  | n :: ns, c :: cs =>
    if c = n then readName value ns cs else .error (.atNext .expectedIdent (c :: cs))

/-! ### Numbers -/

/-- The greatest significand, `2 ^ 64 - 1`. -/
def maxSignificand : Nat := 0xffffffffffffffff

def digitValue (c : Char) : Nat :=
  c.toNat - 48

/-- A run of digits taken into a significand: how many were, how many no longer fitted, and the
input left. -/
structure Absorbed where
  significand : Nat
  kept : Nat
  dropped : Nat
  rest : List Char
  deriving DecidableEq, Repr

/-- Takes digits into the significand until one no longer fits; from then on they are only
counted. -/
def absorb (significand kept dropped : Nat) : List Char → Absorbed
  | [] => ⟨significand, kept, dropped, []⟩
  | c :: cs =>
    if c.isDigit then
      let next := significand * 10 + digitValue c
      if dropped = 0 ∧ next ≤ maxSignificand then absorb next (kept + 1) 0 cs
      else absorb significand kept (dropped + 1) cs
    else ⟨significand, kept, dropped, c :: cs⟩

/-- The float `significand · 10 ^ exponent`. -/
def finishFloat (negative : Bool) (significand : Nat) (exponent : Int) (rest : List Char) :
    Read Number :=
  match Binary64.ofRatio significand 1 >>= (·.scale10 exponent) with
  | some x => .ok (.float negative x, rest)
  | none => .error (.before .numberOutOfRange rest)

/-- The greatest exponent that is computed with, `2 ^ 31 - 1`. -/
def maxWrittenExponent : Nat := 0x7fffffff

/-- Reads the digits of an exponent after the first; `value` is the exponent so far. -/
def readExponentDigits (negative down : Bool) (significand : Nat) (start : Int) (value : Nat) :
    List Char → Read Number
  | [] => finishFloat negative significand (if down then start - value else start + value) []
  | c :: cs =>
    if c.isDigit then
      let next := value * 10 + digitValue c
      if next ≤ maxWrittenExponent then
        readExponentDigits negative down significand start next cs
      else if significand ≠ 0 ∧ !down then .error (.before .numberOutOfRange cs)
      else .ok (.float negative .zero, cs.dropWhile Char.isDigit)
    else finishFloat negative significand (if down then start - value else start + value) (c :: cs)

def readExponent (negative : Bool) (significand : Nat) (start : Int) (s : List Char) :
    Read Number :=
  let (down, s) :=
    match s with
    | '+' :: cs => (false, cs)
    | '-' :: cs => (true, cs)
    | cs => (false, cs)
  match s with
  | [] => .error (.before .eofInValue [])
  | c :: cs =>
    if c.isDigit then readExponentDigits negative down significand start (digitValue c) cs
    else .error (.atNext .invalidNumber (c :: cs))

/-- Reads an exponent if one follows. -/
def readScale (negative : Bool) (significand : Nat) (exponent : Int) : List Char → Read Number
  | 'e' :: cs => readExponent negative significand exponent cs
  | 'E' :: cs => readExponent negative significand exponent cs
  | cs => finishFloat negative significand exponent cs

def readFraction (negative : Bool) (significand : Nat) (exponent : Int) (s : List Char) :
    Read Number :=
  let a := absorb significand 0 0 s
  if a.kept = 0 ∧ a.dropped = 0 then
    .error (.atNext (if a.rest.isEmpty then .eofInValue else .invalidNumber) a.rest)
  else readScale negative a.significand (exponent - a.kept) a.rest

/-- The number of an integer that fits: negative integers reach to `-2 ^ 63`, and beyond that,
like negative zero, they are floats. -/
def finishInteger (negative : Bool) (significand : Nat) (rest : List Char) : Read Number :=
  if !negative then .ok (.int significand, rest)
  else if 0 < significand ∧ significand ≤ 0x8000000000000000 then .ok (.int (-significand), rest)
  else finishFloat true significand 0 rest

/-- Reads what follows the integer part, of which `dropped` digits did not fit. -/
def readTail (negative : Bool) (significand dropped : Nat) : List Char → Read Number
  | '.' :: cs => readFraction negative significand dropped cs
  | 'e' :: cs => readExponent negative significand dropped cs
  | 'E' :: cs => readExponent negative significand dropped cs
  | cs =>
    if dropped = 0 then finishInteger negative significand cs
    else finishFloat negative significand dropped cs

/-- Reads a number after its sign. -/
def readNumber (negative : Bool) : List Char → Read Number
  | [] => .error (.before .eofInValue [])
  | '0' :: cs =>
    if (cs.head?.map Char.isDigit).getD false then .error (.atNext .invalidNumber cs)
    else readTail negative 0 0 cs
  | c :: cs =>
    if c.isDigit then
      let a := absorb (digitValue c) 0 0 cs
      readTail negative a.significand a.dropped a.rest
    else .error (.atNext .invalidNumber (c :: cs))

/-! ### Strings -/

def hexValue? (c : Char) : Option Nat :=
  if c.isDigit then some (c.toNat - 48)
  else if 'a' ≤ c ∧ c ≤ 'f' then some (c.toNat - 87)
  else if 'A' ≤ c ∧ c ≤ 'F' then some (c.toNat - 55)
  else none

def hexValue4? (a b c d : Char) : Option Nat := do
  return (((← hexValue? a) * 16 + (← hexValue? b)) * 16 + (← hexValue? c)) * 16 + (← hexValue? d)

def unescape? (c : Char) : Option Char :=
  match c with
  | '"' => some '"'
  | '\\' => some '\\'
  | '/' => some '/'
  | 'b' => some (Char.ofNat 8)
  | 'f' => some (Char.ofNat 12)
  | 'n' => some '\n'
  | 'r' => some '\r'
  | 't' => some '\t'
  | _ => none

/-- The fault of an escape whose four digits do not stand at the head of `s`: four bytes are
read before they are looked at. -/
def hexFault (s : List Char) : Fault :=
  if (Utf8.encode (String.ofList s)).length < 4 then .before .eofInString []
  else ⟨.invalidEscape, s, 4⟩

/-- The fault of a leading surrogate that `s` does not complete. -/
def pairFault : List Char → Fault
  | [] => .before .eofInString []
  | '\\' :: [] => .before .eofInString []
  | '\\' :: 'u' :: cs => hexFault cs
  | '\\' :: cs => .atNext .unexpectedEndOfHexEscape cs
  | cs => .atNext .unexpectedEndOfHexEscape cs

def isLeadingSurrogate (n : Nat) : Bool :=
  0xD800 ≤ n && n ≤ 0xDBFF

def isTrailingSurrogate (n : Nat) : Bool :=
  0xDC00 ≤ n && n ≤ 0xDFFF

def pairChar (lead trail : Nat) : Char :=
  Char.ofNat (0x10000 + (lead - 0xD800) * 0x400 + (trail - 0xDC00))

/-- Reads the rest of a string, up to its closing quote. -/
def readString : List Char → Read (List Char)
  | [] => .error (.before .eofInString [])
  | '"' :: cs => .ok ([], cs)
  | '\\' :: 'u' :: a :: b :: c :: d :: cs =>
    match hexValue4? a b c d with
    | none => .error (hexFault (a :: b :: c :: d :: cs))
    | some n =>
      if isTrailingSurrogate n then .error (.before .loneSurrogate cs)
      else if isLeadingSurrogate n then
        match cs with
        | '\\' :: 'u' :: e :: f :: g :: h :: cs' =>
          match hexValue4? e f g h with
          | none => .error (hexFault (e :: f :: g :: h :: cs'))
          | some m =>
            if isTrailingSurrogate m then
              (readString cs').map fun (s, rest) => (pairChar n m :: s, rest)
            else .error (.before .loneSurrogate cs')
        | cs => .error (pairFault cs)
      else (readString cs).map fun (s, rest) => (Char.ofNat n :: s, rest)
  | '\\' :: 'u' :: cs => .error (hexFault cs)
  | '\\' :: [] => .error (.before .eofInString [])
  | '\\' :: c :: cs =>
    match unescape? c with
    | some x => (readString cs).map fun (s, rest) => (x :: s, rest)
    | none => .error (.atNext .invalidEscape (c :: cs))
  | c :: cs =>
    if c.toNat < 32 then .error (.atNext .controlCharacter (c :: cs))
    else (readString cs).map fun (s, rest) => (c :: s, rest)

def readKey (s : List Char) : Except Fault (String × List Char) := do
  let (key, s) ← readString s
  match skipBlanks s with
  | ':' :: cs => return (String.ofList key, cs)
  | [] => throw (.atNext .eofInObject [])
  | cs => throw (.atNext .expectedColon cs)

/-! ### Values -/

mutual

/-- Reads a value.  `depth` containers may still be opened, counting one more than is allowed;
`fuel` bounds the number of values. -/
def readValue : (fuel depth : Nat) → List Char → Except Fault (Json × List Char)
  | 0, _, s => .error (.before .recursionLimit s)
  | fuel + 1, depth, s =>
    match skipBlanks s with
    | [] => .error (.atNext .eofInValue [])
    | 'n' :: cs => readName .null "ull".toList cs
    | 't' :: cs => readName (.bool true) "rue".toList cs
    | 'f' :: cs => readName (.bool false) "alse".toList cs
    | '-' :: cs => (readNumber true cs).map fun (n, rest) => (.number n, rest)
    | '"' :: cs => (readString cs).map fun (s, rest) => (.string (String.ofList s), rest)
    | '[' :: cs =>
      if depth ≤ 1 then .error (.atNext .recursionLimit ('[' :: cs))
      else
        match skipBlanks cs with
        | [] => .error (.atNext .eofInList [])
        | ']' :: cs => .ok (.array [], cs)
        | cs => do
          let (item, cs) ← readValue fuel (depth - 1) cs
          let (items, cs) ← readItems fuel (depth - 1) cs
          return (.array (item :: items), cs)
    | '{' :: cs =>
      if depth ≤ 1 then .error (.atNext .recursionLimit ('{' :: cs))
      else
        match skipBlanks cs with
        | [] => .error (.atNext .eofInObject [])
        | '}' :: cs => .ok (.object [], cs)
        | '"' :: cs => do
          let (key, cs) ← readKey cs
          let (value, cs) ← readValue fuel (depth - 1) cs
          let (members, cs) ← readMembers fuel (depth - 1) cs
          return (.object (Members.ofList ((key, value) :: members)), cs)
        | cs => .error (.atNext .keyNotString cs)
    | c :: cs =>
      if c.isDigit then (readNumber false (c :: cs)).map fun (n, rest) => (.number n, rest)
      else .error (.atNext .expectedValue (c :: cs))

/-- Reads the items after the first, and the closing bracket. -/
def readItems : (fuel depth : Nat) → List Char → Except Fault (List Json × List Char)
  | 0, _, s => .error (.before .recursionLimit s)
  | fuel + 1, depth, s =>
    match skipBlanks s with
    | [] => .error (.atNext .eofInList [])
    | ']' :: cs => .ok ([], cs)
    | ',' :: cs =>
      match skipBlanks cs with
      | [] => .error (.atNext .eofInValue [])
      | ']' :: cs => .error (.atNext .trailingComma (']' :: cs))
      | cs => do
        let (item, cs) ← readValue fuel depth cs
        let (items, cs) ← readItems fuel depth cs
        return (item :: items, cs)
    | cs => .error (.atNext .expectedCommaOrBracket cs)

/-- Reads the members after the first, and the closing brace. -/
def readMembers : (fuel depth : Nat) → List Char →
    Except Fault (List (String × Json) × List Char)
  | 0, _, s => .error (.before .recursionLimit s)
  | fuel + 1, depth, s =>
    match skipBlanks s with
    | [] => .error (.atNext .eofInObject [])
    | '}' :: cs => .ok ([], cs)
    | ',' :: cs =>
      match skipBlanks cs with
      | [] => .error (.atNext .eofInValue [])
      | '}' :: cs => .error (.atNext .trailingComma ('}' :: cs))
      | '"' :: cs => do
        let (key, cs) ← readKey cs
        let (value, cs) ← readValue fuel depth cs
        let (members, cs) ← readMembers fuel depth cs
        return ((key, value) :: members, cs)
      | cs => .error (.atNext .keyNotString cs)
    | cs => .error (.atNext .expectedCommaOrBrace cs)

end

/-- One more than the number of containers that may be nested. -/
def maxDepth : Nat := 128

/-- Reads a whole text as one value.  Every nested call has read a character, so the length of
the text bounds their number. -/
def parse (text : List Char) : Except Fault Json := do
  let (value, rest) ← readValue (2 * text.length + 1) maxDepth text
  match skipBlanks rest with
  | [] => return value
  | cs => throw (.atNext .trailingCharacters cs)

end CodeTidy.Json
