import CodeTidy.Sandbox.Octets

/-!
# Formatted output

A format is text with escapes and directives; each directive takes an argument, and the format
is used again while arguments are left.
-/

namespace CodeTidy.Sandbox

namespace Formatting

/-- Replaces the escapes of a text in which `\c` ends all output; an octal escape starts with a
zero.  Also returns whether the output goes on. -/
def unescape (done : Octets) (fuel : Nat) (s : Octets) : Octets × Bool :=
  match fuel, s with
  | 0, _ => (done.reverse, true)
  | _, [] => (done.reverse, true)
  | _ + 1, '\\' :: 'c' :: _ => (done.reverse, false)
  | fuel + 1, '\\' :: '0' :: rest =>
    let (c, rest) := Octets.octal 3 rest
    unescape (c :: done) fuel rest
  | fuel + 1, '\\' :: '\\' :: rest => unescape ('\\' :: done) fuel rest
  | fuel + 1, '\\' :: c :: rest =>
    match Octets.control? c with
    | some control => unescape (control :: done) fuel rest
    | none => unescape (c :: '\\' :: done) fuel rest
  | fuel + 1, c :: rest => unescape (c :: done) fuel rest

def unescaped (s : Octets) : Octets × Bool :=
  unescape [] (s.length + 1) s

/-- A piece of a format. -/
inductive Item where
  | text (s : Octets)
  /-- A directive with its flags, width and precision. -/
  | directive (flags : Octets) (width : Nat) (precision : Option Nat) (letter : Char)
  deriving DecidableEq, Repr

def hexValue? (c : Char) : Option Nat :=
  if c.isDigit then some (c.toNat - 48)
  else if 'a' ≤ c ∧ c ≤ 'f' then some (c.toNat - 87)
  else if 'A' ≤ c ∧ c ≤ 'F' then some (c.toNat - 55)
  else none

/-- Reads an escape of a format after its backslash; `extended` formats also have hexadecimal
escapes and quotes. -/
def escape (extended : Bool) (s : Octets) : Octets × Octets :=
  match s with
  | [] => (['\\'], [])
  | c :: rest =>
    if Octets.isOctalDigit c then
      let (d, rest) := Octets.octal 3 s
      ([d], rest)
    else if c = '\\' then (['\\'], rest)
    else if extended ∧ c = '\x22' then (['\x22'], rest)
    else if extended ∧ c = 'e' then (['\x1b'], rest)
    else if extended ∧ c = 'x' then
      let digits := (rest.take 2).takeWhile fun c => (hexValue? c).isSome
      if digits.isEmpty then (['\\', c], rest)
      else
        let value := digits.foldl (fun n c => n * 16 + (hexValue? c).getD 0) 0
        ([Char.ofNat value], rest.drop digits.length)
    else
      match Octets.control? c with
      | some control => ([control], rest)
      | none => (['\\', c], rest)

/-- Reads the pieces of a format; nothing when a directive is not complete. -/
def items? (extended : Bool) (fuel : Nat) (found : List Item) (s : Octets) : Option (List Item) :=
  match fuel, s with
  | 0, _ => none
  | _, [] => some found
  | fuel + 1, '\\' :: rest =>
    let (text, rest) := escape extended rest
    items? extended fuel (found ++ [.text text]) rest
  | fuel + 1, '%' :: '%' :: rest => items? extended fuel (found ++ [.text ['%']]) rest
  | fuel + 1, '%' :: rest =>
    let flags := rest.takeWhile fun c => c == '-' || c == '0' || c == '+' || c == ' ' || c == '#'
    let rest := rest.drop flags.length
    let width := rest.takeWhile Char.isDigit
    let rest := rest.drop width.length
    let (precision, rest) :=
      match rest with
      | '.' :: rest =>
        let digits := rest.takeWhile Char.isDigit
        (some ((Octets.nat? digits).getD 0), rest.drop digits.length)
      | rest => (none, rest)
    match rest with
    | [] => none
    | letter :: rest =>
      if "sbcdiuxXo".toList.contains letter then
        items? extended fuel
          (found ++ [.directive flags ((Octets.nat? width).getD 0) precision letter]) rest
      else none
  | fuel + 1, c :: rest => items? extended fuel (found ++ [.text [c]]) rest

/-- The value of a numeric argument: a sign and digits, or a quote and a character. -/
def value (s : Octets) : Int :=
  match s with
  | '\x27' :: c :: _ => c.toNat
  | '\x22' :: c :: _ => c.toNat
  | '-' :: rest => -((Octets.nat? (rest.takeWhile Char.isDigit)).getD 0 : Nat)
  | '+' :: rest => (Octets.nat? (rest.takeWhile Char.isDigit)).getD 0
  | s => (Octets.nat? (s.takeWhile Char.isDigit)).getD 0

def pad (flags : Octets) (width : Nat) (s : Octets) : Octets :=
  let fill := List.replicate (width - s.length) ' '
  if flags.contains '-' then s ++ fill else fill ++ s

def padNumber (flags : Octets) (width : Nat) (sign digits : Octets) : Octets :=
  if flags.contains '0' ∧ !flags.contains '-' then
    sign ++ List.replicate (width - sign.length - digits.length) '0' ++ digits
  else pad flags width (sign ++ digits)

/-- The text of a directive for its argument, and whether the output goes on. -/
def render (flags : Octets) (width : Nat) (precision : Option Nat) (letter : Char) (arg : Octets) :
    Octets × Bool :=
  let cut (s : Octets) : Octets := precision.elim s s.take
  match letter with
  | 's' => (pad flags width (cut arg), true)
  | 'b' =>
    let (text, goesOn) := unescaped arg
    (pad flags width (cut text), goesOn)
  | 'c' => (pad flags width (arg.take 1), true)
  | letter =>
    let n := value arg
    let sign : Octets :=
      if n < 0 then ['-'] else if flags.contains '+' then ['+']
      else if flags.contains ' ' then [' '] else []
    let base := if letter = 'o' then 8 else if letter = 'x' ∨ letter = 'X' then 16 else 10
    let digits := Nat.toDigits base n.natAbs
    let digits := if letter = 'X' then digits.map Char.toUpper else digits
    let digits := List.replicate ((precision.getD 0) - digits.length) '0' ++ digits
    (padNumber flags width sign digits, true)

/-- Writes the pieces of a format once: the text, the arguments that are left, and whether the
output goes on. -/
def once (done : Octets) (args : List Octets) : List Item → Octets × List Octets × Bool
  | [] => (done, args, true)
  | .text s :: rest => once (done ++ s) args rest
  | .directive flags width precision letter :: rest =>
    let (text, goesOn) := render flags width precision letter (args.head?.getD [])
    if goesOn then once (done ++ text) (args.drop 1) rest else (done ++ text, [], false)

/-- Writes the pieces of a format until no argument is left; `fuel` bounds how often. -/
def repeated (items : List Item) (fuel : Nat) (done : Octets) (args : List Octets) : Octets :=
  match fuel with
  | 0 => done
  | fuel + 1 =>
    let (done, left, goesOn) := once done args items
    if left.isEmpty ∨ !goesOn ∨ left.length = args.length then done
    else repeated items fuel done left

def format? (extended : Bool) (s : Octets) (args : List Octets) : Option Octets :=
  (items? extended (s.length + 1) [] s).map fun items => repeated items (args.length + 1) [] args

end Formatting

end CodeTidy.Sandbox
