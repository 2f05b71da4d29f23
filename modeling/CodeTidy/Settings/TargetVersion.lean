import CodeTidy.Text.Lines

/-!
# Target versions

A target version is a minor version of Python 3, written `py3` to `py13` for short, `py33` to
`py313` in full, in either case.  `TargetVersion.normalize?` gives the full form.
-/

namespace CodeTidy.TargetVersion

open CodeTidy.Text

/-- The greatest number that is read, `2 ^ 32 - 1`. -/
def maxNumber : Nat := 0xffffffff

/-- The value of ASCII digits, at least one, after an optional plus sign. -/
def number? (s : List Char) : Option Nat :=
  let digits := if s.head? = some '+' then s.drop 1 else s
  if digits.isEmpty ∨ !digits.all Char.isDigit then none
  else
    (some (digits.foldl (fun n c => n * 10 + (c.toNat - 48)) 0)).filter (· ≤ maxNumber)

def minor? (n : Nat) : Option Nat :=
  if 3 ≤ n ∧ n ≤ 13 then some n
  else if 33 ≤ n ∧ n ≤ 39 then some (n - 30)
  else if 310 ≤ n ∧ n ≤ 313 then some (n - 300)
  else none

def normalize? (value : String) : Option String :=
  match (trim value.toList).map Char.toLower with
  | 'p' :: 'y' :: rest => (number? rest >>= minor?).map fun m => "py3" ++ toString m
  | _ => none

def unsupported (value : String) : String :=
  "Unsupported target version: " ++ value

end CodeTidy.TargetVersion
