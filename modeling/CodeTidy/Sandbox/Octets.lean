import CodeTidy.Text.Utf8

/-!
# Octets

The programs of the sandbox work on bytes and know nothing of encodings.  So that their rules
can be written with character literals, a byte is represented by the character with its number;
`toBytes_ofBytes` says that nothing is lost.
-/

namespace CodeTidy.Sandbox

/-- A sequence of bytes, each as the character with its number. -/
abbrev Octets := List Char

namespace Octets

def ofBytes (b : Bytes) : Octets :=
  b.map fun x => Char.ofNat x.toNat

def toBytes (s : Octets) : Bytes :=
  s.map fun c => UInt8.ofNat c.toNat

def ofString (s : String) : Octets :=
  ofBytes (Utf8.encode s)

theorem toBytes_ofBytes (b : Bytes) : toBytes (ofBytes b) = b := by
  induction b with
  | nil => rfl
  | cons x xs ih =>
    have hx : UInt8.ofNat (Char.ofNat x.toNat).toNat = x := by
      have hlt : x.toNat < 256 := x.toNat_lt
      have hv : x.toNat.isValidChar := Or.inl (by omega)
      have hc : (Char.ofNat x.toNat).toNat = x.toNat := by
        rw [Char.ofNat, dif_pos hv]
        rfl
      rw [hc]
      exact UInt8.ofNat_toNat
    have : toBytes (ofBytes (x :: xs)) =
        UInt8.ofNat (Char.ofNat x.toNat).toNat :: toBytes (ofBytes xs) := rfl
    rw [this, hx, ih]

/-! ### Lines -/

/-- A line, and whether a newline ends it. -/
structure Line where
  text : Octets
  terminated : Bool
  deriving DecidableEq, Repr

/-- Collects lines, the last first; `current` is the line so far, reversed. -/
def scanLines (done : List Line) (current : Octets) : Octets → List Line
  | [] => if current.isEmpty then done else ⟨current.reverse, false⟩ :: done
  | c :: cs =>
    if c = '\n' then scanLines (⟨current.reverse, true⟩ :: done) [] cs
    else scanLines done (c :: current) cs

def lines (s : Octets) : List Line :=
  (scanLines [] [] s).reverse

/-- The line with the newline that ends it. -/
def Line.octets (l : Line) : Octets :=
  if l.terminated then l.text ++ ['\n'] else l.text

/-- Lines below each other, each with a newline. -/
def unlines (l : List Octets) : Octets :=
  l.flatMap (· ++ ['\n'])

/-! ### Numbers and escapes -/

def ofNat (n : Nat) : Octets :=
  Nat.toDigits 10 n

/-- The number that decimal digits spell; there must be one at least. -/
def nat? (s : Octets) : Option Nat :=
  if s.isEmpty ∨ !s.all Char.isDigit then none
  else some (s.foldl (fun n c => n * 10 + (c.toNat - 48)) 0)

def isOctalDigit (c : Char) : Bool :=
  '0' ≤ c && c ≤ '7'

/-- The byte that at most `digits` octal digits spell, and what follows them. -/
def octal (digits : Nat) (s : Octets) : Char × Octets :=
  let used := (s.take digits).takeWhile isOctalDigit
  let value := used.foldl (fun n c => n * 8 + (c.toNat - 48)) 0
  (Char.ofNat (value % 256), s.drop used.length)

/-- The control character that a letter after a backslash stands for. -/
def control? : Char → Option Char
  | 'a' => some '\x07'
  | 'b' => some '\x08'
  | 'f' => some '\x0c'
  | 'n' => some '\n'
  | 'r' => some '\r'
  | 't' => some '\t'
  | 'v' => some '\x0b'
  | _ => none

/-- A blank in the C locale. -/
def isSpace (c : Char) : Bool :=
  c == ' ' || (9 ≤ c.toNat && c.toNat ≤ 13)

/-- The members of a character class in the C locale. -/
def inClass? (name : String) : Option (Char → Bool) :=
  match name with
  | "alpha" => some Char.isAlpha
  | "digit" => some Char.isDigit
  | "alnum" => some Char.isAlphanum
  | "upper" => some Char.isUpper
  | "lower" => some Char.isLower
  | "space" => some isSpace
  | "blank" => some fun c => c == ' ' || c == '\t'
  | "cntrl" => some fun c => c.toNat < 32 || c.toNat == 127
  | "print" => some fun c => 32 ≤ c.toNat && c.toNat < 127
  | "graph" => some fun c => 32 < c.toNat && c.toNat < 127
  | "punct" => some fun c => 32 < c.toNat && c.toNat < 127 && !c.isAlphanum
  | "xdigit" => some fun c => c.isDigit || ('a' ≤ c && c ≤ 'f') || ('A' ≤ c && c ≤ 'F')
  | _ => none

def all : Octets :=
  (List.range 256).map Char.ofNat

def le : Octets → Octets → Bool
  | [], _ => true
  | _ :: _, [] => false
  | a :: as, b :: bs => a < b || (a == b && le as bs)

end Octets

end CodeTidy.Sandbox
