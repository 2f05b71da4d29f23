import CodeTidy.Sandbox.Octets

/-!
# Transliteration

A transliteration replaces the members of one set by the members of another, deletes members of a
set, or squeezes runs of one character.  Sets are written with ranges, escapes and named
classes.
-/

namespace CodeTidy.Sandbox

namespace Transliteration

/-! ### Sets -/

/-- A member of a set as it is written. -/
inductive Member where
  | char (c : Char)
  | named (name : String)
  /-- A character that fills the set up. -/
  | fill (c : Char)
  deriving DecidableEq, Repr

def members (fuel : Nat) (s : Octets) : List Member :=
  match fuel, s with
  | 0, _ => []
  | _, [] => []
  | fuel + 1, '[' :: ':' :: rest =>
    let name := rest.takeWhile (· != ':')
    match rest.drop name.length with
    | ':' :: ']' :: rest => .named (String.ofList name) :: members fuel rest
    | _ => .char '[' :: members fuel (':' :: rest)
  | fuel + 1, '[' :: c :: '*' :: ']' :: rest => .fill c :: members fuel rest
  | fuel + 1, '\\' :: c :: rest =>
    if Octets.isOctalDigit c then
      let (d, rest) := Octets.octal 3 (c :: rest)
      .char d :: members fuel rest
    else .char ((Octets.control? c).getD c) :: members fuel rest
  | fuel + 1, c :: rest => .char c :: members fuel rest

def range (a b : Char) : Octets :=
  (List.range (b.toNat + 1 - a.toNat)).map fun n => Char.ofNat (a.toNat + n)

/-- The characters of a set that is to have `size` of them; nothing for a reversed range or a
class that does not exist. -/
def expand? (size : Nat) : List Member → Option Octets
  | .char a :: .char '-' :: .char b :: rest =>
    if b < a then none else (expand? (size - (b.toNat + 1 - a.toNat)) rest).map (range a b ++ ·)
  | .char a :: rest => (expand? (size - 1) rest).map (a :: ·)
  | .named name :: rest =>
    match Octets.inClass? name with
    | none => none
    | some test =>
      let found := Octets.all.filter test
      (expand? (size - found.length) rest).map (found ++ ·)
  | .fill c :: rest => (expand? 0 rest).map (List.replicate (size - rest.length) c ++ ·)
  | [] => some []

/-- The characters of a set that has to be as long as `size` characters. -/
def set? (size : Nat) (s : Octets) : Option Octets :=
  expand? size (members (s.length + 1) s)

/-! ### Transliterating -/

/-- What is done to a text. -/
structure Plan where
  /-- What each character becomes. -/
  table : List (Char × Char)
  deletes : Octets
  squeezes : Octets
  deriving DecidableEq, Repr

/-- Lengthens a set with its last character. -/
def pad (size : Nat) (s : Octets) : Octets :=
  s ++ List.replicate (size - s.length) (s.getLast?.getD ' ')

/-- Keeps the first of each run of one of the given characters; `before` is the character
before the text. -/
def squeeze (chars : Octets) (before : Option Char) (done : Octets) : Octets → Octets
  | [] => done.reverse
  | c :: cs =>
    if before = some c ∧ c ∈ chars then squeeze chars before done cs
    else squeeze chars (some c) (c :: done) cs

def Plan.apply (p : Plan) (s : Octets) : Octets :=
  let kept := if p.deletes.isEmpty then s else s.filter (!p.deletes.contains ·)
  let images := (Octets.all.map fun c => (p.table.lookup c).getD c).toArray
  let replaced :=
    if p.table.isEmpty then kept else kept.map fun c => images[c.toNat]?.getD c
  if p.squeezes.isEmpty then replaced else squeeze p.squeezes none [] replaced

structure Options where
  complement : Bool := false
  delete : Bool := false
  squeeze : Bool := false
  truncate : Bool := false
  deriving DecidableEq, Repr

def plan? (o : Options) (sets : List Octets) : Option Plan :=
  let complemented (s : Octets) : Octets :=
    if o.complement then Octets.all.filter (!s.contains ·) else s
  match sets with
  | [first] =>
    match set? 0 first with
    | none => none
    | some first =>
      let first := complemented first
      if o.delete ∧ !o.squeeze then some ⟨[], first, []⟩
      else if o.squeeze ∧ !o.delete then some ⟨[], [], first⟩
      else none
  | [first, second] =>
    match set? 0 first with
    | none => none
    | some first =>
      let first := complemented first
      match set? first.length second with
      | none => none
      | some second =>
        if o.delete then if o.squeeze then some ⟨[], first, second⟩ else none
        else if second.isEmpty ∧ !o.truncate then none
        else
          let images := if o.truncate then second else pad first.length second
          -- of two images of one character the later counts
          some ⟨(first.zip images).reverse, [], if o.squeeze then second else []⟩
  | _ => none

end Transliteration

end CodeTidy.Sandbox
