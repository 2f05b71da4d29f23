import CodeTidy.Text.Utf8

/-!
# Paths

A path is a sequence of bytes in which slashes separate components.  Repeated slashes, a slash
at the end and dots within the path mean nothing; a leading slash and a leading dot are
components of their own.  Paths are ordered by their components (`Path.le`), so a directory's
files stand together.
-/

namespace CodeTidy

/-- A path as it was given. -/
structure Path where
  bytes : Bytes
  deriving DecidableEq, Repr

/-- A part of a path. -/
inductive Component where
  | root
  | current
  | parent
  | normal (name : Bytes)
  deriving DecidableEq, Repr

namespace Path

def slash : UInt8 := 47

def dot : UInt8 := 46

def ofString (s : String) : Path :=
  ⟨Utf8.encode s⟩

def display (p : Path) : String :=
  Utf8.decodeLossy p.bytes

/-- The parts between the slashes. -/
def splitSlashes : Bytes → List Bytes
  | [] => [[]]
  | b :: bs =>
    if b = slash then [] :: splitSlashes bs
    else
      match splitSlashes bs with
      | [] => [[b]]
      | p :: ps => (b :: p) :: ps

/-- The component of a part that is neither the first nor empty. -/
def componentOf? (part : Bytes) : Option Component :=
  if part.isEmpty ∨ part = [dot] then none
  else if part = [dot, dot] then some .parent
  else some (.normal part)

def components (p : Path) : List Component :=
  let parts := splitSlashes p.bytes
  let first : List Component :=
    if p.bytes.head? = some slash then [.root]
    else if parts.head? = some [dot] then [.current]
    else []
  first ++ parts.filterMap componentOf?

/-- The path of a name below a directory. -/
def join (dir : Path) (name : Bytes) : Path :=
  if dir.bytes.isEmpty ∨ dir.bytes.getLast? = some slash then ⟨dir.bytes ++ name⟩
  else ⟨dir.bytes ++ slash :: name⟩

/-! ### Names and extensions -/

/-- The last component, if it is a name. -/
def fileName? (p : Path) : Option Bytes :=
  match p.components.getLast? with
  | some (.normal name) => some name
  | _ => none

/-- A name split at its last dot, unless nothing else stands before that dot. -/
def splitName (name : Bytes) : Bytes × Option Bytes :=
  let after := (name.reverse.takeWhile (· != dot)).reverse
  let before := (name.reverse.dropWhile (· != dot)).drop 1
  if before.isEmpty then (name, none) else (before.reverse, some after)

/-- The part of the file name after its last dot. -/
def extension? (p : Path) : Option Bytes :=
  p.fileName? >>= fun name => (splitName name).2

def hasExtension (p : Path) (extension : String) : Bool :=
  p.extension? == some (Utf8.encode extension)

def isNotebook (p : Path) : Bool :=
  p.hasExtension "ipynb"

/-- Drops what stands after the last component, from the reversed path. -/
def dropTail : Bytes → Bytes
  | [] => []
  | [b] => if b = slash then [] else [b]
  | a :: b :: bs =>
    if a = slash then dropTail (b :: bs)
    else if a = dot ∧ b = slash then dropTail (b :: bs)
    else a :: b :: bs

def withExtension (p : Path) (extension : String) : Path :=
  match p.fileName? with
  | none => p
  | some name =>
    let upToName := (dropTail p.bytes.reverse).reverse
    let stem := (splitName name).1
    ⟨upToName.take (upToName.length - (name.length - stem.length)) ++ dot :: Utf8.encode extension⟩

/-- The path up to the last component: the directory in which a file stands. -/
def directory (p : Path) : Path :=
  let before := (dropTail p.bytes.reverse).dropWhile (· != slash)
  if before.isEmpty then ⟨[dot]⟩ else ⟨before.reverse⟩

/-! ### Order -/

/-- Compares bytes from the left. -/
def bytesLe : Bytes → Bytes → Bool
  | [], _ => true
  | _ :: _, [] => false
  | a :: as, b :: bs => a < b || (a == b && bytesLe as bs)

/-- The place of the kinds of components. -/
def rank : Component → Nat
  | .root => 0
  | .current => 1
  | .parent => 2
  | .normal _ => 3

def componentLe (a b : Component) : Bool :=
  match a, b with
  | .normal m, .normal n => bytesLe m n
  | a, b => rank a ≤ rank b

def componentsLe : List Component → List Component → Bool
  | [], _ => true
  | _ :: _, [] => false
  | a :: as, b :: bs => if a = b then componentsLe as bs else componentLe a b

/-- The order of paths. -/
def le (p q : Path) : Bool :=
  componentsLe p.components q.components

end Path

end CodeTidy
