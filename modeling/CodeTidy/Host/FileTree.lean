import CodeTidy.Host.Listing

/-!
# File trees

A file tree maps locations, which are lists of names from the root, to files, directories and
symbolic links; it is proper however it is built.  `FileTree.resolve` follows a path to a location as
the operating system does: every component on the way must be a directory, and at most forty links are
followed.  `FileTree.canonicalize` does so for paths of any length.
-/

namespace CodeTidy

/-! ### Errors -/

/-- What the operating system can refuse. -/
inductive OsError where
  | notFound
  | permissionDenied
  | badExecutable
  | notADirectory
  | isADirectory
  | tooManyLinks
  | nameTooLong
  /-- The bytes of a file are not text. -/
  | invalidText
  /-- A word for a program has a NUL in it. -/
  | nulByte
  /-- A path has a NUL in it. -/
  | nulInPath
  deriving DecidableEq, Repr

namespace OsError

def reason : OsError → String
  | notFound => "No such file or directory"
  | permissionDenied => "Permission denied"
  | badExecutable => "Exec format error"
  | notADirectory => "Not a directory"
  | isADirectory => "Is a directory"
  | tooManyLinks => "Too many levels of symbolic links"
  | invalidText => "stream did not contain valid UTF-8"
  | nameTooLong => "File name too long"
  | nulByte => "nul byte found in provided data"
  | nulInPath => "file name contained an unexpected NUL byte"

/-- The number of the error, if the operating system numbers it. -/
def number? : OsError → Option Nat
  | notFound => some 2
  | permissionDenied => some 13
  | badExecutable => some 8
  | notADirectory => some 20
  | isADirectory => some 21
  | tooManyLinks => some 40
  | invalidText => none
  | nameTooLong => some 36
  | nulByte => none
  | nulInPath => none

def text (e : OsError) : String :=
  e.reason ++ e.number?.elim "" fun n => " (os error " ++ toString n ++ ")"

end OsError

/-! ### Trees -/

/-- What stands below the root of a file system. -/
@[ext]
structure FileTree where
  entries : Listing := []
  proper : entries.Proper := by decide
  deriving DecidableEq, Repr

namespace FileTree

/-- A file system with nothing below its root. -/
def empty : FileTree := {}

/-- What stands at a location; the root is a directory. -/
def get? (t : FileTree) (l : Location) : Option Entry :=
  t.entries.get? l

theorem get?_nil (t : FileTree) : t.get? [] = some .dir := rfl

def content? (t : FileTree) (l : Location) : Option Bytes :=
  match t.get? l with
  | some (.file content _) => some content
  | _ => none

/-! ### Changes -/

def write (t : FileTree) (l : Location) (content : Bytes) : FileTree :=
  ⟨t.entries.map fun e => (e.1, if e.1 = l then e.2.setContent content else e.2),
    t.proper.replace (fun k e => if k = l then e.setContent content else e) fun k => by
      simp [Entry.setContent]⟩

/-- Removes a location and everything below it. -/
def remove (t : FileTree) (l : Location) : FileTree :=
  ⟨t.entries.filter fun e => !l.isPrefixOf e.1, t.proper.remove l⟩

/-- Adds an entry to a directory; the tree stays as it is where a file system would refuse. -/
def add (t : FileTree) (dir : Location) (name : Bytes) (e : Entry) : FileTree :=
  if h : t.get? dir = some .dir ∧ Storable name ∧ t.get? (dir ++ [name]) = none then
    ⟨t.entries ++ [(dir ++ [name], e)], t.proper.add h.1 h.2.1 h.2.2 e⟩
  else t

/-- Makes the directories of the names below a directory. -/
def addDirectories (t : FileTree) (dir : Location) : List Bytes → FileTree
  | [] => t
  | name :: names => (t.add dir name .dir).addDirectories (dir ++ [name]) names

/-- Puts an entry at a location, in the place of what stands there, and makes the directories on the
way to it. -/
def put (t : FileTree) (l : Location) (e : Entry) : FileTree :=
  match l.getLast? with
  | none => t
  | some name => ((t.remove l).addDirectories [] l.dropLast).add l.dropLast name e

/-! ### Resolution -/

/-- The parts of a path as they are followed; a slash at the end asks for a directory. -/
def stepsOf (p : Path) : List Component :=
  let parts := Path.splitSlashes p.bytes
  let first : List Component := if p.bytes.head? = some Path.slash then [.root] else []
  let last : List Component := if p.bytes.getLast? = some Path.slash then [.current] else []
  let step (part : Bytes) : Component :=
    if part = [Path.dot] then .current
    else if part = [Path.dot, Path.dot] then .parent
    else .normal part
  first ++ (parts.filter (!·.isEmpty)).map step ++ last

def maxPath : Nat := 4095

/-- How many links may be followed on the way of one path. -/
def maxLinks : Nat := 40

/-- Follows steps from a location where something stands, up to the first link, from where `jump` goes
on.  Only names at `reachable` locations can be asked for. -/
def walk (t : FileTree) (reachable : Location → Bool)
    (jump : Location → Path → List Component → Except OsError Location) (l : Location) :
    List Component → Except OsError Location
  | [] => .ok l
  | step :: steps =>
    match t.get? l with
    | some .dir =>
      match step with
      | .root => walk t reachable jump [] steps
      | .current => walk t reachable jump l steps
      | .parent => walk t reachable jump l.dropLast steps
      | .normal name =>
        if maxName < name.length ∨ reachable (l ++ [name]) = false then .error .nameTooLong
        else
          match t.get? (l ++ [name]) with
          | none => .error .notFound
          | some (.link target) => jump l target steps
          | some _ => walk t reachable jump (l ++ [name]) steps
    | _ => .error .notADirectory

/-- Follows steps from a location where something stands.  `links` links may still be followed; the
target of a link takes the place of its name. -/
def follow (t : FileTree) (reachable : Location → Bool) :
    Nat → Location → List Component → Except OsError Location
  | 0 => t.walk reachable fun _ _ _ => .error .tooManyLinks
  | links + 1 => t.walk reachable fun l target steps =>
      follow t reachable links l (stepsOf target ++ steps)

/-- The location that a path leads to from a working directory, as the operating system finds it
when a file is opened. -/
def resolve (t : FileTree) (cwd : Location) (p : Path) : Except OsError Location :=
  if p.bytes.contains 0 then .error .nulInPath
  else if p.bytes.isEmpty then .error .notFound
  else if maxPath < p.bytes.length then .error .nameTooLong
  else follow t (fun _ => true) maxLinks cwd (stepsOf p)

/-- The location that a path leads to, found by asking for one name after the other: the path may have
any length, but that of each location on the way is limited. -/
def canonicalize (t : FileTree) (cwd : Location) (p : Path) : Except OsError Location :=
  if p.bytes.contains 0 then .error .nulInPath
  else if p.bytes.isEmpty then .error .notFound
  else follow t (fun l => l.toPath.bytes.length ≤ maxPath) maxLinks cwd (stepsOf p)

/-- What stands where a path leads. -/
def stat (t : FileTree) (cwd : Location) (p : Path) : Except OsError Entry := do
  let l ← t.resolve cwd p
  match t.get? l with
  | some e => .ok e
  | none => .error .notFound

def exists? (t : FileTree) (cwd : Location) (p : Path) : Bool :=
  (t.resolve cwd p).isOk

def isFile (t : FileTree) (cwd : Location) (p : Path) : Bool :=
  match t.stat cwd p with
  | .ok (.file ..) => true
  | _ => false

def isDir (t : FileTree) (cwd : Location) (p : Path) : Bool :=
  match t.stat cwd p with
  | .ok .dir => true
  | _ => false

/-! ### Content -/

/-- The bytes of the file that a path leads to. -/
def read (t : FileTree) (cwd : Location) (p : Path) : Except OsError Bytes :=
  match t.stat cwd p with
  | .ok (.file content _) => .ok content
  | .ok _ => .error .isADirectory
  | .error e => .error e

def readText (t : FileTree) (cwd : Location) (p : Path) : Except OsError String :=
  match t.read cwd p with
  | .error e => .error e
  | .ok b =>
    match Utf8.decode? b with
    | some s => .ok s
    | none => .error .invalidText

end FileTree

end CodeTidy
