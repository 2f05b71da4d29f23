import CodeTidy.Discovery.IgnoreFile
import CodeTidy.Host.FileTree

/-!
# The ignore files of a tree

A directory can hold an `.ignore`, a `.gitignore` and a `.git/info/exclude`.  For each of the
three kinds the file nearest above a path that has a rule for it decides, and of the kinds
`.ignore` goes before `.gitignore` and that before `.git/info/exclude`
(`IgnoreRules.isIgnored`).
-/

namespace CodeTidy

/-- The kinds of ignore files, the strongest first. -/
inductive IgnoreKind where
  | ignore
  | gitignore
  | exclude
  deriving DecidableEq, Repr

namespace IgnoreKind

def all : List IgnoreKind :=
  [ignore, gitignore, exclude]

/-- Where a directory keeps the file. -/
def file : IgnoreKind → List String
  | ignore => [".ignore"]
  | gitignore => [".gitignore"]
  | exclude => [".git", "info", "exclude"]

end IgnoreKind

/-- The ignore files of a tree, by directory and kind. -/
abbrev IgnoreRules := List ((Location × IgnoreKind) × IgnoreFile)

namespace IgnoreRules

def locationOf (dir : Location) (kind : IgnoreKind) : Location :=
  dir ++ kind.file.map Utf8.encode

/-- The bytes of an ignore file of a directory, which may be a link. -/
def contentOf? (t : FileTree) (dir : Location) (kind : IgnoreKind) : Option Bytes :=
  (t.read [] (locationOf dir kind).toPath).toOption

/-- The root and all directories of a tree. -/
def directories (t : FileTree) : List Location :=
  [] :: t.entries.filterMap fun e => if e.2 = .dir then some e.1 else none

def ofTree (t : FileTree) : IgnoreRules :=
  (directories t).flatMap fun dir =>
    IgnoreKind.all.filterMap fun kind =>
      (contentOf? t dir kind).map fun content =>
        ((dir, kind), (IgnoreFile.ofBytes content).1)

/-- The names of a location with slashes between them. -/
def relative (names : Location) : Bytes :=
  List.intercalate [Path.slash] names

/-- What the ignore files of one kind say about a location; the nearest that says something
decides.  `names` is the location from `dir` on, and the search goes from the directory
`steps` names below `dir` upwards to `dir`. -/
def kindVerdict? (rules : IgnoreRules) (kind : IgnoreKind) (isDir : Bool) (l : Location) :
    (steps : Nat) → Option Verdict
  | 0 => verdictAt 0
  | steps + 1 => (verdictAt (steps + 1)).or (kindVerdict? rules kind isDir l steps)
where
  /-- What the file in the directory of the first `n` names says. -/
  verdictAt (n : Nat) : Option Verdict :=
    match rules.lookup (l.take n, kind) with
    | none => none
    | some file => file.verdict? (relative (l.drop n)) isDir

/-- Whether a location below the root is ignored. -/
def isIgnored (rules : IgnoreRules) (l : Location) (isDir : Bool) : Bool :=
  IgnoreKind.all.findSome? (fun kind => kindVerdict? rules kind isDir l (l.length - 1))
    == some .ignored

/-- What is said about the lines that are no patterns in the directories above a location. -/
def faultsAbove (t : FileTree) (l : Location) : List String :=
  ((List.range l.length).map l.take).flatMap fun dir =>
    IgnoreKind.all.flatMap fun kind =>
      match contentOf? t dir kind with
      | none => []
      | some content =>
        (IgnoreFile.ofBytes content).2.map (·.message (locationOf dir kind).toPath.display)

end IgnoreRules

end CodeTidy
