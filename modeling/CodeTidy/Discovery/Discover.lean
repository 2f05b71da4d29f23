import CodeTidy.Command
import CodeTidy.Discovery.IgnoreRules

/-!
# Discovery of the files to process

`Discoverer.discover` lists the files below a root that an operation wants to see, sorted by
the components of their paths.  Directories with conventional names (`ignoredDirectories`) and
ignored directories are not entered, symbolic links are passed over, and exclude patterns are
matched against the path below the root.  A root that is a file stands for itself.
-/

namespace CodeTidy

/-- The names of directories that are never entered. -/
def ignoredDirectories : List String :=
  [".git", ".hg", ".svn", "venv", ".venv", "env", ".env", "__pycache__", ".tox", ".nox",
   ".mypy_cache", ".pytest_cache", ".ipynb_checkpoints", "node_modules"]

/-- How many leading bytes decide whether a file is binary. -/
def binarySniffLength : Nat := 8000

/-- Whether content is text: no NUL among its leading bytes. -/
def isTextContent (content : Bytes) : Bool :=
  !(content.take binarySniffLength).contains 0

/-- Whether a filter accepts a path.  What cannot be read counts as text, so that the operation
reports why. -/
def FileFilter.accepts (f : FileFilter) (t : FileTree) (cwd : Location) (p : Path) : Bool :=
  match f with
  | python => p.hasExtension "py"
  | notebook => p.hasExtension "ipynb"
  | pythonOrNotebook => p.hasExtension "py" || p.hasExtension "ipynb"
  | text =>
    match t.read cwd p with
    | .ok content => isTextContent content
    | .error _ => true

/-! ### Exclude patterns -/

/-- Why nothing can be discovered. -/
inductive DiscoveryError where
  | notFound (root : Path)
  | invalidPattern (pattern : String) (error : GlobError)
  deriving DecidableEq, Repr

namespace DiscoveryError

def message : DiscoveryError → String
  | notFound root => "Path '" ++ root.display ++ "' does not exist"
  | invalidPattern pattern error =>
    "Invalid exclude pattern '" ++ pattern ++ "': " ++ error.message pattern

/-- What lies behind the error. -/
def cause? : DiscoveryError → Option String
  | notFound _ => none
  | invalidPattern pattern error => some (error.message pattern)

end DiscoveryError

/-- An exclude pattern without wildcards also excludes what is inside the directory that it
names. -/
def expandPattern (pattern : String) : List String :=
  if pattern.toList.any fun c => c == '*' || c == '?' || c == '[' then [pattern]
  else
    let base := Text.dropEndWhile (· == '/') pattern.toList
    [String.ofList base, String.ofList (base ++ ['/', '*', '*'])]

/-- In an exclude pattern `?` and `*` also match slashes. -/
def excludeOptions : GlobOptions :=
  ⟨false, false⟩

/-- Reads patterns; the first that is none is the error. -/
def parsePatterns : List String → Except DiscoveryError (List Glob)
  | [] => .ok []
  | p :: ps =>
    match Glob.parse excludeOptions p.toList with
    | .error e => .error (.invalidPattern p e)
    | .ok g => (parsePatterns ps).map (g :: ·)

/-! ### Discovery -/

/-- What is left out of discovery. -/
structure Discoverer where
  exclude : List Glob
  respectGitignore : Bool
  deriving Repr

namespace Discoverer

/-- The discoverer for exclude patterns as the user writes them. -/
def ofPatterns (exclude : List String) (respectGitignore : Bool) :
    Except DiscoveryError Discoverer :=
  (parsePatterns (exclude.flatMap expandPattern)).map fun globs => ⟨globs, respectGitignore⟩

/-- The rules that hold in a tree. -/
def rulesFor (d : Discoverer) (t : FileTree) : IgnoreRules :=
  if d.respectGitignore then IgnoreRules.ofTree t else []

/-- Whether a directory with the given names below the root is entered. -/
def enters (rules : IgnoreRules) (root names : Location) : Bool :=
  !(ignoredDirectories.map Utf8.encode).contains (names.getLast?.getD [])
    && !rules.isIgnored (root ++ names) true

/-- Whether a walk from the root comes to the file with the given names below it. -/
def reaches (rules : IgnoreRules) (root names : Location) : Bool :=
  ((List.range names.length).drop 1).all (fun n => enters rules root (names.take n))
    && !rules.isIgnored (root ++ names) false

/-- Whether an exclude pattern matches the names below the root. -/
def isExcluded (d : Discoverer) (names : Location) : Bool :=
  d.exclude.any (·.matchesPath (IgnoreRules.relative names))

/-- The names below the root of an entry that is a file below it. -/
def namesBelow? (root : Location) (e : Location × Entry) : Option Location :=
  match e.2 with
  | .file .. =>
    if root.isPrefixOf e.1 ∧ root.length < e.1.length then some (e.1.drop root.length) else none
  | _ => none

/-- Removes repetitions that stand together. -/
def dedup : List Path → List Path
  | [] => []
  | [p] => [p]
  | p :: q :: rest => if p = q then dedup (q :: rest) else p :: dedup (q :: rest)

def filesBelow (d : Discoverer) (t : FileTree) (cwd : Location) (root : Path) (base : Location)
    (filter : FileFilter) : List Path :=
  let rules := d.rulesFor t
  let names := (t.entries.filterMap (namesBelow? base)).filter fun names =>
    reaches rules base names && !d.isExcluded names
  let paths := names.map fun names => names.foldl Path.join root
  dedup ((paths.filter (filter.accepts t cwd)).mergeSort Path.le)

/-- The files at or below a root that a filter accepts. -/
def discover (d : Discoverer) (t : FileTree) (cwd : Location) (root : Path)
    (filter : FileFilter) : Except DiscoveryError (List Path) :=
  match t.resolve cwd root with
  | .error _ => .error (.notFound root)
  | .ok base =>
    match t.get? base with
    | some (.file ..) => .ok (if filter.accepts t cwd root then [root] else [])
    | _ => .ok (d.filesBelow t cwd root base filter)

/-- What is said when the ignore files above the root have lines that are no patterns. -/
def warning? (d : Discoverer) (t : FileTree) (cwd : Location) (root : Path) : Option String :=
  match t.resolve cwd root with
  | .error _ => none
  | .ok base =>
    if d.respectGitignore ∧ t.get? base = some .dir then
      match IgnoreRules.faultsAbove t base with
      | [] => none
      | faults => some ("Error walking directory: " ++ String.intercalate "\n" faults)
    else none

end Discoverer

/-! ### Display -/

/-- The parts of a path after so many components. -/
def Path.dropComponents : Nat → List Bytes → List Bytes
  | 0, parts => parts
  | _ + 1, [] => []
  | n + 1, part :: parts =>
    if (componentOf? part).isSome then dropComponents n parts else dropComponents (n + 1) parts

/-- What a path says after the way to a location, as it is written. -/
def Path.below? (p : Path) (l : Location) : Option Path :=
  if (Component.root :: l.map .normal).isPrefixOf p.components then
    let meansNothing (part : Bytes) : Bool := (componentOf? part).isNone
    let parts := (dropComponents l.length (splitSlashes p.bytes)).dropWhile meansNothing
    some ⟨IgnoreRules.relative (Text.dropEndWhile meansNothing parts)⟩
  else none

/-- The path of a file as reports show it: below the working directory without the way to
it. -/
def displayPath (t : FileTree) (cwd : Location) (p : Path) : String :=
  let effective : Path :=
    match t.canonicalize cwd p with
    | .ok l => l.toPath
    | .error _ => p
  match t.canonicalize cwd cwd.toPath with
  | .error _ => p.display
  | .ok here => (((effective.below? here).or (effective.below? cwd)).getD p).display

end CodeTidy
