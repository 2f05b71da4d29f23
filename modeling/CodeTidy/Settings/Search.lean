import CodeTidy.Host.FileTree
import CodeTidy.Settings.Document

/-!
# Finding and loading settings

Settings come from the file that the user names, or else from the nearest one upwards from the
target (`findSettings?`): in each directory the first of `settingsFileNames` that is a file, up
to a directory with an entry `.git`.  A project file counts only when it mentions the section.
-/

namespace CodeTidy

open CodeTidy.Text

/-! ### Search -/

/-- The names of settings files, the strongest first. -/
def settingsFileNames : List String :=
  [".colint.toml", "colint.toml", "pyproject.toml"]

/-- The name of the file that also holds the settings of other programs. -/
def projectFileName : String := "pyproject.toml"

/-- What a project file has to contain. -/
def sectionMark : String := "[tool.colint"

def occursIn (part : List Char) : List Char → Bool
  | [] => part.isEmpty
  | c :: cs => part.isPrefixOf (c :: cs) || occursIn part cs

/-- Whether a file of this name, at this location, holds settings. -/
def holdsSettings (t : FileTree) (l : Location) (name : String) : Bool :=
  let path := (l ++ [Utf8.encode name]).toPath
  t.isFile [] path
    && (name != projectFileName ||
        match t.readText [] path with
        | .ok text => occursIn sectionMark.toList text.toList
        | .error _ => false)

def settingsIn? (t : FileTree) (l : Location) : Option Path :=
  (settingsFileNames.find? (holdsSettings t l)).map fun name =>
    (l ++ [Utf8.encode name]).toPath

/-- Whether a directory is the top of a repository. -/
def isRepositoryRoot (t : FileTree) (l : Location) : Bool :=
  t.exists? [] (l ++ [Utf8.encode ".git"]).toPath

def maxSearchedDirectories : Nat := 100

/-- The settings file nearest above a location, among so many directories. -/
def searchUpward (t : FileTree) : (directories : Nat) → Location → Option Path
  | 0, _ => none
  | directories + 1, l =>
    match settingsIn? t l with
    | some path => some path
    | none =>
      if isRepositoryRoot t l ∨ l = [] then none else searchUpward t directories l.dropLast

/-- The directory in which the search for a target starts. -/
def searchStart? (t : FileTree) (cwd : Location) (target : Path) : Option Location :=
  (t.canonicalize cwd (if t.isFile cwd target then target.directory else target)).toOption

def findSettings? (t : FileTree) (cwd : Location) (target : Path) : Option Path :=
  searchStart? t cwd target >>= searchUpward t maxSearchedDirectories

/-! ### Loading -/

/-- Why there are no settings. -/
inductive ConfigError where
  | unreadable (path : Path) (reason : OsError)
  | invalid (path : Path) (error : DocumentError)
  deriving DecidableEq, Repr

namespace ConfigError

/-- What is said about the error; the parser's own words about the document are left to it. -/
def message : ConfigError → String
  | unreadable path reason =>
    "Failed to read config file at " ++ path.display ++ ": " ++ reason.text
  | invalid path error =>
    "Failed to parse config file at " ++ path.display ++ ": " ++ error.message

/-- What lies behind the error. -/
def cause? : ConfigError → Option String
  | unreadable _ reason => some reason.text
  | invalid _ _ => none

end ConfigError

/-- Settings, and the file that they were read from. -/
structure LoadedConfig where
  config : Config := {}
  source : Option Path := none
  deriving DecidableEq, Repr

namespace LoadedConfig

def ofFile (t : FileTree) (cwd : Location) (path : Path) : Except ConfigError LoadedConfig :=
  match t.readText cwd path with
  | .error reason => .error (.unreadable path reason)
  | .ok text =>
    match Config.ofToml text with
    | .error error => .error (.invalid path error)
    | .ok config => .ok ⟨config, some path⟩

/-- The settings for a target: those of the file that is named, or else of the one that is
found, or else none in particular. -/
def load (t : FileTree) (cwd : Location) (explicit : Option Path) (target : Path) :
    Except ConfigError LoadedConfig :=
  match explicit.or (findSettings? t cwd target) with
  | none => .ok {}
  | some path => ofFile t cwd path

def warnings (c : LoadedConfig) : List String :=
  let place := (c.source.map Path.display).getD ""
  c.config.unknownKeys.map fun (name, key) =>
    "Unknown key '" ++ key ++ "' in [tool." ++ name ++ "] of " ++ place

end LoadedConfig

end CodeTidy
