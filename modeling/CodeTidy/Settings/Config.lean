import CodeTidy.Settings.IgnoreList

/-!
# Settings

The settings of a run, section by section, with the values that they have when a document does
not mention them.
-/

namespace CodeTidy

/-- The words of a command line: the program and its arguments. -/
abbrev CommandWords := List String

/-- What is processed, how long a tool may take, and what notebooks are cleaned of. -/
structure GeneralSettings where
  /-- Glob patterns, relative to the root of a run, that are never processed. -/
  exclude : List String := []
  /-- Whether ignore files are honoured. -/
  respectGitignore : Bool := true
  /-- How many milliseconds a tool may take; zero sets no limit. -/
  timeout : Nat := 0
  /-- The metadata keys that are removed from notebook cells. -/
  stripMetadataKeys : List String := ["execution", "ExecuteTime", "collapsed", "scrolled"]
  /-- The commands that replace those of the built-in tools, by tool. -/
  tools : List (String × CommandWords) := []
  deriving DecidableEq, Repr

structure IsortSettings where
  profile : Option String := none
  deriving DecidableEq, Repr

/-- The settings of the code formatter; comments are reflowed to the same line length. -/
structure BlackSettings where
  lineLength : Nat := 88
  targetVersions : List String := ["py310"]
  preview : Bool := false
  unstable : Bool := false
  deriving DecidableEq, Repr

structure Flake8Settings where
  /-- The greatest complexity that is accepted; there is no limit when it is not positive. -/
  maxComplexity : Int := -1
  /-- Prefixes of the codes that are ignored everywhere. -/
  extendIgnore : List String := []
  /-- Prefixes of the codes that are ignored in files of one name. -/
  perFileIgnores : FileIgnores := []
  deriving DecidableEq, Repr

structure Sections where
  general : GeneralSettings := {}
  isort : IsortSettings := {}
  black : BlackSettings := {}
  flake8 : Flake8Settings := {}
  deriving DecidableEq, Repr

/-- The settings of a run, and the keys of the document that mean nothing. -/
structure Config extends Sections where
  /-- Sections and keys in them. -/
  unknownKeys : List (String × String) := []
  deriving DecidableEq, Repr

end CodeTidy
