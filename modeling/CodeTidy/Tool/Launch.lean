import CodeTidy.Host.FileTree

/-!
# Launching programs

A program is a function from its arguments and its standard input to what it prints and the
status with which it exits.  Files are visible to it and stay as they are: a `Toolbox` returns
no tree.
-/

namespace CodeTidy

/-- A program with its arguments, and what it reads from its standard input. -/
structure Invocation where
  program : String
  arguments : List String
  input : Bytes
  deriving DecidableEq, Repr

/-- What a program leaves when it ends. -/
structure Completion where
  stdout : Bytes
  stderr : Bytes
  /-- The exit status, or nothing when a signal ended the program. -/
  status : Option Nat
  /-- How many milliseconds the program ran. -/
  duration : Nat
  deriving DecidableEq, Repr

/-- What comes of an invocation. -/
inductive Launch where
  /-- The program could not be started. -/
  | refused (reason : OsError)
  | completed (c : Completion)
  deriving DecidableEq, Repr

/-- What launches programs: the files that it sees, the working directory, the invocation. -/
abbrev Toolbox := FileTree → Location → Invocation → Launch

end CodeTidy
