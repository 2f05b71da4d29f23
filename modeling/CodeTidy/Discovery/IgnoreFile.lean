import CodeTidy.Glob.Match
import CodeTidy.Text.Lines

/-!
# Ignore files

An ignore file has one pattern a line.  A pattern with a slash in it is matched against the path
below the file's directory, any other against the last component; a slash at the end asks for a
directory, and an exclamation mark at the start takes files back.  The last rule that matches
decides (`IgnoreFile.verdict`).
-/

namespace CodeTidy

open CodeTidy.Text

/-- What the rules say about a path. -/
inductive Verdict where
  | ignored
  | wanted
  deriving DecidableEq, Repr

/-- A line of an ignore file. -/
structure IgnoreRule where
  glob : Glob
  verdict : Verdict
  onlyDirectories : Bool
  deriving Repr

/-- The rules of an ignore file, in order. -/
abbrev IgnoreFile := List IgnoreRule

/-- A line that is no pattern: its number, from one, the line, and what is wrong with it. -/
structure IgnoreFault where
  line : Nat
  text : String
  error : GlobError
  deriving DecidableEq, Repr

namespace IgnoreRule

/-- In an ignore file `?` and `*` stay within a component. -/
def options : GlobOptions :=
  ⟨true, true⟩

/-- Drops the blanks at the end of a line unless a backslash protects the last of them. -/
def trimLine (line : List Char) : List Char :=
  if ['\\', ' '].isSuffixOf line then line else trimEnd line

/-- The pattern that is matched for the text of a rule.  Without a slash it may match below any
directory; a `/**` at the end matches what is inside a directory but not the directory. -/
def patternOf (anchored : Bool) (text : List Char) : List Char :=
  let floating := !anchored && !text.contains '/' && text != ['*', '*']
  let pattern := if floating then '*' :: '*' :: '/' :: text else text
  if ['/', '*', '*'].isSuffixOf pattern then pattern ++ ['/', '*'] else pattern

/-- Splits off the marks before a pattern: the verdict, whether the pattern is anchored, and its
text. -/
def readMarks (line : List Char) : Verdict × Bool × List Char :=
  match line with
  | '\\' :: '!' :: cs => (.ignored, false, '!' :: cs)
  | '\\' :: '#' :: cs => (.ignored, false, '#' :: cs)
  | '!' :: '/' :: cs => (.wanted, true, cs)
  | '!' :: cs => (.wanted, false, cs)
  | '/' :: cs => (.ignored, true, cs)
  | cs => (.ignored, false, cs)

/-- Splits off a slash at the end, and the backslash before it. -/
def readEnd (text : List Char) : Bool × List Char :=
  match text.reverse with
  | '/' :: '\\' :: r => (true, r.reverse)
  | '/' :: r => (true, r.reverse)
  | _ => (false, text)

/-- The rule of a line; `none` for a line that is empty or a comment. -/
def ofLine? (line : List Char) : Except GlobError (Option IgnoreRule) :=
  if line.head? = some '#' then .ok none
  else
    let line := trimLine line
    if line.isEmpty then .ok none
    else
      let (verdict, anchored, text) := readMarks line
      let (onlyDirectories, text) := readEnd text
      match Glob.parse options (patternOf anchored text) with
      | .error e => .error e
      | .ok glob => .ok (some ⟨glob, verdict, onlyDirectories⟩)

/-- Whether the rule applies to a path below the directory of its file. -/
def appliesTo (r : IgnoreRule) (path : Bytes) (isDir : Bool) : Bool :=
  (!r.onlyDirectories || isDir) && r.glob.matchesPath path

end IgnoreRule

namespace IgnoreFile

/-- What the rules say about a path; the last that applies decides. -/
def verdict? (rules : IgnoreFile) (path : Bytes) (isDir : Bool) : Option Verdict :=
  (rules.reverse.find? (·.appliesTo path isDir)).map (·.verdict)

/-- Cuts bytes after each line feed. -/
def bytePieces : Bytes → List Bytes
  | [] => []
  | b :: bs =>
    if b = 10 then [b] :: bytePieces bs
    else
      match bytePieces bs with
      | [] => [[b]]
      | p :: ps => (b :: p) :: ps

/-- The lines of a file up to the first that is not text, without their terminators. -/
def textLines : List Bytes → List (List Char)
  | [] => []
  | p :: ps =>
    match Utf8.decode? p with
    | none => []
    | some s => dropTerminator s.toList :: textLines ps

/-- Reads the lines from the one with number `number` on. -/
def ofLines (number : Nat) : List (List Char) → IgnoreFile × List IgnoreFault
  | [] => ([], [])
  | line :: rest =>
    let (rules, faults) := ofLines (number + 1) rest
    match IgnoreRule.ofLine? line with
    | .ok none => (rules, faults)
    | .ok (some rule) => (rule :: rules, faults)
    | .error e =>
      let text := String.ofList (IgnoreRule.trimLine line)
      (rules, ⟨number, text, e⟩ :: faults)

/-- Drops the byte order marks before the first line. -/
def dropMarks : List (List Char) → List (List Char)
  | [] => []
  | line :: rest => line.dropWhile (· == '\ufeff') :: rest

/-- The rules of a file and the lines that are none. -/
def ofBytes (content : Bytes) : IgnoreFile × List IgnoreFault :=
  ofLines 1 (dropMarks (textLines (bytePieces content)))

end IgnoreFile

def IgnoreFault.message (f : IgnoreFault) (file : String) : String :=
  file ++ ": line " ++ toString f.line ++ ": " ++ f.error.message f.text

end CodeTidy
