import CodeTidy.Text.Lines

/-!
# Ignore lists

The codes that a checker's findings are dropped for, either everywhere or in files of one name.
A list of codes is written with commas; `FileIgnores.parse` reads the form with one
`file: CODE, CODE` entry a line.
-/

namespace CodeTidy

open CodeTidy.Text

/-- The codes of a comma-separated list, trimmed, without the blank ones. -/
def splitCodes (codes : List Char) : List String :=
  (((splitAtEach ',' codes).map trim).filter (!·.isEmpty)).map String.ofList

/-- Code prefixes by file name, in the order in which the names first occur. -/
abbrev FileIgnores := List (String × List String)

namespace FileIgnores

def add (file : String) (codes : List String) : FileIgnores → FileIgnores
  | [] => [(file, codes)]
  | (f, cs) :: rest => if f = file then (f, cs ++ codes) :: rest else (f, cs) :: add file codes rest

def set (file : String) (codes : List String) : FileIgnores → FileIgnores
  | [] => [(file, codes)]
  | (f, cs) :: rest => if f = file then (f, codes) :: rest else (f, cs) :: set file codes rest

def codesFor (ignores : FileIgnores) (file : String) : List String :=
  (ignores.lookup file).getD []

/-- The file and the codes of an entry: one colon, and before it a name. -/
def entry? (line : List Char) : Option (String × List String) :=
  match splitOnce ':' line with
  | none => none
  | some (file, codes) =>
    if (trim file).isEmpty ∨ codes.contains ':' then none
    else some (String.ofList (trim file), splitCodes codes)

/-- Adds the entries of some lines; a line that is none is the error, trimmed. -/
def addLines (ignores : FileIgnores) : List (List Char) → Except (List Char) FileIgnores
  | [] => .ok ignores
  | line :: rest =>
    if line.all isBlank then addLines ignores rest
    else
      match entry? line with
      | none => .error (trim line)
      | some (file, codes) => addLines (ignores.add file codes) rest

/-- Reads one entry a line, skipping blank lines. -/
def parse (text : List Char) : Except (List Char) FileIgnores :=
  addLines [] (lines text)

def invalidEntry (line : List Char) : String :=
  "Invalid per-file-ignores entry: '" ++ String.ofList line ++ "'"

end FileIgnores

end CodeTidy
