import CodeTidy.CommandLine.Session
import CodeTidy.Sandbox.Toolbox

/-!
# The command line

The names of the files to work with come on standard input, one a line; the settings files and
the top of the repository above the working directory are looked for besides.  The files are
read into a tree, `Transcript.ofArguments` does the work, and the files that it changed are
written back.
-/

namespace CodeTidy.CommandLine

def fileBytes? (name : String) : IO (Option Bytes) := do
  try
    let content ← IO.FS.readBinFile name
    return some content.data.toList
  catch _ =>
    return none

partial def streamLines (input : IO.FS.Stream) (found : Array String) : IO (Array String) := do
  let line ← input.getLine
  if line.isEmpty then return found
  streamLines input (found.push (String.ofList (Text.trimBreaks line.toList)))

def locationOf (dir : Location) (name : String) : Location :=
  (Path.ofString name).components.foldl
    (fun l c =>
      match c with
      | .root => []
      | .current => l
      | .parent => l.dropLast
      | .normal n => l ++ [n])
    dir

def addFile (dir : Location) (t : FileTree) (name : String) : IO FileTree := do
  match ← fileBytes? name with
  | none => return t
  | some content => return t.put (locationOf dir name) (.file content false)

/-- The files that say where settings come from, in every directory on the way to one. -/
def namesAbove (dir : Location) : List String :=
  ((List.range (dir.length + 1)).map dir.take).flatMap fun (l : Location) =>
    (settingsFileNames ++ [".git/HEAD"]).map fun name =>
      (Path.join l.toPath (Utf8.encode name)).display

def writeChanges (before after : FileTree) : IO Unit := do
  for (l, _) in after.entries do
    match after.content? l with
    | none => pure ()
    | some content =>
      if before.content? l != some content then
        IO.FS.writeBinFile l.toPath.display ⟨content.toArray⟩

end CodeTidy.CommandLine

open CodeTidy CodeTidy.CommandLine

def main (arguments : List String) : IO UInt32 := do
  let here ← IO.currentDir
  let dir := locationOf [] here.toString
  let names ← streamLines (← IO.getStdin) #[]
  let mut tree := FileTree.empty.put dir .dir
  for name in namesAbove dir ++ names.toList do
    tree ← addFile dir tree name
  let site : Site := { files := tree, workingDirectory := dir }
  let t := Transcript.ofArguments Sandbox.toolbox false arguments site
  writeChanges tree t.site.files
  IO.print t.stdout
  IO.eprint t.stderr
  return t.exitCode.toUInt32
