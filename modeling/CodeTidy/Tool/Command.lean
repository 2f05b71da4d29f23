import CodeTidy.Text.Lines
import CodeTidy.Tool.Catalog

/-!
# The words of a tool's command

The first word is the program; in each of the others the placeholder stands for the path of the
file that is worked on.
-/

namespace CodeTidy.CommandWords

/-- The program, if the command is not empty. -/
def program? (words : CommandWords) : Option String :=
  words.head?

def arguments (words : CommandWords) (filename : String) : List String :=
  (words.drop 1).map fun word =>
    String.ofList (Text.replaceAll Tool.placeholder.toList filename.toList word.toList)

end CodeTidy.CommandWords
