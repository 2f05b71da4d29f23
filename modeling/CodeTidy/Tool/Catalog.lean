import CodeTidy.Settings.Config

/-!
# The commands of the external tools

Every tool reads what it works on from its standard input and writes its result to its standard
output.  `Config.commandOf? id` is the command of a tool: the one that the settings give, or
else the one that is built from the tool's section.
-/

namespace CodeTidy

inductive Tool where
  | isort
  | black
  | flake8
  deriving DecidableEq, Repr

namespace Tool

/-- The name by which settings refer to the tool. -/
def id : Tool → String
  | isort => "isort"
  | black => "black"
  | flake8 => "flake8"

def all : List Tool :=
  [isort, black, flake8]

def ofId? (id : String) : Option Tool :=
  all.find? (·.id == id)

/-- What stands in a command for the path of the file. -/
def placeholder : String := "\x7bfilename\x7d"

/-- How the checker is told to print a finding. -/
def findingFormat : String := "%(row)d:%(col)d:%(code)s:%(text)s"

/-- The command built from the tool's section. -/
def builtin (config : Sections) : Tool → CommandWords
  | isort =>
    ["isort", "--quiet"]
      ++ (config.isort.profile.elim [] fun profile => ["--profile", profile])
      ++ ["--filename", placeholder, "-"]
  | black =>
    ["black", "--quiet", "--line-length", toString config.black.lineLength]
      ++ config.black.targetVersions.flatMap (fun v => ["--target-version", v])
      ++ (if config.black.preview then ["--preview"] else [])
      ++ (if config.black.unstable then ["--unstable"] else [])
      ++ ["--stdin-filename", placeholder, "-"]
  | flake8 =>
    ["flake8", "--format=" ++ findingFormat]
      ++ (if 0 < config.flake8.maxComplexity then
            ["--max-complexity=" ++ toString config.flake8.maxComplexity]
          else [])
      ++ ["--stdin-display-name", placeholder, "-"]

end Tool

namespace Sections

/-- Whether the settings give a tool's command. -/
def overrides (config : Sections) (id : String) : Bool :=
  (config.general.tools.lookup id).isSome

def commandOf? (config : Sections) (id : String) : Option CommandWords :=
  (config.general.tools.lookup id).or ((Tool.ofId? id).map (Tool.builtin config))

/-- The command of one of the tools. -/
def command (config : Sections) (tool : Tool) : CommandWords :=
  (config.general.tools.lookup tool.id).getD (tool.builtin config)

end Sections

end CodeTidy
