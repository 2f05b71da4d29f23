import CodeTidy.Settings.Config
import CodeTidy.Settings.TargetVersion
import CodeTidy.Toml.Parser

/-!
# Settings from a TOML document

The sections stand under `tool`.  A section is a table of fields, or an array that gives the
values of its fields in order; a field may have two spellings but only one of them at a time.
Keys that are no field are passed over.  `Config.ofToml` reads a document, and
`Config.unknownKeysOf` reports the keys that are not in a list of their own, kept beside the fields.
-/

namespace CodeTidy

open CodeTidy.Text

/-- Why a document gives no settings. -/
inductive DocumentError where
  /-- It is no TOML document, or a value has the wrong type. -/
  | malformed
  /-- A value has the right type but is not accepted. -/
  | rejected (reason : String)
  deriving DecidableEq, Repr

def DocumentError.message : DocumentError → String
  | malformed => "TOML parse error"
  | rejected reason => "TOML parse error: " ++ reason

namespace Settings

abbrev Decoded (α : Type) := Except DocumentError α

/-! ### Values -/

def boolean : Toml → Decoded Bool
  | .boolean b => .ok b
  | _ => .error .malformed

def string : Toml → Decoded String
  | .string s => .ok s
  | _ => .error .malformed

def integer : Toml → Decoded Int
  | .integer i => .ok i
  | _ => .error .malformed

def natural : Toml → Decoded Nat
  | .integer (.ofNat n) => .ok n
  | _ => .error .malformed

def strings : Toml → Decoded (List String)
  | .array items => items.mapM string
  | _ => .error .malformed

inductive OneOrMany where
  | one (s : String)
  | many (ss : List String)
  deriving DecidableEq, Repr

def oneOrMany : Toml → Decoded OneOrMany
  | .string s => .ok (.one s)
  | v => (strings v).map .many

/-! ### Records -/

/-- A field of a section: its spellings, and what its value does to the section. -/
structure Field (σ : Type) where
  names : List String
  set : Toml → σ → Decoded σ

/-- Sets the fields from entries in order.  `seen` holds the fields that are set already, by
their first spelling. -/
def setEntries {σ : Type} (fields : List (Field σ)) (seen : List String) (state : σ) :
    Toml.Entries → Decoded σ
  | [] => .ok state
  | (key, value) :: rest =>
    match fields.find? (·.names.contains key) with
    | none => setEntries fields seen state rest
    | some field =>
      let name := field.names.headD ""
      if seen.contains name then .error .malformed
      else
        match field.set value state with
        | .error e => .error e
        | .ok state => setEntries fields (name :: seen) state rest

/-- Sets the fields from values in the order of the fields; values beyond them are passed
over. -/
def setItems {σ : Type} (state : σ) : List (Field σ) → List Toml → Decoded σ
  | field :: fields, value :: values =>
    match field.set value state with
    | .error e => .error e
    | .ok state => setItems state fields values
  | _, _ => .ok state

/-- Reads a section, starting from its default. -/
def record {σ : Type} (fields : List (Field σ)) (initial : σ) (value : Toml) : Decoded σ :=
  match value with
  | .array items => setItems initial fields items
  | value =>
    match value.fields? with
    | some entries => setEntries fields [] initial entries
    | none => .error .malformed

/-- A field that is read by `decode` and stored by `store`. -/
def field {σ α : Type} (names : List String) (decode : Toml → Decoded α) (store : α → σ → σ) :
    Field σ :=
  ⟨names, fun value state => (decode value).map fun a => store a state⟩

/-! ### The general section -/

/-- A tool has to have a command. -/
def toolCommand (value : Toml) : Decoded CommandWords := do
  match ← record [field ["command"] strings fun c _ => some c] none value with
  | some command => .ok command
  | none => .error .malformed

def tools (value : Toml) : Decoded (List (String × CommandWords)) :=
  match value.fields? with
  | some entries => entries.mapM fun e => (toolCommand e.2).map fun command => (e.1, command)
  | none => .error .malformed

def generalFields : List (Field GeneralSettings) :=
  [field ["exclude"] strings fun v s => { s with exclude := v },
   field ["respect-gitignore"] boolean fun v s => { s with respectGitignore := v },
   field ["timeout"] natural fun v s => { s with timeout := v },
   field ["strip-metadata-keys"] strings fun v s => { s with stripMetadataKeys := v },
   field ["tools"] tools fun v s => { s with tools := v }]

def general : Toml → Decoded GeneralSettings :=
  record generalFields {}

/-! ### The sections of the tools -/

def isortFields : List (Field IsortSettings) :=
  [field ["profile"] string fun v s => { s with profile := some v }]

def isort : Toml → Decoded IsortSettings :=
  record isortFields {}

/-- The section of the formatter as it is written. -/
structure RawBlack where
  lineLength : Option Nat := none
  targetVersions : Option OneOrMany := none
  preview : Bool := false
  unstable : Bool := false

def blackFields : List (Field RawBlack) :=
  [field ["line-length", "line_length"] natural fun v s => { s with lineLength := some v },
   field ["target-version", "target_version"] oneOrMany fun v s =>
     { s with targetVersions := some v },
   field ["preview"] boolean fun v s => { s with preview := v },
   field ["unstable"] boolean fun v s => { s with unstable := v }]

def targetVersion (value : String) : Decoded String :=
  match TargetVersion.normalize? value with
  | some v => .ok v
  | none => .error (.rejected (TargetVersion.unsupported value))

def targetVersions : Option OneOrMany → Decoded (List String)
  | none => .ok ({} : BlackSettings).targetVersions
  | some (.one v) => (targetVersion v).map ([·])
  | some (.many vs) => vs.mapM targetVersion

def zeroLineLength : String :=
  "black line-length must be greater than 0"

/-- Checks the target versions, and then the line length. -/
def finishBlack (raw : RawBlack) : Decoded BlackSettings := do
  let versions ← targetVersions raw.targetVersions
  let lineLength := raw.lineLength.getD ({} : BlackSettings).lineLength
  if lineLength = 0 then .error (.rejected zeroLineLength)
  else .ok ⟨lineLength, versions, raw.preview, raw.unstable⟩

def black (value : Toml) : Decoded BlackSettings :=
  record blackFields {} value >>= finishBlack

/-- The ignores by file as they are written. -/
inductive RawFileIgnores where
  | lines (text : String)
  | table (entries : List (String × OneOrMany))

def fileIgnores : Toml → Decoded RawFileIgnores
  | .string s => .ok (.lines s)
  | value =>
    match value.fields? with
    | some entries =>
      (entries.mapM fun e => (oneOrMany e.2).map fun codes => (e.1, codes)).map .table
    | none => .error .malformed

/-- The section of the checker as it is written. -/
structure RawFlake8 where
  maxComplexity : Int := -1
  extendIgnore : Option OneOrMany := none
  perFileIgnores : Option RawFileIgnores := none

def flake8Fields : List (Field RawFlake8) :=
  [field ["max-complexity", "max_complexity"] integer fun v s => { s with maxComplexity := v },
   field ["extend-ignore", "extend_ignore"] oneOrMany fun v s =>
     { s with extendIgnore := some v },
   field ["per-file-ignores", "per_file_ignores"] fileIgnores fun v s =>
     { s with perFileIgnores := some v }]

/-- The codes that are ignored everywhere: a string is split, the strings of an array are only
trimmed. -/
def extendIgnore : Option OneOrMany → List String
  | none => []
  | some (.one codes) => splitCodes codes.toList
  | some (.many codes) => codes.map trimString

/-- The codes of one file in a table: a string is split, an array taken as it is. -/
def codesOf : OneOrMany → List String
  | .one codes => splitCodes codes.toList
  | .many codes => codes

def perFileIgnores : Option RawFileIgnores → Decoded FileIgnores
  | none => .ok []
  | some (.lines text) =>
    match FileIgnores.parse text.toList with
    | .ok ignores => .ok ignores
    | .error line => .error (.rejected (FileIgnores.invalidEntry line))
  | some (.table entries) => .ok (entries.map fun (file, codes) => (file, codesOf codes))

def finishFlake8 (raw : RawFlake8) : Decoded Flake8Settings :=
  (perFileIgnores raw.perFileIgnores).map fun files =>
    ⟨raw.maxComplexity, extendIgnore raw.extendIgnore, files⟩

def flake8 (value : Toml) : Decoded Flake8Settings :=
  record flake8Fields {} value >>= finishFlake8

/-! ### Whole documents -/

def sectionFields : List (Field Sections) :=
  [field ["colint"] general fun v s => { s with general := v },
   field ["isort"] isort fun v s => { s with isort := v },
   field ["black"] black fun v s => { s with black := v },
   field ["flake8"] flake8 fun v s => { s with flake8 := v }]

def sections (document : Toml) : Decoded Sections :=
  record [⟨["tool"], fun value _ => record sectionFields {} value⟩] {} document

def checkedSections : List String :=
  ["colint", "isort", "black", "flake8"]

/-- The keys that are understood in a section, with their other spellings. -/
def knownKeys : String → List String
  | "colint" => ["exclude", "respect-gitignore", "timeout", "strip-metadata-keys", "tools"]
  | "isort" => ["profile"]
  | "black" =>
    ["line-length", "line_length", "target-version", "target_version", "preview", "unstable"]
  | "flake8" =>
    ["max-complexity", "max_complexity", "extend-ignore", "extend_ignore", "per-file-ignores",
     "per_file_ignores"]
  | _ => []

def unknownIn (tool : Toml.Entries) (name : String) : List (String × String) :=
  match tool.lookup name >>= Toml.table? with
  | none => []
  | some entries =>
    (entries.filter fun e => !(knownKeys name).contains e.1).map fun e => (name, e.1)

end Settings

namespace Config

/-- The keys of the sections that mean nothing, section by section. -/
def unknownKeysOf (document : Toml.Entries) : List (String × String) :=
  match document.lookup "tool" >>= Toml.table? with
  | none => []
  | some tool => Settings.checkedSections.flatMap (Settings.unknownIn tool)

def ofDocument (document : Toml.Entries) : Except DocumentError Config :=
  (Settings.sections (.table document)).map fun sections =>
    { sections with unknownKeys := unknownKeysOf document }

def ofToml (text : String) : Except DocumentError Config :=
  match Toml.parse? text.toList with
  | none => .error .malformed
  | some document => ofDocument document

end Config

end CodeTidy
