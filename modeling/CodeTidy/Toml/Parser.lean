import CodeTidy.Toml.Quoted
import CodeTidy.Toml.Table

/-!
# Reading TOML documents

`Toml.parse? text` is the table that a document describes, or `none` for a text that is no
document.  A document is a list of statements, each a header or a key with its value, which
build the table one after the other.  Arrays and inline tables nest at most 80 deep.
-/

namespace CodeTidy.Toml

/-! ### Blanks and comments -/

/-- Skips a comment, up to the line break that ends it. -/
def skipComment? : List Char → Option (List Char)
  | '#' :: cs =>
    match cs.dropWhile isPlain with
    | [] => some []
    | '\n' :: rest => some ('\n' :: rest)
    | '\r' :: '\n' :: rest => some ('\n' :: rest)
    | _ => none
  | cs => some cs

def skipSpaces (s : List Char) : List Char :=
  s.dropWhile isSpace

/-- Skips spaces, line breaks and comments; `fuel` bounds the number of lines. -/
def skipLines? : (fuel : Nat) → List Char → Option (List Char)
  | 0, _ => none
  | fuel + 1, s => do
    match ← skipComment? (skipSpaces s) with
    | '\n' :: cs => skipLines? fuel cs
    | '\r' :: '\n' :: cs => skipLines? fuel cs
    | cs => some cs

/-- Skips the rest of a line that has nothing more to say. -/
def endLine? (s : List Char) : Option (List Char) := do
  match ← skipComment? (skipSpaces s) with
  | [] => some []
  | '\n' :: cs => some cs
  | '\r' :: '\n' :: cs => some cs
  | _ => none

/-! ### Keys -/

def isBareChar (c : Char) : Bool :=
  c.isAlphanum || c == '_' || c == '-'

def readPart? (s : List Char) : Option (String × List Char) :=
  match s with
  | '"' :: '"' :: '"' :: _ => none
  | '\'' :: '\'' :: '\'' :: _ => none
  | '"' :: _ => (readLine? s).map fun (k, rest) => (String.ofList k, rest)
  | '\'' :: _ => (readLine? s).map fun (k, rest) => (String.ofList k, rest)
  | _ =>
    if (s.takeWhile isBareChar).isEmpty then none
    else some (String.ofList (s.takeWhile isBareChar), s.dropWhile isBareChar)

/-- Reads a key: the parts before its last dot, and the last one. -/
def readKey? : (fuel : Nat) → List Char → Option ((List String × String) × List Char)
  | 0, _ => none
  | fuel + 1, s => do
    let (part, s) ← readPart? (skipSpaces s)
    match skipSpaces s with
    | '.' :: cs =>
      let ((path, key), rest) ← readKey? fuel cs
      some ((part :: path, key), rest)
    | cs => some (([], part), cs)

/-! ### Values -/

/-- How deep arrays and inline tables may nest. -/
def maxDepth : Nat := 80

mutual

/-- Reads a value; `depth` containers may still be opened. -/
def readValue? : (fuel depth : Nat) → List Char → Option (Toml × List Char)
  | 0, _, _ => none
  | fuel + 1, depth, s =>
    match s with
    | '"' :: _ => (readQuoted? s).map fun (t, rest) => (.string (String.ofList t), rest)
    | '\'' :: _ => (readQuoted? s).map fun (t, rest) => (.string (String.ofList t), rest)
    | '[' :: cs =>
      if depth = 0 then none
      else (readItems? fuel (depth - 1) cs).map fun (items, rest) => (.array items, rest)
    | '{' :: cs =>
      if depth = 0 then none
      else
        (readPairs? fuel (depth - 1) [] cs).map fun (nodes, rest) =>
          (.table (toEntries nodes), rest)
    | _ => readLiteral? s

/-- Reads the items of an array and its closing bracket. -/
def readItems? : (fuel depth : Nat) → List Char → Option (List Toml × List Char)
  | 0, _, _ => none
  | fuel + 1, depth, s =>
    match skipLines? (s.length + 1) s with
    | none => none
    | some (']' :: cs) => some ([], cs)
    | some cs =>
      match readValue? fuel depth cs with
      | none => none
      | some (item, cs) =>
        match skipLines? (cs.length + 1) cs with
        | some (',' :: cs) =>
          (readItems? fuel depth cs).map fun (items, rest) => (item :: items, rest)
        | some (']' :: cs) => some ([item], cs)
        | _ => none

/-- Reads the pairs of an inline table and its closing brace. -/
def readPairs? : (fuel depth : Nat) → Nodes → List Char → Option (Nodes × List Char)
  | 0, _, _, _ => none
  | fuel + 1, depth, nodes, s =>
    match skipLines? (s.length + 1) s with
    | none => none
    | some ('}' :: cs) => some (nodes, cs)
    | some cs =>
      match readKey? (cs.length + 1) cs with
      | some ((path, key), '=' :: cs) =>
        match readValue? fuel depth (skipSpaces cs) with
        | none => none
        | some (value, cs) =>
          match nodes.set? path key (.value value), skipLines? (cs.length + 1) cs with
          | some nodes, some (',' :: cs) => readPairs? fuel depth nodes cs
          | some nodes, some ('}' :: cs) => some (nodes, cs)
          | _, _ => none
      | _ => none

end

/-! ### Statements -/

/-- A line of a document that says something. -/
inductive Statement where
  | table (path : List String) (key : String)
  | element (path : List String) (key : String)
  | pair (path : List String) (key : String) (value : Toml)
  deriving Repr

/-- Reads a header after its opening brackets, up to and with the closing ones. -/
def readHeader? (close : List Char) (s : List Char) :
    Option ((List String × String) × List Char) := do
  let (key, s) ← readKey? (s.length + 1) s
  if close.isPrefixOf s then some (key, s.drop close.length) else none

def readStatement? (s : List Char) : Option (Statement × List Char) :=
  match s with
  | '[' :: '[' :: cs => do
    let ((path, key), rest) ← readHeader? [']', ']'] cs
    some (.element path key, ← endLine? rest)
  | '[' :: cs => do
    let ((path, key), rest) ← readHeader? [']'] cs
    some (.table path key, ← endLine? rest)
  | _ => do
    match ← readKey? (s.length + 1) s with
    | ((path, key), '=' :: cs) =>
      let (value, rest) ← readValue? (2 * s.length + 1) maxDepth (skipSpaces cs)
      some (.pair path key value, ← endLine? rest)
    | _ => none

def readStatements? : (fuel : Nat) → List Char → Option (List Statement)
  | 0, _ => none
  | fuel + 1, s =>
    match skipLines? (s.length + 1) s with
    | none => none
    | some [] => some []
    | some (c :: cs) =>
      match readStatement? (c :: cs) with
      | none => none
      | some (statement, rest) => (readStatements? fuel rest).map (statement :: ·)

/-- Builds the table of a document; `current` is the path of the table that is open. -/
def build? (nodes : Nodes) (current : List String) : List Statement → Option Nodes
  | [] => some nodes
  | .table path key :: rest =>
    match nodes.openTable? path key with
    | none => none
    | some nodes => build? nodes (path ++ [key]) rest
  | .element path key :: rest =>
    match nodes.openElement? path key with
    | none => none
    | some nodes => build? nodes (path ++ [key]) rest
  | .pair path key value :: rest =>
    match nodes.modify false (fun _ inner => inner.set? path key (.value value)) current
        .header with
    | none => none
    | some nodes => build? nodes current rest

/-- The text after a byte order mark. -/
def dropMark : List Char → List Char
  | '\ufeff' :: cs => cs
  | cs => cs

def parse? (text : List Char) : Option Entries := do
  let s := dropMark text
  let statements ← readStatements? (s.length + 1) s
  return toEntries (← build? [] [] statements)

end CodeTidy.Toml
