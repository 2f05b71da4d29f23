import CodeTidy.Sandbox.Octets

/-!
# Shell scripts

The part of the shell language that filters are written in: simple commands with quoting,
parameters and redirections, pipelines, lists, groups, subshells, conditions and loops.
`Script.parse?` reads a script.
-/

namespace CodeTidy.Sandbox

/-- What a redirection connects a stream with. -/
inductive Connection where
  /-- Another stream, named by its number. -/
  | stream
  | input
  | output
  /-- The end of a file. -/
  | appended
  deriving DecidableEq, Repr

mutual

/-- A part of a word. -/
inductive Piece where
  | text (s : Octets)
  | parameter (name : Octets) (quoted : Bool)
  /-- What a script prints. -/
  | output (body : Script) (quoted : Bool)

/-- A redirection of the stream with a number. -/
inductive Redirection where
  | mk (stream : Nat) (connection : Connection) (target : List Piece)

inductive Script where
  | nothing
  | command (assignments : List (Octets × List Piece)) (words : List (List Piece))
      (redirections : List Redirection)
  | pipe (left right : Script)
  | sequence (first second : Script)
  /-- The second script runs if the first succeeds. -/
  | ifSucceeds (first second : Script)
  /-- The second script runs if the first fails. -/
  | ifFails (first second : Script)
  | negated (s : Script)
  | group (s : Script) (redirections : List Redirection)
  | subshell (s : Script) (redirections : List Redirection)
  | choose (condition yes no : Script)
  /-- A loop that goes on while its condition succeeds, or fails. -/
  | loop (succeeds : Bool) (condition body : Script)
  | forEach (name : Octets) (words : List (List Piece)) (body : Script)

end

namespace Script

/-! ### Characters -/

def isBlank (c : Char) : Bool :=
  c == ' ' || c == '\t'

/-- The characters that end a word. -/
def isMeta (c : Char) : Bool :=
  isBlank c || "\n;&|<>()".toList.contains c

def isNameStart (c : Char) : Bool :=
  c.isAlpha || c == '_'

def isNameChar (c : Char) : Bool :=
  c.isAlphanum || c == '_'

/-- The parameters with names of one character that is no letter. -/
def isSpecial (c : Char) : Bool :=
  c.isDigit || "@*#?$!-".toList.contains c

/-- Skips blanks and broken lines. -/
def skipBlanks : Octets → Octets
  | '\\' :: '\n' :: rest => skipBlanks rest
  | c :: rest => if isBlank c then skipBlanks rest else c :: rest
  | [] => []

/-- Skips blanks, newlines, semicolons if `semicolons` says so, and comments. -/
def skipLines (semicolons : Bool) : (fuel : Nat) → Octets → Octets
  | 0, s => s
  | fuel + 1, s =>
    match skipBlanks s with
    | '\n' :: rest => skipLines semicolons fuel rest
    | ';' :: rest => if semicolons then skipLines semicolons fuel rest else ';' :: rest
    | '#' :: rest => skipLines semicolons fuel (rest.dropWhile (· != '\n'))
    | rest => rest

/-- The plain word with which a text begins. -/
def plainWord (s : Octets) : Octets :=
  s.takeWhile fun c => !isMeta c

/-- The words that end a list of commands. -/
def closers : List Octets :=
  ["\x7d", "fi", "then", "else", "elif", "do", "done", "esac"].map String.toList

/-- Whether a list of commands ends here. -/
def atEnd (s : Octets) : Bool :=
  s.isEmpty || s.head? == some ')' || closers.contains (plainWord s)

def keyword? (word : String) (s : Octets) : Option Octets :=
  let s := skipLines true (s.length + 1) s
  if plainWord s = word.toList then some (s.drop word.length) else none

/-! ### Syntax -/

mutual

/-- Reads what follows a dollar. -/
def dollar? (quoted : Bool) : (fuel : Nat) → Octets → Option (Piece × Octets)
  | 0, _ => none
  | fuel + 1, s =>
    match s with
    | '(' :: rest =>
      match list? fuel rest with
      | some (body, rest) =>
        match skipLines true (rest.length + 1) rest with
        | ')' :: rest => some (.output body quoted, rest)
        | _ => none
      | none => none
    | '\x7b' :: rest =>
      let name := rest.takeWhile (· != '\x7d')
      match rest.drop name.length with
      | _ :: rest =>
        if (name.head?.any isNameStart && name.all isNameChar)
            || (name.length == 1 && name.all isSpecial)
            || (!name.isEmpty && name.all Char.isDigit) then
          some (.parameter name quoted, rest)
        else none
      | [] => none
    | c :: rest =>
      if isNameStart c then
        let name := s.takeWhile isNameChar
        some (.parameter name quoted, s.drop name.length)
      else if isSpecial c then some (.parameter [c] quoted, rest)
      else some (.text ['$'], s)
    | [] => some (.text ['$'], [])

/-- Reads a substitution in backquotes. -/
def backquoted? (quoted : Bool) : (fuel : Nat) → Octets → Option (Piece × Octets)
  | 0, _ => none
  | fuel + 1, s =>
    let body := s.takeWhile (· != '\x60')
    match s.drop body.length, list? fuel body with
    | _ :: rest, some (script, []) => some (.output script quoted, rest)
    | _, _ => none

/-- Reads pieces up to the closing double quote. -/
def doubleQuoted? (found : List Piece) : (fuel : Nat) → Octets → Option (List Piece × Octets)
  | 0, _ => none
  | fuel + 1, s =>
    match s with
    | [] => none
    | '\x22' :: rest => some (if found.isEmpty then [.text []] else found, rest)
    | '\\' :: '\n' :: rest => doubleQuoted? found fuel rest
    | '\\' :: c :: rest =>
      if c = '$' ∨ c = '\x60' ∨ c = '\x22' ∨ c = '\\' then
        doubleQuoted? (found ++ [.text [c]]) fuel rest
      else doubleQuoted? (found ++ [.text ['\\', c]]) fuel rest
    | '$' :: rest =>
      match dollar? true fuel rest with
      | some (piece, rest) => doubleQuoted? (found ++ [piece]) fuel rest
      | none => none
    | '\x60' :: rest =>
      match backquoted? true fuel rest with
      | some (piece, rest) => doubleQuoted? (found ++ [piece]) fuel rest
      | none => none
    | s =>
      let text := s.takeWhile fun c => !"\x22\\$\x60".toList.contains c
      doubleQuoted? (found ++ [.text text]) fuel (s.drop text.length)

def word? (found : List Piece) : (fuel : Nat) → Octets → Option (List Piece × Octets)
  | 0, _ => none
  | fuel + 1, s =>
    match s with
    | [] => some (found, [])
    | '\x27' :: rest =>
      let text := rest.takeWhile (· != '\x27')
      match rest.drop text.length with
      | [] => none
      | _ :: rest => word? (found ++ [.text text]) fuel rest
    | '\x22' :: rest =>
      match doubleQuoted? [] fuel rest with
      | some (pieces, rest) => word? (found ++ pieces) fuel rest
      | none => none
    | '\\' :: '\n' :: rest => word? found fuel rest
    | '\\' :: c :: rest => word? (found ++ [.text [c]]) fuel rest
    | '$' :: rest =>
      match dollar? false fuel rest with
      | some (piece, rest) => word? (found ++ [piece]) fuel rest
      | none => none
    | '\x60' :: rest =>
      match backquoted? false fuel rest with
      | some (piece, rest) => word? (found ++ [piece]) fuel rest
      | none => none
    | c :: rest =>
      if isMeta c then some (found, c :: rest)
      else
        let text := s.takeWhile fun c => !isMeta c && !"\x27\x22\\$\x60".toList.contains c
        if text.isEmpty then word? (found ++ [.text [c]]) fuel rest
        else word? (found ++ [.text text]) fuel (s.drop text.length)

/-- Reads a redirection, if one stands here. -/
def redirection? : (fuel : Nat) → Octets → Option (Option Redirection × Octets)
  | 0, _ => none
  | fuel + 1, s =>
    let digits := s.takeWhile Char.isDigit
    let stream (standard : Nat) : Nat := (Octets.nat? digits).getD standard
    let reading (standard : Nat) (connection : Connection) (rest : Octets) :
        Option (Option Redirection × Octets) :=
      match word? [] fuel (skipBlanks rest) with
      | some ([], _) => none
      | some (target, rest) => some (some (.mk (stream standard) connection target), rest)
      | none => none
    match s.drop digits.length with
    | '>' :: '&' :: rest => reading 1 .stream rest
    | '>' :: '>' :: rest => reading 1 .appended rest
    | '>' :: '|' :: rest => reading 1 .output rest
    | '>' :: rest => reading 1 .output rest
    | '<' :: '&' :: rest => reading 0 .stream rest
    | '<' :: '<' :: _ => none
    | '<' :: rest => reading 0 .input rest
    | _ => some (none, s)

/-- Reads the redirections after a compound command. -/
def redirections? (found : List Redirection) :
    (fuel : Nat) → Octets → Option (List Redirection × Octets)
  | 0, _ => none
  | fuel + 1, s =>
    match redirection? fuel (skipBlanks s) with
    | none => none
    | some (none, rest) => some (found, rest)
    | some (some r, rest) => redirections? (found ++ [r]) fuel rest

def words? (found : List (List Piece)) :
    (fuel : Nat) → Octets → Option (List (List Piece) × Octets)
  | 0, _ => none
  | fuel + 1, s =>
    match word? [] fuel (skipBlanks s) with
    | none => none
    | some ([], rest) => some (found, rest)
    | some (w, rest) => words? (found ++ [w]) fuel rest

def simple? (assignments : List (Octets × List Piece)) (words : List (List Piece))
    (redirections : List Redirection) : (fuel : Nat) → Octets → Option (Script × Octets)
  | 0, _ => none
  | fuel + 1, s =>
    let s := skipBlanks s
    match redirection? fuel s with
    | none => none
    | some (some r, rest) => simple? assignments words (redirections ++ [r]) fuel rest
    | some (none, _) =>
      let name := s.takeWhile isNameChar
      match words, s.drop name.length with
      | [], '=' :: rest =>
        if name.head?.any isNameStart then
          match word? [] fuel rest with
          | some (value, rest) =>
            simple? (assignments ++ [(name, value)]) words redirections fuel rest
          | none => none
        else none
      | _, _ =>
        if s.head? = some '#' then some (.command assignments words redirections, s)
        else
          match word? [] fuel s with
          | none => none
          | some ([], rest) =>
            if assignments.isEmpty ∧ words.isEmpty ∧ redirections.isEmpty then none
            else some (.command assignments words redirections, rest)
          | some (w, rest) => simple? assignments (words ++ [w]) redirections fuel rest

/-- Reads the branches after the condition of a choice. -/
def branches? : (fuel : Nat) → Octets → Option (Script × Octets)
  | 0, _ => none
  | fuel + 1, s =>
    match keyword? "fi" s with
    | some rest => some (.nothing, rest)
    | none =>
      match keyword? "else" s with
      | some rest =>
        match list? fuel rest with
        | some (no, rest) => (keyword? "fi" rest).map fun rest => (no, rest)
        | none => none
      | none =>
        match keyword? "elif" s with
        | some rest => choice? fuel rest
        | none => none

/-- Reads a choice after its first keyword. -/
def choice? : (fuel : Nat) → Octets → Option (Script × Octets)
  | 0, _ => none
  | fuel + 1, s =>
    match list? fuel s with
    | none => none
    | some (condition, rest) =>
      match keyword? "then" rest with
      | none => none
      | some rest =>
        match list? fuel rest with
        | none => none
        | some (yes, rest) =>
          (branches? fuel rest).map fun (no, rest) => (.choose condition yes no, rest)

def body? : (fuel : Nat) → Octets → Option (Script × Octets)
  | 0, _ => none
  | fuel + 1, s =>
    match keyword? "do" s with
    | none => none
    | some rest =>
      match list? fuel rest with
      | none => none
      | some (body, rest) => (keyword? "done" rest).map fun rest => (body, rest)

def command? : (fuel : Nat) → Octets → Option (Script × Octets)
  | 0, _ => none
  | fuel + 1, s =>
    let s := skipBlanks s
    let word := plainWord s
    let rest := s.drop word.length
    let redirected (make : List Redirection → Script) (rest : Octets) :
        Option (Script × Octets) :=
      (redirections? [] fuel rest).map fun (rs, rest) => (make rs, rest)
    match s with
    | '(' :: rest =>
      match list? fuel rest with
      | some (body, rest) =>
        match skipLines true (rest.length + 1) rest with
        | ')' :: rest => redirected (.subshell body) rest
        | _ => none
      | none => none
    | _ =>
      match String.ofList word with
      | "\x7b" =>
        match list? fuel rest with
        | some (body, rest) =>
          match keyword? "\x7d" rest with
          | some rest => redirected (.group body) rest
          | none => none
        | none => none
      | "if" =>
        match choice? fuel rest with
        | some (body, rest) => redirected (.group body) rest
        | none => none
      | "while" =>
        match list? fuel rest with
        | some (condition, rest) =>
          match body? fuel rest with
          | some (body, rest) => redirected (.group (.loop true condition body)) rest
          | none => none
        | none => none
      | "until" =>
        match list? fuel rest with
        | some (condition, rest) =>
          match body? fuel rest with
          | some (body, rest) => redirected (.group (.loop false condition body)) rest
          | none => none
        | none => none
      | "for" =>
        let rest := skipBlanks rest
        let name := rest.takeWhile isNameChar
        match keyword? "in" (rest.drop name.length) with
        | none => none
        | some rest =>
          match words? [] fuel rest with
          | none => none
          | some (ws, rest) =>
            match body? fuel rest with
            | some (body, rest) => redirected (.group (.forEach name ws body)) rest
            | none => none
      | _ => simple? [] [] [] fuel s

def pipeline? : (fuel : Nat) → Octets → Option (Script × Octets)
  | 0, _ => none
  | fuel + 1, s =>
    let s := skipBlanks s
    if plainWord s = ['!'] then
      (pipeline? fuel (s.drop 1)).map fun (p, rest) => (.negated p, rest)
    else
      match command? fuel s with
      | none => none
      | some (left, rest) =>
        match skipBlanks rest with
        | '|' :: '|' :: _ => some (left, rest)
        | '|' :: rest =>
          (pipeline? fuel (skipLines false (rest.length + 1) rest)).map fun (right, rest) =>
            (.pipe left right, rest)
        | rest => some (left, rest)

/-- Reads what follows a pipeline in a list without semicolons. -/
def junction? (left : Script) : (fuel : Nat) → Octets → Option (Script × Octets)
  | 0, _ => none
  | fuel + 1, s =>
    match skipBlanks s with
    | '&' :: '&' :: rest =>
      match pipeline? fuel (skipLines false (rest.length + 1) rest) with
      | some (right, rest) => junction? (.ifSucceeds left right) fuel rest
      | none => none
    | '|' :: '|' :: rest =>
      match pipeline? fuel (skipLines false (rest.length + 1) rest) with
      | some (right, rest) => junction? (.ifFails left right) fuel rest
      | none => none
    | rest => some (left, rest)

def list? : (fuel : Nat) → Octets → Option (Script × Octets)
  | 0, _ => none
  | fuel + 1, s =>
    let s := skipLines false (s.length + 1) s
    if atEnd s then some (.nothing, s)
    else
      match pipeline? fuel s with
      | none => none
      | some (p, rest) =>
        match junction? p fuel rest with
        | none => none
        | some (first, rest) =>
          match skipBlanks rest with
          | c :: rest =>
            if c = ';' ∨ c = '&' ∨ c = '\n' then
              (list? fuel rest).map fun (second, rest) => (.sequence first second, rest)
            else if c = '#' then
              (list? fuel (c :: rest)).map fun (second, rest) => (.sequence first second, rest)
            else some (first, c :: rest)
          | [] => some (first, [])

end

def parse? (s : Octets) : Option Script :=
  match list? (4 * s.length + 20) s with
  | some (script, []) => some script
  | _ => none

end Script

end CodeTidy.Sandbox
