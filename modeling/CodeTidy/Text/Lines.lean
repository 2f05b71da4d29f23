import CodeTidy.Text.Blank

/-!
# Lines, words and trimming

Text is a list of characters.  A *piece* is a maximal run that ends with a newline or with the
text; a *line* is a piece without its terminator `\n` or `\r\n`; a *word* is a maximal run of
characters that are not blank.  The main statement is `flatten_pieces`: cutting a text into
pieces loses nothing.
-/

namespace CodeTidy.Text

/-! ### Trimming -/

/-- Drops the longest suffix whose members satisfy `p`. -/
def dropEndWhile {α : Type} (p : α → Bool) (s : List α) : List α :=
  (s.reverse.dropWhile p).reverse

def trimStart (s : List Char) : List Char :=
  s.dropWhile isBlank

def trimEnd (s : List Char) : List Char :=
  dropEndWhile isBlank s

def trim (s : List Char) : List Char :=
  trimEnd (trimStart s)

/-- The characters that a line terminator is made of. -/
def isBreak (c : Char) : Bool :=
  c == '\n' || c == '\r'

/-- Drops every line feed and carriage return at the end. -/
def trimBreaks (s : List Char) : List Char :=
  dropEndWhile isBreak s

theorem dropEndWhile_append_takeWhile {α : Type} (p : α → Bool) (s : List α) :
    dropEndWhile p s ++ (s.reverse.takeWhile p).reverse = s := by
  rw [dropEndWhile, ← List.reverse_append, List.takeWhile_append_dropWhile, List.reverse_reverse]

/-! ### Pieces and lines -/

/-- Cuts a text after each newline. -/
def pieces : List Char → List (List Char)
  | [] => []
  | c :: cs =>
    if c = '\n' then [c] :: pieces cs
    else
      match pieces cs with
      | [] => [[c]]
      | p :: ps => (c :: p) :: ps

theorem flatten_pieces (s : List Char) : (pieces s).flatten = s := by
  induction s with
  | nil => rfl
  | cons c cs ih =>
    by_cases h : c = '\n'
    · simp [pieces, h, ih]
    · cases hp : pieces cs with
      | nil => simp_all [pieces]
      | cons p ps => simp_all [pieces]

/-- Removes one final `\n`, and the `\r` before it. -/
def dropTerminator (piece : List Char) : List Char :=
  match piece.reverse with
  | '\n' :: '\r' :: r => r.reverse
  | '\n' :: r => r.reverse
  | _ => piece

/-- The lines of a text, without their terminators.  A text that ends with a newline has no
empty last line, and a lone `\r` ends no line. -/
def lines (s : List Char) : List (List Char) :=
  (pieces s).map dropTerminator

/-! ### Words -/

/-- The maximal runs of characters that are not blank. -/
def words : List Char → List (List Char)
  | [] => []
  | c :: cs =>
    if isBlank c then words cs
    else
      match cs with
      | [] => [[c]]
      | d :: _ =>
        if isBlank d then [c] :: words cs
        else
          match words cs with
          | [] => [[c]]
          | w :: ws => (c :: w) :: ws

/-! ### Splitting at a separator -/

/-- The parts between the occurrences of `sep`; always at least one. -/
def splitAtEach (sep : Char) : List Char → List (List Char)
  | [] => [[]]
  | c :: cs =>
    if c = sep then [] :: splitAtEach sep cs
    else
      match splitAtEach sep cs with
      | [] => [[c]]
      | p :: ps => (c :: p) :: ps

/-- The text before and after the first `sep`, if there is one. -/
def splitOnce (sep : Char) : List Char → Option (List Char × List Char)
  | [] => none
  | c :: cs =>
    if c = sep then some ([], cs)
    else (splitOnce sep cs).map fun (before, after) => (c :: before, after)

/-- Every occurrence of `old`, from the left and without overlap, replaced by `new`.  An empty
`old` occurs nowhere. -/
def replaceAll (old new : List Char) (s : List Char) : List Char :=
  if old.isEmpty then s else go s 0
where
  /-- Replaces in `s` after dropping `skip` characters that belong to an occurrence. -/
  go : List Char → Nat → List Char
    | [], _ => []
    | _ :: cs, skip + 1 => go cs skip
    | c :: cs, 0 =>
      if old.isPrefixOf (c :: cs) then new ++ go cs (old.length - 1) else c :: go cs 0

/-! ### Versions on strings -/

def trimString (s : String) : String :=
  String.ofList (trim s.toList)

def trimBreaksString (s : String) : String :=
  String.ofList (trimBreaks s.toList)

def linesOf (s : String) : List String :=
  (lines s.toList).map String.ofList

def isBlankString (s : String) : Bool :=
  s.toList.all isBlank

def startsWith (s lead : String) : Bool :=
  lead.toList.isPrefixOf s.toList

end CodeTidy.Text
