import CodeTidy.Text.Lines

/-!
# Greedy word wrap

`fillLines width ws` cuts a list of words, in order, into lines: a word joins the current line
when the line, its words joined by single spaces, then has at most `width` characters.  A word
longer than `width` stands on a line of its own.
-/

namespace CodeTidy.Comment

/-- A word is a run of characters without blanks. -/
abbrev Word := List Char

/-- The words of a line, one space between each two. -/
def joinWords (ws : List Word) : List Char :=
  List.intercalate [' '] ws

/-- Continues the line `line`, whose text has `used` characters. -/
def fillFrom (width : Nat) (line : List Word) (used : Nat) : List Word → List (List Word)
  | [] => [line]
  | w :: ws =>
    if used + 1 + w.length ≤ width then fillFrom width (line ++ [w]) (used + 1 + w.length) ws
    else line :: fillFrom width [w] w.length ws

def fillLines (width : Nat) : List Word → List (List Word)
  | [] => []
  | w :: ws => fillFrom width [w] w.length ws

/-- Wraps the words of a text at `width` characters. -/
def wrapWords (width : Nat) (text : List Char) : List (List Char) :=
  (fillLines width (Text.words text)).map joinWords

/-- Filling lines keeps the words and their order. -/
theorem flatten_fillFrom (width : Nat) (line : List Word) (used : Nat) (ws : List Word) :
    (fillFrom width line used ws).flatten = line ++ ws := by
  induction ws generalizing line used with
  | nil => simp [fillFrom]
  | cons w ws ih =>
    rw [fillFrom]
    split <;> simp [ih]

end CodeTidy.Comment
