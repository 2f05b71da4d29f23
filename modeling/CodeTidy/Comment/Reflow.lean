import CodeTidy.Comment.Scanner
import CodeTidy.Comment.Wrap
import CodeTidy.LineEnding

/-!
# Reflow of over-long comments

`reflow lineLength source` rewraps every full-line comment longer than `lineLength` characters
onto lines that share its indentation and its run of `#`, and keeps every other piece of the
source as it is.  Lines inside triple-quoted strings, a first line that starts with `#!` and
comments that address a tool (`noqa`, `type:`, `fmt:`, `pragma`) are left alone.
-/

namespace CodeTidy.Comment

open CodeTidy.Text

/-- Below this many characters for the text of a comment, nothing is wrapped. -/
def minTextWidth : Nat := 10

/-- How the text of a comment that addresses a tool begins. -/
def directives : List (List Char) :=
  ["noqa".toList, "type:".toList, "fmt:".toList, "pragma".toList]

/-- A full-line comment taken apart. -/
structure Parts where
  indent : List Char
  marker : List Char
  text : List Char
  deriving DecidableEq, Repr

namespace Parts

/-- The parts of a line whose first character that is not blank is `#`. -/
def ofLine? (line : List Char) : Option Parts :=
  let body := line.dropWhile isBlank
  match body with
  | '#' :: _ =>
    some
      { indent := line.takeWhile isBlank
        marker := body.takeWhile (· == '#')
        text := trim (body.dropWhile (· == '#')) }
  | _ => none

/-- Whether the comment addresses a tool. -/
def isDirective (c : Parts) : Bool :=
  directives.any (·.isPrefixOf c.text)

/-- What every line of the wrapped comment begins with. -/
def lead (c : Parts) : List Char :=
  c.indent ++ c.marker ++ [' ']

end Parts

/-- The lines that an over-long comment becomes; `none` when it has to stay as it is. -/
def wrapComment (lineLength : Nat) (line : List Char) : Option (List (List Char)) :=
  match Parts.ofLine? line with
  | none => none
  | some c =>
    if c.text.isEmpty || c.isDirective then none
    else if lineLength < c.lead.length + minTextWidth then none
    else some ((wrapWords (lineLength - c.lead.length) c.text).map (c.lead ++ ·))

/-- Whether a line may be wrapped, `first` being whether it is the first of the source. -/
def eligible (lineLength : Nat) (state : Scanner) (first : Bool) (line : List Char) : Bool :=
  !state.inString && !(first && ['#', '!'].isPrefixOf line) && lineLength < line.length

/-- The wrapped lines of a piece, if it is wrapped at all. -/
def wrapped? (lineLength : Nat) (state : Scanner) (first : Bool) (line : List Char) :
    Option (List (List Char)) :=
  if eligible lineLength state first line then wrapComment lineLength line else none

/-- Reflows the pieces of a source from one of them on.  A wrapped line is not scanned: a
comment opens no string. -/
def reflowPieces (lineLength : Nat) (ending : List Char) (state : Scanner) (first : Bool) :
    List (List Char) → List Char
  | [] => []
  | piece :: rest =>
    let line := trimBreaks piece
    match wrapped? lineLength state first line with
    | some ls =>
      List.intercalate ending ls ++ piece.drop line.length
        ++ reflowPieces lineLength ending state false rest
    | none => piece ++ reflowPieces lineLength ending (state.scanLine line) false rest

/-- Wraps every eligible comment of the source. -/
def reflow (lineLength : Nat) (source : List Char) : List Char :=
  reflowPieces lineLength (LineEnding.dominant source) {} true (pieces source)

end CodeTidy.Comment
