import CodeTidy.Text.Utf8

/-!
# Faults in JSON text

A `Fault` is a cause together with the input that was left when it was found.  Its position
counts lines from one and bytes since the last newline, the offending byte included.
-/

namespace CodeTidy.Json

inductive SyntaxError where
  | eofInValue
  | eofInObject
  | eofInList
  | eofInString
  | expectedValue
  | expectedIdent
  | expectedColon
  | expectedCommaOrBrace
  | expectedCommaOrBracket
  | keyNotString
  | trailingComma
  | trailingCharacters
  | invalidNumber
  | numberOutOfRange
  | invalidEscape
  | controlCharacter
  | unexpectedEndOfHexEscape
  | loneSurrogate
  | recursionLimit
  deriving DecidableEq, Repr

def SyntaxError.text : SyntaxError → String
  | eofInValue => "EOF while parsing a value"
  | eofInObject => "EOF while parsing an object"
  | eofInList => "EOF while parsing a list"
  | eofInString => "EOF while parsing a string"
  | expectedValue => "expected value"
  | expectedIdent => "expected ident"
  | expectedColon => "expected `:`"
  | expectedCommaOrBrace => "expected `,` or `\x7d`"
  | expectedCommaOrBracket => "expected `,` or `]`"
  | keyNotString => "key must be a string"
  | trailingComma => "trailing comma"
  | trailingCharacters => "trailing characters"
  | invalidNumber => "invalid number"
  | numberOutOfRange => "number out of range"
  | invalidEscape => "invalid escape"
  | controlCharacter =>
    "control character (\\u0000-\\u001F) found while parsing a string"
  | unexpectedEndOfHexEscape => "unexpected end of hex escape"
  | loneSurrogate => "lone leading surrogate in hex escape"
  | recursionLimit => "recursion limit exceeded"

/-- An error, the input left and how many bytes of it the error takes in. -/
structure Fault where
  error : SyntaxError
  rest : List Char
  past : Nat
  deriving DecidableEq, Repr

namespace Fault

/-- An error in the next byte of the input, or at its end. -/
def atNext (error : SyntaxError) (rest : List Char) : Fault :=
  ⟨error, rest, if rest.isEmpty then 0 else 1⟩

/-- An error in what has been read. -/
def before (error : SyntaxError) (rest : List Char) : Fault :=
  ⟨error, rest, 0⟩

/-- How many bytes of `text` have been read, those of the fault included. -/
def offset (f : Fault) (text : List Char) : Nat :=
  (Utf8.encode (String.ofList text)).length - (Utf8.encode (String.ofList f.rest)).length
    + f.past

end Fault

/-- A line, from one, and a count of bytes in it. -/
structure Position where
  line : Nat
  column : Nat
  deriving DecidableEq, Repr

def Position.after (read : Bytes) : Position :=
  read.foldl (fun p b => if b = 10 then ⟨p.line + 1, 0⟩ else ⟨p.line, p.column + 1⟩) ⟨1, 0⟩

def Fault.describe (f : Fault) (text : List Char) : String :=
  let p := Position.after ((Utf8.encode (String.ofList text)).take (f.offset text))
  f.error.text ++ " at line " ++ toString p.line ++ " column " ++ toString p.column

end CodeTidy.Json
