import CodeTidy.Text.Lines

/-!
# Tracking triple-quoted strings

`Scanner.scanLine` follows Python's quotes along one line and remembers only whether a
triple-quoted string is still open at its end.  A comment ends the scan of a line, a backslash
inside a string skips the next character, and a single-quoted string that does not close ends
with the line.
-/

namespace CodeTidy.Comment

inductive Quote where
  | double
  | single
  deriving DecidableEq, Repr

namespace Quote

def char : Quote → Char
  | double => '"'
  | single => '\''

/-- The delimiter of a triple-quoted string. -/
def triple (q : Quote) : List Char :=
  [q.char, q.char, q.char]

def ofChar? (c : Char) : Option Quote :=
  if c = '"' then some double else if c = '\'' then some single else none

end Quote

/-- The triple-quoted string that is open, if any. -/
structure Scanner where
  openTriple : Option Quote := none
  deriving DecidableEq, Repr

/-- What follows the first `needle` that no backslash escapes. -/
def afterUnescaped? (needle : List Char) : List Char → Option (List Char)
  | [] => none
  | '\\' :: cs => afterUnescaped? needle (cs.drop 1)
  | c :: cs =>
    if needle.isPrefixOf (c :: cs) then some ((c :: cs).drop needle.length)
    else afterUnescaped? needle cs
termination_by s => s.length

theorem length_afterUnescaped?_le {needle s rest : List Char}
    (h : afterUnescaped? needle s = some rest) : rest.length + needle.length ≤ s.length := by
  fun_induction afterUnescaped? needle s with
  | case1 => simp at h
  | case2 cs ih =>
    have := ih h
    simp only [List.length_drop, List.length_cons] at this ⊢
    omega
  | case3 c cs _ hp =>
    obtain rfl : _ = rest := by simpa using h
    have := (List.isPrefixOf_iff_prefix.1 hp).length_le
    simp only [List.length_drop]
    omega
  | case4 c cs _ _ ih =>
    have := ih h
    simp only [List.length_cons]
    omega

/-- Whether a character can start a comment or a string. -/
def isOpener (c : Char) : Bool :=
  c == '#' || c == '"' || c == '\''

theorem length_dropWhile_le {α : Type} (p : α → Bool) (s : List α) :
    (s.dropWhile p).length ≤ s.length :=
  (List.dropWhile_suffix p).length_le

namespace Scanner

def inString (s : Scanner) : Bool :=
  s.openTriple.isSome

/-- The state after the rest of a line. -/
def scanLine (state : Scanner) (line : List Char) : Scanner :=
  match state.openTriple with
  | some q =>
    match _closed : afterUnescaped? q.triple line with
    | some rest => scanLine ⟨none⟩ rest
    | none => state
  | none =>
    match _opener : line.dropWhile (fun c => !isOpener c) with
    | [] => state
    | c :: cs =>
      match Quote.ofChar? c with
      | none => state
      | some q =>
        if q.triple.isPrefixOf (c :: cs) then scanLine ⟨some q⟩ (cs.drop 2)
        else
          match _closed : afterUnescaped? [q.char] cs with
          | some rest => scanLine state rest
          | none => state
termination_by line.length
decreasing_by
  · have := length_afterUnescaped?_le _closed
    simp only [Quote.triple, List.length_cons] at this
    omega
  · have := length_dropWhile_le (fun c => !isOpener c) line
    rw [_opener, List.length_cons] at this
    simp only [List.length_drop]
    omega
  · have := length_dropWhile_le (fun c => !isOpener c) line
    rw [_opener, List.length_cons] at this
    have := length_afterUnescaped?_le _closed
    omega

end Scanner

end CodeTidy.Comment
