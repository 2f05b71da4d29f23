import CodeTidy.Glob.Syntax
import CodeTidy.Text.Utf8

/-!
# Matching glob patterns

A pattern is matched against all bytes of a path.  `Glob.after tokens s` lists what can be left
of `s` once the tokens have matched a beginning of it; the pattern matches when nothing can be
left.
-/

namespace CodeTidy.Glob

def slash : UInt8 := 47

/-- Everything that follows a slash in `s`. -/
def afterSlashes : Bytes → List Bytes
  | [] => []
  | b :: bs => if b = slash then bs :: afterSlashes bs else afterSlashes bs

/-- What can be left after any number of bytes that satisfy `p`. -/
def afterRun (p : UInt8 → Bool) : Bytes → List Bytes
  | [] => [[]]
  | b :: bs => (b :: bs) :: if p b then afterRun p bs else []

/-- The byte ranges of a range of characters: a character stands for its bytes one by one, and
a range spans from the last byte of its low end to the first byte of its high end. -/
def byteRanges (r : Char × Char) : List (UInt8 × UInt8) :=
  let low := Utf8.encode r.1.toString
  let high := Utf8.encode r.2.toString
  let single := fun b : UInt8 => (b, b)
  if r.1 = r.2 then low.map single
  else
    match low.getLast?, high with
    | some l, h :: rest => low.dropLast.map single ++ (l, h) :: rest.map single
    | _, _ => []

def inClass (ranges : List (Char × Char)) (b : UInt8) : Bool :=
  (ranges.flatMap byteRanges).any fun r => r.1 ≤ b && b ≤ r.2

/-- What is left after one byte that satisfies `p`. -/
def afterOne (p : UInt8 → Bool) : Bytes → List Bytes
  | [] => []
  | b :: bs => if p b then [bs] else []

/-- What is left after given bytes. -/
def afterBytes (w : Bytes) (s : Bytes) : List Bytes :=
  if w.isPrefixOf s then [s.drop w.length] else []

/-- Leaves one of each; what is left of one path differs in length only. -/
def distinct (rests : List Bytes) : List Bytes :=
  rests.foldr (fun r acc => if acc.any (·.length == r.length) then acc else r :: acc) []

/-- Which bytes `?` and `*` stand for. -/
def isAny (literalSeparator : Bool) (b : UInt8) : Bool :=
  !(literalSeparator && b == slash)

mutual

/-- Whether a token says nothing: a group of alternatives that all say nothing. -/
def isVoid : GlobToken → Bool
  | .alternatives branches => allVoid branches
  | _ => false

def areVoid : List GlobToken → Bool
  | [] => true
  | t :: ts => isVoid t && areVoid ts

def allVoid : List (List GlobToken) → Bool
  | [] => true
  | b :: bs => areVoid b && allVoid bs

end

mutual

/-- What can be left of `s` after a token. -/
def afterToken (sep : Bool) (s : Bytes) : GlobToken → List Bytes
  | .literal c => afterBytes (Utf8.encode c.toString) s
  | .anyOne => afterOne (isAny sep) s
  | .anyRun => afterRun (isAny sep) s
  | .anyDirs => s :: afterSlashes s
  | .anyBelow => (afterBytes [slash] s).flatMap (afterRun fun _ => true)
  | .anyBetween => (afterBytes [slash] s).flatMap fun r => r :: afterSlashes r
  | .charClass negated ranges => afterOne (fun b => inClass ranges b != negated) s
  | .alternatives branches =>
    if allVoid branches then [s] else distinct (afterBranches sep s branches)

/-- What can be left of `s` after tokens. -/
def afterTokens (sep : Bool) (rests : List Bytes) : List GlobToken → List Bytes
  | [] => rests
  | t :: ts => afterTokens sep (distinct (rests.flatMap fun s => afterToken sep s t)) ts

/-- What can be left of `s` after one of the branches that say something. -/
def afterBranches (sep : Bool) (s : Bytes) : List (List GlobToken) → List Bytes
  | [] => []
  | b :: bs => (if areVoid b then [] else afterTokens sep [s] b) ++ afterBranches sep s bs

end

/-- Whether a pattern is only `**`. -/
def isEverything : List GlobToken → Bool
  | [.anyDirs] => true
  | _ => false

def matchesPath (g : Glob) (path : Bytes) : Bool :=
  isEverything g.tokens
    || (afterTokens g.literalSeparator [path] g.tokens).any List.isEmpty

end CodeTidy.Glob
