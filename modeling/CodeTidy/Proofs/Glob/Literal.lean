import CodeTidy.Glob.Match
import CodeTidy.Proofs.Text.Utf8

/-!
# Patterns that mean their own characters

A pattern without metacharacters is read as its characters (`Glob.parse_literal`), so it matches
its bytes and nothing else (`Glob.matches_literal_iff`).  With a slash and `**` after it, it matches
what goes on after its bytes and a slash (`Glob.matches_below_iff`).
-/

namespace CodeTidy.Glob

/-- The characters that mean something in a pattern. -/
def metacharacters : List Char :=
  ['*', '?', '[', ']', '{', '}', '\\']

/-- Nothing in a pattern means anything but itself. -/
def IsLiteral (pattern : List Char) : Prop :=
  ∀ c ∈ pattern, c ∉ metacharacters

/-- A text is a pattern, and the pattern matches a path. -/
def Matches (options : GlobOptions) (pattern : List Char) (path : Bytes) : Prop :=
  ∃ g, parse options pattern = .ok g ∧ g.matchesPath path = true

variable {options : GlobOptions} {pattern : List Char} {c : Char} {s : State} {sep : Bool}
  {ts : List GlobToken} {path : Bytes}

/-! ### Reading -/

theorem readTokens_literal (hc : c ∉ metacharacters) (hs : s.inGroup = false) (cs : List Char) :
    readTokens options s (c :: cs) 0
      = readTokens options { s.push (.literal c) with previous := some c } cs 0 := by
  by_cases hcomma : c = ','
  · rw [hcomma, readTokens, if_neg (by simp [hs])]
  · have hne : ∀ m ∈ metacharacters, c ≠ m := fun m hm h => hc (h ▸ hm)
    rw [readTokens]
    · exact hne _ (by decide)
    · exact hne _ (by decide)
    · exact hne _ (by decide)
    · exact hne _ (by decide)
    · exact hne _ (by decide)
    · exact hcomma
    · exact hne _ (by decide)

/-- Characters outside of groups are read as themselves. -/
theorem readTokens_literals (rest : List Char) : ∀ {cs : List Char} {s : State}, IsLiteral cs →
    s.inGroup = false →
    readTokens options s (cs ++ rest) 0
      = readTokens options
          { s with
            current := (cs.map .literal).reverse ++ s.current
            previous := cs.getLast?.or s.previous } rest 0
  | [], _, _, _ => rfl
  | c :: cs, s, h, hs => by
    obtain ⟨hc, hcs⟩ := List.forall_mem_cons.1 h
    have hpush : State.inGroup { s.push (.literal c) with previous := some c } = false := hs
    rw [List.cons_append, readTokens_literal hc hs, readTokens_literals rest hcs hpush]
    simp [State.push, List.getLast?_cons]

theorem parse_literal (h : IsLiteral pattern) :
    parse options pattern = .ok ⟨pattern.map .literal, options.literalSeparator⟩ := by
  have hread : readTokens options {} (pattern ++ []) 0
      = .ok
          { current := (pattern.map .literal).reverse ++ []
            previous := pattern.getLast?.or none } :=
    readTokens_literals [] h rfl
  rw [List.append_nil, List.append_nil] at hread
  rw [parse, hread]
  simp [State.inGroup]

/-- A slash and `**` at the end stand for what is below. -/
theorem parse_below (h : IsLiteral pattern) :
    parse options (pattern ++ ['/', '*', '*'])
      = .ok ⟨pattern.map .literal ++ [.anyBelow], options.literalSeparator⟩ := by
  -- the slash is read as a character first, and `**` takes its place
  have hslash : IsLiteral (pattern ++ ['/']) :=
    List.forall_mem_append.2 ⟨h, List.forall_mem_singleton.2 (by decide)⟩
  have hread : readTokens options {} (pattern ++ ['/', '*', '*']) 0
      = readTokens options
          { current := .literal '/' :: (pattern.map .literal).reverse, previous := some '/' }
          ['*', '*'] 0 := by
    have happend : pattern ++ ['/', '*', '*'] = (pattern ++ ['/']) ++ ['*', '*'] := by simp
    rw [happend, readTokens_literals _ hslash rfl]
    simp
  have hstars : readTokens options
      { current := .literal '/' :: (pattern.map .literal).reverse, previous := some '/' }
      ['*', '*'] 0
        = .ok { current := .anyBelow :: (pattern.map .literal).reverse, previous := some '*' } := by
    simp [readTokens, State.doubleStar, State.pushDirs]
  rw [parse, hread, hstars]
  simp [State.inGroup]

/-! ### Matching -/

theorem nil_mem_distinct : ∀ {rests : List Bytes}, [] ∈ distinct rests ↔ [] ∈ rests
  | [] => Iff.rfl
  | r :: rests => by
    have ih : [] ∈ distinct rests ↔ [] ∈ rests := nil_mem_distinct
    have hcons : distinct (r :: rests)
        = if (distinct rests).any (·.length == r.length) then distinct rests
          else r :: distinct rests := rfl
    rw [hcons]
    split
    -- a rest of the same length is kept, and only one rest has length zero
    · rename_i h
      obtain ⟨r', hr', hlength⟩ := List.any_eq_true.1 h
      rw [ih, List.mem_cons, iff_or_self]
      rintro rfl
      rw [← ih, ← List.eq_nil_of_length_eq_zero (eq_of_beq hlength)]
      exact hr'
    · rw [List.mem_cons, List.mem_cons, ih]

theorem nil_mem_afterRun : ∀ r : Bytes, [] ∈ afterRun (fun _ => true) r
  | [] => List.mem_cons_self
  | _ :: bs => List.mem_cons_of_mem _ (nil_mem_afterRun bs)

theorem afterTokens_nil : ∀ ts : List GlobToken, afterTokens sep [] ts = []
  | [] => by rw [afterTokens]
  | t :: ts => by
    rw [afterTokens]
    exact afterTokens_nil ts

theorem matchesPath_iff {g : Glob} (h : isEverything g.tokens = false) :
    g.matchesPath path = true ↔ [] ∈ afterTokens g.literalSeparator [path] g.tokens := by
  rw [matchesPath, h, Bool.false_or, List.any_eq_true]
  simp

/-- Tokens that stand for characters match their bytes. -/
theorem nil_mem_afterTokens_literals : ∀ {cs : List Char} {path : Bytes},
    [] ∈ afterTokens sep [path] (cs.map .literal ++ ts) ↔
      ∃ rest, path = Utf8.encode (String.ofList cs) ++ rest ∧ [] ∈ afterTokens sep [rest] ts
  | [], path => by simp [Utf8.encode]
  | c :: cs, path => by
    have hencode : Utf8.encode (String.ofList (c :: cs))
        = Utf8.encode c.toString ++ Utf8.encode (String.ofList cs) := by
      rw [String.ofList_cons, Utf8.encode_append]
      rfl
    have hone : afterTokens sep [path] (GlobToken.literal c :: (cs.map .literal ++ ts))
        = afterTokens sep (afterBytes (Utf8.encode c.toString) path) (cs.map .literal ++ ts) := by
      rw [afterTokens, List.flatMap_singleton, afterToken]
      unfold afterBytes
      split <;> rfl
    rw [List.map_cons, List.cons_append, hone, hencode, afterBytes]
    simp only [List.append_assoc]
    split
    · rename_i hprefix
      obtain ⟨rest, rfl⟩ := List.isPrefixOf_iff_prefix.1 hprefix
      rw [List.drop_left, nil_mem_afterTokens_literals]
      simp only [List.append_cancel_left_eq]
    · rename_i hprefix
      rw [afterTokens_nil]
      refine iff_of_false List.not_mem_nil ?_
      rintro ⟨rest, rfl, -⟩
      exact hprefix (List.isPrefixOf_iff_prefix.2 (List.prefix_append _ _))

/-- What is below goes on after a slash, in any way. -/
theorem nil_mem_afterTokens_below :
    [] ∈ afterTokens sep [path] [.anyBelow] ↔ ∃ rest, path = slash :: rest := by
  rw [afterTokens, afterTokens, nil_mem_distinct, List.flatMap_singleton, afterToken, afterBytes]
  split
  · rename_i hprefix
    obtain ⟨rest, rfl⟩ := List.isPrefixOf_iff_prefix.1 hprefix
    rw [List.drop_left, List.flatMap_singleton]
    exact iff_of_true (nil_mem_afterRun rest) ⟨rest, rfl⟩
  · rename_i hprefix
    refine iff_of_false List.not_mem_nil ?_
    rintro ⟨rest, rfl⟩
    exact hprefix (List.isPrefixOf_iff_prefix.2 ⟨rest, rfl⟩)

theorem matches_iff {g : Glob} (hparse : parse options pattern = .ok g)
    (h : isEverything g.tokens = false) :
    Matches options pattern path ↔ [] ∈ afterTokens g.literalSeparator [path] g.tokens := by
  rw [← matchesPath_iff h]
  constructor
  · rintro ⟨g', hparse', hmatch⟩
    rwa [Except.ok.inj (hparse.symm.trans hparse')]
  · exact fun hmatch => ⟨g, hparse, hmatch⟩

/-- **A pattern without metacharacters matches its bytes and nothing else.** -/
theorem matches_literal_iff (h : IsLiteral pattern) :
    Matches options pattern path ↔ path = Utf8.encode (String.ofList pattern) := by
  have hnot : isEverything (pattern.map .literal) = false := by
    cases pattern <;> rfl
  rw [matches_iff (parse_literal h) hnot, ← List.append_nil (pattern.map GlobToken.literal),
    nil_mem_afterTokens_literals]
  simp [afterTokens]

/-- **With a slash and `**` after it, it matches what goes on after its bytes and a slash.** -/
theorem matches_below_iff (h : IsLiteral pattern) :
    Matches options (pattern ++ ['/', '*', '*']) path ↔
      ∃ rest, path = Utf8.encode (String.ofList pattern) ++ slash :: rest := by
  have hnot : isEverything (pattern.map .literal ++ [.anyBelow]) = false := by
    cases pattern with
    | nil => rfl
    | cons c cs => cases cs <;> rfl
  rw [matches_iff (parse_below h) hnot, nil_mem_afterTokens_literals]
  simp only [nil_mem_afterTokens_below]
  constructor
  · rintro ⟨_, rfl, rest, rfl⟩
    exact ⟨rest, rfl⟩
  · rintro ⟨rest, rfl⟩
    exact ⟨_, rfl, rest, rfl⟩

end CodeTidy.Glob
