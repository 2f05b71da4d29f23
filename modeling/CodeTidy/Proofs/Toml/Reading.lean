import CodeTidy.Toml.Parser
import Mathlib.Data.List.Basic

/-!
# What reading leaves

Every reader of the TOML language leaves an end of its input (`Leaves`).  So each statement of a
document begins somewhere in the text: `located?` finds the statements with the text from there on,
and `suffix_of_mem_located` says that it is an end of the document.
-/

namespace CodeTidy.Toml

/-- Whatever is read from a text, an end of the text is left. -/
def Leaves {α : Type} (s : List Char) (x : Option (α × List Char)) : Prop :=
  ∀ r ∈ x, r.2 <:+ s

section leaves

variable {α β : Type} {s s' : List Char} {x : Option (α × List Char)}

theorem Leaves.none : Leaves s (.none : Option (α × List Char)) := by
  simp [Leaves]

theorem leaves_some {a : α} {rest : List Char} (h : rest <:+ s) : Leaves s (some (a, rest)) := by
  simpa [Leaves] using h

theorem Leaves.mono (h : Leaves s x) (hs : s <:+ s') : Leaves s' x :=
  fun r hr => (h r hr).trans hs

theorem Leaves.cons (h : Leaves s x) (c : Char) : Leaves (c :: s) x :=
  h.mono (List.suffix_cons c s)

theorem Leaves.map (h : Leaves s x) (f : α → β) :
    Leaves s (x.map fun r => (f r.1, r.2)) := by
  rintro r hr
  obtain ⟨r', hr', rfl⟩ := Option.map_eq_some_iff.1 hr
  exact h r' hr'

theorem leaves_bind {y : Option β} {f : β → Option (α × List Char)} (h : ∀ b ∈ y, Leaves s (f b)) :
    Leaves s (y.bind f) := by
  intro r hr
  obtain ⟨b, hb, hr⟩ := Option.bind_eq_some_iff.1 hr
  exact h b hb r hr

end leaves

variable {s rest : List Char}

/-! ### Blanks and comments -/

theorem skipSpaces_suffix (s : List Char) : skipSpaces s <:+ s :=
  List.dropWhile_suffix _

theorem skipComment?_suffix (h : skipComment? s = some rest) : rest <:+ s := by
  unfold skipComment? at h
  split at h
  · rename_i cs
    refine List.IsSuffix.trans ?_ (List.suffix_cons _ cs)
    have hdrop := List.dropWhile_suffix (l := cs) isPlain
    split at h
    · exact Option.some.inj h ▸ List.nil_suffix
    · rename_i heq
      exact Option.some.inj h ▸ heq ▸ hdrop
    · rename_i heq
      exact Option.some.inj h ▸ (List.suffix_cons _ _).trans (heq ▸ hdrop)
    · nomatch h
  · exact Option.some.inj h ▸ List.suffix_rfl

theorem skipLines?_suffix {fuel : Nat} (h : skipLines? fuel s = some rest) : rest <:+ s := by
  induction fuel generalizing s with
  | zero => nomatch h
  | succ fuel ih =>
    rw [skipLines?] at h
    obtain ⟨cs, hcs, h⟩ := Option.bind_eq_some_iff.1 h
    have hsuffix := (skipComment?_suffix hcs).trans (skipSpaces_suffix s)
    split at h
    · exact (ih h).trans ((List.suffix_cons _ _).trans hsuffix)
    · exact (ih h).trans ((List.suffix_cons _ _).trans ((List.suffix_cons _ _).trans hsuffix))
    · exact Option.some.inj h ▸ hsuffix

theorem endLine?_suffix (h : endLine? s = some rest) : rest <:+ s := by
  rw [endLine?] at h
  obtain ⟨cs, hcs, h⟩ := Option.bind_eq_some_iff.1 h
  have hsuffix := (skipComment?_suffix hcs).trans (skipSpaces_suffix s)
  split at h
  · exact Option.some.inj h ▸ List.nil_suffix
  · exact Option.some.inj h ▸ (List.suffix_cons _ _).trans hsuffix
  · exact Option.some.inj h ▸ (List.suffix_cons _ _).trans ((List.suffix_cons _ _).trans hsuffix)
  · nomatch h

/-! ### Strings -/

theorem Leaves.quotedCons {q : Quoted} (h : Leaves s q) (c : Char) : Leaves s (Quoted.cons c q) :=
  h.map (c :: ·)

theorem leaves_readSingle (s : List Char) : Leaves s (readSingle s) := by
  fun_induction readSingle s with
  | case1 => exact .none
  | case2 cs => exact leaves_some (List.suffix_cons _ _)
  | case3 c cs _ _ ih => exact (ih.cons c).quotedCons c
  | case4 => exact .none

theorem leaves_readDouble (s : List Char) : Leaves s (readDouble s) := by
  fun_induction readDouble s with
  | case1 => exact .none
  | case2 cs => exact leaves_some (List.suffix_cons _ _)
  -- the three escapes with a code
  | case3 a b cs ih =>
    exact leaves_bind fun _ _ => (ih.mono (List.suffix_append [_, _, a, b] cs)).quotedCons _
  | case4 a b c d cs ih =>
    exact leaves_bind fun _ _ => (ih.mono (List.suffix_append [_, _, a, b, c, d] cs)).quotedCons _
  | case5 a b c d e f g h cs ih =>
    exact leaves_bind fun _ _ =>
      (ih.mono (List.suffix_append [_, _, a, b, c, d, e, f, g, h] cs)).quotedCons _
  | case6 c cs _ _ _ ih =>
    exact leaves_bind fun _ _ => (ih.mono (List.suffix_append [_, c] cs)).quotedCons _
  | case7 c cs _ _ _ _ _ _ ih => exact (ih.cons c).quotedCons c
  | case8 => exact .none

theorem closeTriple_suffix (q : Char) (s : List Char) : (closeTriple q s).2 <:+ s := by
  unfold closeTriple
  split
  · rename_i a b cs
    split
    · split
      · exact List.suffix_append [a, b] cs
      · exact List.suffix_cons a _
    · exact List.suffix_rfl
  · split
    · exact List.nil_suffix
    · exact List.suffix_rfl
  · exact List.suffix_rfl

theorem leaves_readSingleLines (s : List Char) : Leaves s (readSingleLines s) := by
  fun_induction readSingleLines s with
  | case1 => exact .none
  | case2 cs =>
    exact leaves_some ((closeTriple_suffix _ cs).trans (List.suffix_append [_, _, _] cs))
  | case3 cs ih => exact ((ih.mono (List.suffix_append [_, _] cs)).quotedCons _).quotedCons _
  | case4 c cs _ _ _ ih => exact (ih.cons c).quotedCons c
  | case5 => exact .none

theorem leaves_readDoubleLines (skipping : Bool) (s : List Char) :
    Leaves s (readDoubleLines skipping s) := by
  fun_induction readDoubleLines skipping s with
  | case1 => exact .none
  | case2 _ cs =>
    exact leaves_some ((closeTriple_suffix _ cs).trans (List.suffix_append [_, _, _] cs))
  | case3 cs ih => exact ih.mono (List.suffix_append [_, _] cs)
  | case4 _ cs _ ih => exact ((ih.mono (List.suffix_append [_, _] cs)).quotedCons _).quotedCons _
  -- the three escapes with a code
  | case5 _ a b cs ih =>
    exact leaves_bind fun _ _ => (ih.mono (List.suffix_append [_, _, a, b] cs)).quotedCons _
  | case6 _ a b c d cs ih =>
    exact leaves_bind fun _ _ => (ih.mono (List.suffix_append [_, _, a, b, c, d] cs)).quotedCons _
  | case7 _ a b c d e f g h cs ih =>
    exact leaves_bind fun _ _ =>
      (ih.mono (List.suffix_append [_, _, a, b, c, d, e, f, g, h] cs)).quotedCons _
  | case8 _ c cs _ _ _ _ ih => exact ih.cons _
  | case9 _ c cs _ _ _ _ ih =>
    exact leaves_bind fun _ _ => (ih.mono (List.suffix_append [_, c] cs)).quotedCons _
  | case10 skipping c cs _ _ _ _ _ _ _ _ ih => exact ih.cons c
  | case11 skipping c cs _ _ _ _ _ _ _ _ ih => exact (ih.cons c).quotedCons c
  | case12 => exact .none

theorem dropFirstBreak_suffix (s : List Char) : dropFirstBreak s <:+ s := by
  unfold dropFirstBreak
  split
  · exact List.suffix_cons _ _
  · exact List.suffix_append [_, _] _
  · exact List.suffix_rfl

theorem leaves_readLine? (s : List Char) : Leaves s (readLine? s) := by
  unfold readLine?
  split
  · exact (leaves_readDouble _).cons _
  · exact (leaves_readSingle _).cons _
  · exact .none

theorem leaves_readQuoted? (s : List Char) : Leaves s (readQuoted? s) := by
  unfold readQuoted?
  split
  · exact (leaves_readDoubleLines _ _).mono
      ((dropFirstBreak_suffix _).trans (List.suffix_append [_, _, _] _))
  · exact (leaves_readSingleLines _).mono
      ((dropFirstBreak_suffix _).trans (List.suffix_append [_, _, _] _))
  · exact leaves_readLine? _

/-! ### Keys and values -/

theorem leaves_readPart? (s : List Char) : Leaves s (readPart? s) := by
  unfold readPart?
  split
  · exact .none
  · exact .none
  · exact (leaves_readLine? _).map _
  · exact (leaves_readLine? _).map _
  · split
    · exact .none
    · exact leaves_some (List.dropWhile_suffix _)

theorem leaves_readKey? (fuel : Nat) (s : List Char) : Leaves s (readKey? fuel s) := by
  induction fuel generalizing s with
  | zero => exact .none
  | succ fuel ih =>
    rw [readKey?]
    refine leaves_bind fun ⟨part, cs⟩ hpart => ?_
    have hsuffix := (skipSpaces_suffix cs).trans
      ((leaves_readPart? _ _ hpart).trans (skipSpaces_suffix s))
    dsimp only
    split
    · rename_i cs heq
      exact leaves_bind fun r hr =>
        leaves_some ((ih cs r hr).trans ((List.suffix_cons _ _).trans (heq ▸ hsuffix)))
    · exact leaves_some hsuffix

theorem leaves_readLiteral? (s : List Char) : Leaves s (readLiteral? s) := by
  have hdrop := List.dropWhile_suffix (l := s) isLiteralChar
  have hrest {y : Option Toml} {rest : List Char} (h : rest <:+ s) :
      Leaves s (y.map fun v => (v, rest)) := by
    intro r hr
    obtain ⟨v, -, rfl⟩ := Option.map_eq_some_iff.1 hr
    exact h
  unfold readLiteral?
  dsimp only
  split
  · rename_i c cs _ heq
    split
    · exact hrest ((List.dropWhile_suffix _).trans ((List.suffix_cons _ _).trans (heq ▸ hdrop)))
    · exact hrest (heq ▸ hdrop)
  · exact hrest hdrop

mutual

theorem leaves_readValue? : ∀ (fuel depth : Nat) (s : List Char),
    Leaves s (readValue? fuel depth s)
  | 0, _, _ => by rw [readValue?]; exact .none
  | fuel + 1, depth, s => by
    rw [readValue?.eq_def]
    dsimp only
    split
    · exact (leaves_readQuoted? _).map fun cs => string (String.ofList cs)
    · exact (leaves_readQuoted? _).map fun cs => string (String.ofList cs)
    · split
      · exact .none
      · exact ((leaves_readItems? fuel (depth - 1) _).cons _).map _
    · split
      · exact .none
      · exact ((leaves_readPairs? fuel (depth - 1) [] _).cons _).map fun nodes =>
          table (toEntries nodes)
    · exact leaves_readLiteral? s

theorem leaves_readItems? : ∀ (fuel depth : Nat) (s : List Char),
    Leaves s (readItems? fuel depth s)
  | 0, _, _ => by rw [readItems?]; exact .none
  | fuel + 1, depth, s => by
    rw [readItems?]
    split
    · exact .none
    · rename_i cs hskip
      exact leaves_some ((List.suffix_cons _ _).trans (skipLines?_suffix hskip))
    · rename_i cs _ hskip
      have hcs := skipLines?_suffix hskip
      split
      · exact .none
      · rename_i item cs' hvalue
        have hcs' := (leaves_readValue? fuel depth cs _ hvalue).trans hcs
        split
        · rename_i cs'' hcomma
          exact ((leaves_readItems? fuel depth cs'').mono
            ((List.suffix_cons _ _).trans ((skipLines?_suffix hcomma).trans hcs'))).map _
        · rename_i cs'' hclose
          exact leaves_some ((List.suffix_cons _ _).trans ((skipLines?_suffix hclose).trans hcs'))
        · exact .none

theorem leaves_readPairs? : ∀ (fuel depth : Nat) (nodes : Nodes) (s : List Char),
    Leaves s (readPairs? fuel depth nodes s)
  | 0, _, _, _ => by rw [readPairs?]; exact .none
  | fuel + 1, depth, nodes, s => by
    rw [readPairs?]
    split
    · exact .none
    · rename_i cs hskip
      exact leaves_some ((List.suffix_cons _ _).trans (skipLines?_suffix hskip))
    · rename_i cs _ hskip
      have hcs := skipLines?_suffix hskip
      split
      · rename_i path key cs' hkey
        have hcs' := (List.suffix_cons _ _).trans ((leaves_readKey? _ cs _ hkey).trans hcs)
        split
        · exact .none
        · rename_i value cs'' hvalue
          have hcs'' := (leaves_readValue? fuel depth _ _ hvalue).trans
            ((skipSpaces_suffix cs').trans hcs')
          split
          · rename_i nodes' cs₃ _ hcomma
            exact (leaves_readPairs? fuel depth nodes' cs₃).mono
              ((List.suffix_cons _ _).trans ((skipLines?_suffix hcomma).trans hcs''))
          · rename_i nodes' cs₃ _ hclose
            exact leaves_some
              ((List.suffix_cons _ _).trans ((skipLines?_suffix hclose).trans hcs''))
          · exact .none
      · exact .none

end

/-! ### Statements -/

theorem leaves_readHeader? (close s : List Char) : Leaves s (readHeader? close s) := by
  unfold readHeader?
  refine leaves_bind fun ⟨key, cs⟩ hkey => ?_
  dsimp only
  split
  · exact leaves_some ((List.drop_suffix _ _).trans (leaves_readKey? _ _ _ hkey))
  · exact .none

theorem leaves_readStatement? (s : List Char) : Leaves s (readStatement? s) := by
  unfold readStatement?
  split
  · rename_i cs
    refine leaves_bind fun r hr => leaves_bind fun rest hrest => leaves_some ?_
    exact (endLine?_suffix hrest).trans
      ((leaves_readHeader? _ cs r hr).trans (List.suffix_append [_, _] cs))
  · rename_i cs _
    refine leaves_bind fun r hr => leaves_bind fun rest hrest => leaves_some ?_
    exact (endLine?_suffix hrest).trans
      ((leaves_readHeader? _ cs r hr).trans (List.suffix_cons _ cs))
  · refine leaves_bind fun r hr => ?_
    have hkey := leaves_readKey? _ _ r hr
    split
    · rename_i path key cs
      refine leaves_bind fun v hv => leaves_bind fun rest hrest => leaves_some ?_
      exact (endLine?_suffix hrest).trans ((leaves_readValue? _ _ _ v hv).trans
        ((skipSpaces_suffix cs).trans ((List.suffix_cons _ cs).trans hkey)))
    · exact .none

/-- Reads statements as `readStatements?` does, each with the text that begins with it. -/
def locate? : (fuel : Nat) → List Char → Option (List (List Char × Statement))
  | 0, _ => none
  | fuel + 1, s =>
    match skipLines? (s.length + 1) s with
    | none => none
    | some [] => some []
    | some (c :: cs) =>
      match readStatement? (c :: cs) with
      | none => none
      | some (statement, rest) => (locate? fuel rest).map ((c :: cs, statement) :: ·)

theorem readStatements?_eq (fuel : Nat) (s : List Char) :
    readStatements? fuel s = (locate? fuel s).map (·.map Prod.snd) := by
  induction fuel generalizing s with
  | zero => rfl
  | succ fuel ih =>
    rw [readStatements?, locate?]
    rcases skipLines? (s.length + 1) s with _ | _ | ⟨c, cs⟩
    · rfl
    · rfl
    · dsimp only
      rcases readStatement? (c :: cs) with _ | ⟨statement, rest⟩
      · rfl
      · dsimp only
        rw [ih, Option.map_map, Option.map_map]
        rfl

theorem read_of_mem_locate? {e : List Char × Statement} {located : List (List Char × Statement)}
    {fuel : Nat} (h : locate? fuel s = some located) (he : e ∈ located) :
    e.1 <:+ s ∧ ∃ rest, readStatement? e.1 = some (e.2, rest) := by
  induction fuel generalizing s located with
  | zero => nomatch h
  | succ fuel ih =>
    rw [locate?] at h
    split at h
    · nomatch h
    · obtain rfl := Option.some.inj h
      nomatch he
    · rename_i c cs hskip
      split at h
      · nomatch h
      · rename_i statement rest hread
        obtain ⟨more, hmore, rfl⟩ := Option.map_eq_some_iff.1 h
        rcases List.mem_cons.1 he with rfl | he
        · exact ⟨skipLines?_suffix hskip, rest, hread⟩
        · obtain ⟨hsuffix, hrest⟩ := ih hmore he
          exact ⟨hsuffix.trans ((leaves_readStatement? _ _ hread).trans (skipLines?_suffix hskip)),
            hrest⟩

/-- The statements of a document, each with the text that begins with it. -/
def located? (text : List Char) : Option (List (List Char × Statement)) :=
  locate? ((dropMark text).length + 1) (dropMark text)

theorem dropMark_suffix (text : List Char) : dropMark text <:+ text := by
  unfold dropMark
  split
  · exact List.suffix_cons _ _
  · exact List.suffix_rfl

theorem read_of_mem_located {text : List Char} {e : List Char × Statement}
    {located : List (List Char × Statement)} (h : located? text = some located) (he : e ∈ located) :
    e.1 <:+ text ∧ ∃ rest, readStatement? e.1 = some (e.2, rest) :=
  (read_of_mem_locate? h he).imp_left fun hsuffix => hsuffix.trans (dropMark_suffix text)

theorem parse?_eq_some_iff {text : List Char} {document : Entries} :
    parse? text = some document ↔ ∃ located nodes, located? text = some located ∧
      build? [] [] (located.map Prod.snd) = some nodes ∧ document = toEntries nodes := by
  unfold parse? located?
  dsimp only
  rw [readStatements?_eq]
  cases locate? ((dropMark text).length + 1) (dropMark text) with
  | none => simp
  | some located => simp [Option.bind_eq_some_iff, eq_comm (a := document)]

end CodeTidy.Toml
