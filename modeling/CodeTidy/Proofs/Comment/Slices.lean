import CodeTidy.Proofs.Comment.Scanning
import CodeTidy.Proofs.Results

/-!
# Scanning with byte offsets

A text in UTF-8 can be sliced at a byte offset only if a character begins there or the text ends
(`sliceFrom`, `sliceTo`).  `scanSliced` scans a line in this way: a loop looks for offsets, slices the
line at them and goes on with what is left.  It always ends, every slice that it takes is possible,
and the state is the one that `Scanner.scanLine` comes to (`scanSliced_eq`).
-/

namespace CodeTidy.Comment

/-! ### Slices -/

/-- How many bytes a text has in UTF-8. -/
def byteLength : List Char → Nat
  | [] => 0
  | c :: cs => c.utf8Size + byteLength cs

/-- A slice was wanted at an offset that is beyond the end of the text or inside a character. -/
structure BadOffset where
  text : List Char
  offset : Nat
  deriving DecidableEq, Repr

/-- The text before and after a byte offset. -/
def splitBytes? : List Char → Nat → Option (List Char × List Char)
  | s, 0 => some ([], s)
  | [], _ + 1 => none
  | c :: cs, n + 1 =>
    if c.utf8Size ≤ n + 1 then
      (splitBytes? cs (n + 1 - c.utf8Size)).map fun (before, after) => (c :: before, after)
    else none

def sliceFrom (s : List Char) (offset : Nat) : Except BadOffset (List Char) :=
  match splitBytes? s offset with
  | some (_, after) => .ok after
  | none => .error ⟨s, offset⟩

def sliceTo (s : List Char) (offset : Nat) : Except BadOffset (List Char) :=
  match splitBytes? s offset with
  | some (before, _) => .ok before
  | none => .error ⟨s, offset⟩

/-! ### The scan -/

/-- The characters of a text with the offsets at which they begin. -/
def charOffsets : Nat → List Char → List (Nat × Char)
  | _, [] => []
  | n, c :: cs => (n, c) :: charOffsets (n + c.utf8Size) cs

/-- The offset of the first `needle` among some characters of a text, `escaped` being whether a
backslash stands before them. -/
def findIn (needle text : List Char) : (escaped : Bool) → List (Nat × Char) →
    Except BadOffset (Option Nat)
  | _, [] => return none
  | true, _ :: rest => findIn needle text false rest
  | false, (offset, c) :: rest =>
    if c = '\\' then findIn needle text true rest
    else do
      let tail ← sliceFrom text offset
      if needle.isPrefixOf tail then return some offset
      else findIn needle text false rest

/-- The offset of the first `needle` that no backslash escapes. -/
def findUnescaped (needle text : List Char) : Except BadOffset (Option Nat) :=
  findIn needle text false (charOffsets 0 text)

/-- The offset of the first character that can start a comment or a string. -/
def findOpener? (s : List Char) : Option Nat :=
  if s.any isOpener then some (byteLength (s.takeWhile fun c => !isOpener c)) else none

/-- What one turn of the loop comes to. -/
inductive Turn where
  /-- The line holds nothing more of interest. -/
  | ends
  | goesOn (state : Scanner) (rest : List Char)
  deriving DecidableEq, Repr

def turn (state : Scanner) (line : List Char) : Except BadOffset Turn := do
  match state.openTriple with
  | some q =>
    match ← findUnescaped q.triple line with
    | some offset => return .goesOn ⟨none⟩ (← sliceFrom line (offset + byteLength q.triple))
    | none => return .ends
  | none =>
    match findOpener? line with
    | none => return .ends
    | some start =>
      let line ← sliceFrom line start
      if ['#'].isPrefixOf line then return .ends
      else
        match [Quote.double, .single].find? fun q => q.triple.isPrefixOf line with
        | some q => return .goesOn ⟨some q⟩ (← sliceFrom line 3)
        | none =>
          let quote ← sliceTo line 1
          let inside ← sliceFrom line 1
          match ← findUnescaped quote inside with
          | some offset => return .goesOn state (← sliceFrom line (offset + 2))
          | none => return .ends

/-! ### Laws of slices -/

variable {s a b line rest needle : List Char} {n : Nat} {c : Char} {q : Quote} {state : Scanner}

theorem byteLength_cons (c : Char) (cs : List Char) :
    byteLength (c :: cs) = c.utf8Size + byteLength cs :=
  rfl

theorem byteLength_append (a b : List Char) :
    byteLength (a ++ b) = byteLength a + byteLength b := by
  induction a with
  | nil => simp [byteLength]
  | cons c a ih =>
    rw [List.cons_append, byteLength_cons, byteLength_cons, ih, Nat.add_assoc]

theorem splitBytes?_append (a b : List Char) : splitBytes? (a ++ b) (byteLength a) = some (a, b) := by
  induction a with
  | nil =>
    cases b <;> rfl
  | cons c a ih =>
    obtain ⟨k, hk⟩ := Nat.exists_eq_add_of_le' c.utf8Size_pos
    rw [byteLength_cons, List.cons_append]
    have hlength : c.utf8Size + byteLength a = (k + byteLength a) + 1 := by omega
    have hrest : (k + byteLength a) + 1 - c.utf8Size = byteLength a := by omega
    rw [hlength, splitBytes?, if_pos (by omega), hrest, ih]
    rfl

theorem eq_append_of_splitBytes? (h : splitBytes? s n = some (a, b)) :
    s = a ++ b ∧ byteLength a = n := by
  induction s generalizing n a b with
  | nil =>
    cases n with
    | zero => cases h; exact ⟨rfl, rfl⟩
    | succ n => cases h
  | cons c s ih =>
    cases n with
    | zero => cases h; exact ⟨rfl, rfl⟩
    | succ n =>
      rw [splitBytes?] at h
      split at h
      · obtain ⟨⟨a', b'⟩, hsplit, hpair⟩ := Option.map_eq_some_iff.1 h
        obtain ⟨rfl, rfl⟩ := Prod.mk.inj hpair
        obtain ⟨rfl, hlength⟩ := ih hsplit
        refine ⟨rfl, ?_⟩
        rw [byteLength_cons]
        omega
      · cases h

theorem sliceFrom_append (a b : List Char) : sliceFrom (a ++ b) (byteLength a) = .ok b := by
  rw [sliceFrom, splitBytes?_append]

theorem sliceTo_append (a b : List Char) : sliceTo (a ++ b) (byteLength a) = .ok a := by
  rw [sliceTo, splitBytes?_append]

/-- Behind an offset less is left. -/
theorem length_of_sliceFrom (h : sliceFrom s n = .ok b) :
    b.length ≤ s.length ∧ (0 < n → b.length < s.length) := by
  unfold sliceFrom at h
  split at h
  · rename_i before after hsplit
    obtain rfl := Except.ok.inj h
    obtain ⟨rfl, hlength⟩ := eq_append_of_splitBytes? hsplit
    rw [List.length_append]
    refine ⟨by omega, fun hn => ?_⟩
    cases before with
    | nil =>
      obtain rfl : 0 = n := hlength
      exact absurd hn (Nat.lt_irrefl 0)
    | cons c before =>
      rw [List.length_cons]
      omega
  · cases h

theorem byteLength_char (q : Quote) : byteLength [q.char] = 1 := by
  cases q <;> rfl

theorem byteLength_triple (q : Quote) : byteLength q.triple = 3 := by
  cases q <;> rfl

theorem length_of_turn {next : Scanner} (h : turn state line = .ok (.goesOn next rest)) :
    rest.length < line.length := by
  unfold turn at h
  split at h
  · rename_i q _
    obtain ⟨found, -, h⟩ := bind_eq_ok.1 h
    cases found with
    | none => cases h
    | some offset =>
      obtain ⟨after, hslice, h⟩ := bind_eq_ok.1 h
      cases h
      exact (length_of_sliceFrom hslice).2 (by rw [byteLength_triple]; omega)
  · split at h
    · cases h
    · obtain ⟨opened, hopened, h⟩ := bind_eq_ok.1 h
      refine Nat.lt_of_lt_of_le ?_ (length_of_sliceFrom hopened).1
      split at h
      · cases h
      · split at h
        · obtain ⟨after, hslice, h⟩ := bind_eq_ok.1 h
          cases h
          exact (length_of_sliceFrom hslice).2 (by omega)
        · obtain ⟨quote, -, h⟩ := bind_eq_ok.1 h
          obtain ⟨inside, -, h⟩ := bind_eq_ok.1 h
          obtain ⟨found, -, h⟩ := bind_eq_ok.1 h
          cases found with
          | none => cases h
          | some offset =>
            obtain ⟨after, hslice, h⟩ := bind_eq_ok.1 h
            cases h
            exact (length_of_sliceFrom hslice).2 (by omega)

/-- Scans a line turn by turn. -/
def scanSliced (state : Scanner) (line : List Char) : Except BadOffset Scanner :=
  if line.isEmpty then return state
  else
    match _h : turn state line with
    | .error e => throw e
    | .ok .ends => return state
    | .ok (.goesOn state rest) => scanSliced state rest
termination_by line.length
decreasing_by exact length_of_turn _h

/-! ### Offsets that are looked for -/

theorem charOffsets_cons (before cs : List Char) (c : Char) :
    charOffsets (byteLength before) (c :: cs)
      = (byteLength before, c) :: charOffsets (byteLength (before ++ [c])) cs := by
  rw [charOffsets, byteLength_append, byteLength_cons]
  rfl

/-- A character that is no backslash is where the needle begins, or is passed over. -/
theorem findIn_cons (hc : c ≠ '\\') (before cs : List Char) (rest : List (Nat × Char)) :
    findIn needle (before ++ c :: cs) false ((byteLength before, c) :: rest)
      = if needle.isPrefixOf (c :: cs) then .ok (some (byteLength before))
        else findIn needle (before ++ c :: cs) false rest := by
  rw [findIn, if_neg hc, sliceFrom_append]
  rfl

/-- **The offset that is found is that of the needle**: the text before it has so many bytes.  Every
slice on the way there is possible. -/
theorem findIn_offset (before : List Char) :
    (∀ rest, afterUnescaped? needle s = some rest →
      ∃ between, s = between ++ needle ++ rest ∧
        findIn needle (before ++ s) false (charOffsets (byteLength before) s)
          = .ok (some (byteLength (before ++ between)))) ∧
    (afterUnescaped? needle s = none →
      findIn needle (before ++ s) false (charOffsets (byteLength before) s) = .ok none) := by
  fun_induction afterUnescaped? needle s generalizing before with
  | case1 => exact ⟨by simp, fun _ => rfl⟩
  | case2 cs ih =>
    cases cs with
    | nil => exact ⟨by simp [afterUnescaped?], fun _ => rfl⟩
    | cons d cs =>
      have htext : before ++ '\\' :: d :: cs = before ++ ['\\', d] ++ cs := by simp
      have hskip : findIn needle (before ++ '\\' :: d :: cs) false
          (charOffsets (byteLength before) ('\\' :: d :: cs))
          = findIn needle (before ++ ['\\', d] ++ cs) false
            (charOffsets (byteLength (before ++ ['\\', d])) cs) := by
        rw [charOffsets_cons, charOffsets_cons, findIn, if_pos rfl, findIn, htext]
        simp
      rw [List.drop_succ_cons, List.drop_zero] at ih
      obtain ⟨hfound, hnone⟩ := ih (before ++ ['\\', d])
      rw [List.drop_succ_cons, List.drop_zero, hskip]
      refine ⟨fun rest hrest => ?_, hnone⟩
      obtain ⟨between, rfl, hfind⟩ := hfound rest hrest
      exact ⟨'\\' :: d :: between, rfl, by rw [hfind]; simp⟩
  | case3 c cs hc hhere =>
    rw [charOffsets_cons, findIn_cons hc, if_pos hhere]
    refine ⟨?_, by simp⟩
    intro rest hrest
    obtain ⟨after, hafter⟩ := List.isPrefixOf_iff_prefix.1 hhere
    obtain rfl : after = rest := by simpa [← hafter] using hrest
    exact ⟨[], hafter.symm, by rw [List.append_nil]⟩
  | case4 c cs hc hnot ih =>
    have htext : before ++ c :: cs = before ++ [c] ++ cs := by simp
    rw [charOffsets_cons, findIn_cons hc, if_neg hnot, htext]
    obtain ⟨hfound, hnone⟩ := ih (before ++ [c])
    refine ⟨fun rest hrest => ?_, hnone⟩
    obtain ⟨between, rfl, hfind⟩ := hfound rest hrest
    exact ⟨c :: between, rfl, by rw [hfind]; simp⟩

theorem findUnescaped_of_some (h : afterUnescaped? needle s = some rest) :
    ∃ between, s = between ++ needle ++ rest ∧
      findUnescaped needle s = .ok (some (byteLength between)) :=
  (findIn_offset []).1 rest h

theorem findUnescaped_of_none (h : afterUnescaped? needle s = none) :
    findUnescaped needle s = .ok none :=
  (findIn_offset []).2 h

/-! ### Turns of the loop -/

variable {cs : List Char}

theorem turn_closed (hstate : state.openTriple = some q)
    (h : afterUnescaped? q.triple line = some rest) :
    turn state line = .ok (.goesOn ⟨none⟩ rest) := by
  obtain ⟨between, rfl, hfind⟩ := findUnescaped_of_some h
  have hslice := sliceFrom_append (between ++ q.triple) rest
  rw [byteLength_append] at hslice
  simp only [turn, hstate, hfind, hslice, bind, Except.bind]
  rfl

theorem turn_open (hstate : state.openTriple = some q) (h : afterUnescaped? q.triple line = none) :
    turn state line = .ok .ends := by
  simp only [turn, hstate, findUnescaped_of_none h, bind, Except.bind]
  rfl

theorem turn_noOpener (hstate : state.openTriple = none)
    (h : line.dropWhile (fun c => !isOpener c) = []) : turn state line = .ok .ends := by
  have hnone : findOpener? line = none := by
    rw [List.dropWhile_eq_nil_iff] at h
    simpa [findOpener?] using h
  simp only [turn, hstate, hnone]
  rfl

/-- The line is sliced at its first opener. -/
theorem exists_findOpener (h : line.dropWhile (fun c => !isOpener c) = c :: cs) :
    ∃ start, findOpener? line = some start ∧ sliceFrom line start = .ok (c :: cs) := by
  obtain ⟨hsuffix, hc⟩ := opener_dropWhile h
  have hany : line.any isOpener = true :=
    List.any_eq_true.2 ⟨c, hsuffix.subset List.mem_cons_self, hc⟩
  have hslice := sliceFrom_append (line.takeWhile fun c => !isOpener c) (c :: cs)
  rw [← h, List.takeWhile_append_dropWhile, h] at hslice
  exact ⟨_, by rw [findOpener?, if_pos hany], hslice⟩

/-- Behind the first opener a turn depends on what it opens. -/
theorem turn_opener (hstate : state.openTriple = none)
    (h : line.dropWhile (fun c => !isOpener c) = c :: cs) :
    turn state line = turn state (c :: cs) := by
  obtain ⟨start, hfind, hslice⟩ := exists_findOpener h
  have hself : findOpener? (c :: cs) = some 0 := by
    have hc := (opener_dropWhile h).2
    simp [findOpener?, hc, byteLength]
  simp only [turn, hstate, hfind, hself, hslice, bind, Except.bind]
  rfl

theorem turn_hash (hstate : state.openTriple = none) : turn state ('#' :: cs) = .ok .ends := by
  simp only [turn, hstate]
  rfl

theorem eq_char_of_ofChar? (h : Quote.ofChar? c = some q) : c = q.char := by
  unfold Quote.ofChar? at h
  split at h
  · rename_i hc
    obtain rfl := Option.some.inj h
    exact hc
  · split at h
    · rename_i hc
      obtain rfl := Option.some.inj h
      exact hc
    · cases h

/-- Of the two delimiters only that of its own quote can begin with a quote. -/
theorem find?_triple (q : Quote) (cs : List Char) :
    ([Quote.double, .single].find? fun q' => q'.triple.isPrefixOf (q.char :: cs))
      = if q.triple.isPrefixOf (q.char :: cs) then some q else none := by
  have hother : ∀ q' : Quote, q' ≠ q → q'.triple.isPrefixOf (q.char :: cs) = false := by
    intro q' hne
    cases q <;> cases q' <;> first | rfl | exact absurd rfl hne
  cases q with
  | double => cases h : Quote.double.triple.isPrefixOf (Quote.double.char :: cs) <;>
      simp [h, hother]
  | single => cases h : Quote.single.triple.isPrefixOf (Quote.single.char :: cs) <;>
      simp [h, hother]

theorem isPrefixOf_hash (q : Quote) (cs : List Char) :
    ['#'].isPrefixOf (q.char :: cs) = false := by
  cases q <;> rfl

/-- A quote is the first opener of its line. -/
theorem findOpener?_quote (q : Quote) (cs : List Char) : findOpener? (q.char :: cs) = some 0 := by
  cases q <;> rfl

theorem turn_triple (hstate : state.openTriple = none)
    (h : q.triple.isPrefixOf (q.char :: cs) = true) :
    turn state (q.char :: cs) = .ok (.goesOn ⟨some q⟩ (cs.drop 2)) := by
  obtain ⟨after, hafter⟩ := List.isPrefixOf_iff_prefix.1 h
  have hslice := sliceFrom_append q.triple after
  rw [byteLength_triple, hafter] at hslice
  obtain rfl : q.char :: q.char :: after = cs := (List.cons.inj hafter).2
  have hstart : sliceFrom (q.char :: q.char :: q.char :: after) 0 = .ok _ := sliceFrom_append [] _
  simp only [turn, hstate, findOpener?_quote, hstart, isPrefixOf_hash, find?_triple, h, hslice, bind,
    Except.bind]
  rfl

theorem turn_single (hstate : state.openTriple = none)
    (h : ¬ q.triple.isPrefixOf (q.char :: cs) = true) :
    turn state (q.char :: cs) = match afterUnescaped? [q.char] cs with
      | some rest => .ok (.goesOn state rest)
      | none => .ok .ends := by
  have hquote := sliceTo_append [q.char] cs
  have hinside := sliceFrom_append [q.char] cs
  rw [byteLength_char, List.singleton_append] at hquote hinside
  have hstart : sliceFrom (q.char :: cs) 0 = .ok _ := sliceFrom_append [] _
  cases hclosed : afterUnescaped? [q.char] cs with
  | none =>
    have hfind := findUnescaped_of_none hclosed
    simp only [turn, hstate, findOpener?_quote, hstart, isPrefixOf_hash, find?_triple, if_neg h,
      hquote, hinside, hfind, bind, Except.bind]
    rfl
  | some rest =>
    obtain ⟨between, hcs, hfind⟩ := findUnescaped_of_some hclosed
    have hslice := sliceFrom_append ([q.char] ++ between ++ [q.char]) rest
    have hlength : byteLength ([q.char] ++ between ++ [q.char]) = byteLength between + 2 := by
      rw [byteLength_append, byteLength_append, byteLength_char]
      omega
    have htext : [q.char] ++ between ++ [q.char] ++ rest = q.char :: cs := by
      rw [hcs]
      simp
    rw [hlength, htext] at hslice
    simp only [turn, hstate, findOpener?_quote, hstart, isPrefixOf_hash, find?_triple, if_neg h,
      hquote, hinside, hfind, hslice, bind, Except.bind]
    rfl

/-! ### The whole scan -/

theorem scanSliced_of_ends (h : turn state line = .ok .ends) :
    scanSliced state line = .ok state := by
  rw [scanSliced]
  split
  · rfl
  · split
    · rename_i herror
      cases h.symm.trans herror
    · rfl
    · rename_i hgoes
      cases h.symm.trans hgoes

theorem scanSliced_of_goesOn {next : Scanner} (h : turn state line = .ok (.goesOn next rest)) :
    scanSliced state line = scanSliced next rest := by
  have hlength := length_of_turn h
  have hne : line.isEmpty = false := by
    cases line with
    | nil => exact absurd hlength (Nat.not_lt_zero _)
    | cons c cs => rfl
  rw [scanSliced, hne]
  split
  · rename_i hempty
    cases hempty
  · split
    · rename_i herror
      cases h.symm.trans herror
    · rename_i hends
      cases h.symm.trans hends
    · rename_i hgoes
      cases h.symm.trans hgoes
      rfl

/-- **Scanning with byte offsets ends, slices only where characters begin, and comes to the same.** -/
theorem scanSliced_eq (state : Scanner) (line : List Char) :
    scanSliced state line = .ok (state.scanLine line) := by
  fun_induction Scanner.scanLine state line with
  | case1 state line q hstate rest hclosed ih =>
    rw [scanSliced_of_goesOn (turn_closed hstate hclosed)]
    exact ih
  | case2 state line q hstate hclosed => exact scanSliced_of_ends (turn_open hstate hclosed)
  | case3 state line hstate hopener => exact scanSliced_of_ends (turn_noOpener hstate hopener)
  | case4 state line hstate c cs hopener hquote =>
    obtain rfl := eq_hash_of_opener hopener hquote
    exact scanSliced_of_ends ((turn_opener hstate hopener).trans (turn_hash hstate))
  | case5 state line hstate c cs hopener q hquote htriple ih =>
    obtain rfl := eq_char_of_ofChar? hquote
    rw [scanSliced_of_goesOn ((turn_opener hstate hopener).trans (turn_triple hstate htriple))]
    exact ih
  | case6 state line hstate c cs hopener q hquote htriple rest hclosed ih =>
    obtain rfl := eq_char_of_ofChar? hquote
    have hturn := (turn_opener hstate hopener).trans (turn_single hstate htriple)
    rw [hclosed] at hturn
    rw [scanSliced_of_goesOn hturn]
    exact ih
  | case7 state line hstate c cs hopener q hquote htriple hclosed =>
    obtain rfl := eq_char_of_ofChar? hquote
    have hturn := (turn_opener hstate hopener).trans (turn_single hstate htriple)
    rw [hclosed] at hturn
    exact scanSliced_of_ends hturn

end CodeTidy.Comment
