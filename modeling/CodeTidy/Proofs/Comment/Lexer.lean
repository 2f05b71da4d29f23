import CodeTidy.Comment.Scanner
import CodeTidy.Proofs.Text.Breaks

/-!
# Reading a source as a whole

A lexer reads a source lexeme by lexeme and knows where it stands: in code, in a comment or in a
string literal (`Region`).  `LexicalRules.python` are Python's rules, by which a literal in single
quotes goes on after a line break that a backslash escapes, and a carriage return ends a line of its
own; `LexicalRules.linewise` know neither.  A reading up to a line break does not depend on what
follows (`read_append`), and as long as the first of these two things has not happened and the second
has ended nothing (`Reading.torn`), both sets of rules read the same (`read_linewise`).
-/

namespace CodeTidy.Comment

open CodeTidy.Text

/-! ### Rules -/

/-- What the text at a position belongs to. -/
inductive Region where
  | code
  | comment
  | single (q : Quote)
  | triple (q : Quote)
  deriving DecidableEq, Repr

/-- Whether the text belongs to a string literal. -/
def Region.isLiteral : Region → Bool
  | code => false
  | comment => false
  | single _ => true
  | triple _ => true

theorem Region.isLiteral_iff {region : Region} :
    region.isLiteral = true ↔ (∃ q, region = .single q) ∨ ∃ q, region = .triple q := by
  cases region <;> simp [isLiteral]

/-- What sets of rules differ in. -/
structure LexicalRules where
  /-- Whether a carriage return ends a line when no line feed follows. -/
  loneCr : Bool
  /-- Whether a literal in single quotes goes on after a line break with a backslash before it. -/
  continues : Bool
  deriving DecidableEq, Repr

/-- A lexeme: how many characters it has, and where it leads. -/
structure Lexeme where
  length : Nat
  next : Region
  deriving DecidableEq, Repr

namespace LexicalRules

def python : LexicalRules :=
  ⟨true, true⟩

def linewise : LexicalRules :=
  ⟨false, false⟩

/-- How many characters the line break at the head has; zero if none stands there. -/
def breakLength (rules : LexicalRules) : List Char → Nat
  | '\n' :: _ => 1
  | '\r' :: '\n' :: _ => 2
  | '\r' :: _ => if rules.loneCr then 1 else 0
  | _ => 0

/-- Whether the head is a line break by Python's rules alone: a carriage return without a line feed
after it. -/
def startsWithLoneCr (s : List Char) : Bool :=
  python.breakLength s != linewise.breakLength s

/-- The lexeme at the head of `c :: cs`.  In code `#` opens a comment, and quotes open a literal:
three equal ones, or else a single one.  In a literal a backslash takes the next character with it,
and the quotes that opened the literal close it.  A line break ends a comment, and a literal in single
quotes too, unless it is escaped and the rules let the literal go on. -/
def lexeme (rules : LexicalRules) (region : Region) (c : Char) (cs : List Char) : Lexeme :=
  match region with
  | .code =>
    if c = '#' then ⟨1, .comment⟩
    else
      match Quote.ofChar? c with
      | none => ⟨1, .code⟩
      | some q => if q.triple.isPrefixOf (c :: cs) then ⟨3, .triple q⟩ else ⟨1, .single q⟩
  | .comment =>
    if rules.breakLength (c :: cs) = 0 then ⟨1, .comment⟩
    else ⟨rules.breakLength (c :: cs), .code⟩
  | .single q =>
    if rules.breakLength (c :: cs) ≠ 0 then ⟨rules.breakLength (c :: cs), .code⟩
    else if c = '\\' then
      if rules.breakLength cs = 0 then ⟨2, .single q⟩
      else ⟨rules.breakLength cs + 1, if rules.continues then .single q else .code⟩
    else if c = q.char then ⟨1, .code⟩
    else ⟨1, .single q⟩
  | .triple q =>
    if c = '\\' then ⟨2, .triple q⟩
    else if q.triple.isPrefixOf (c :: cs) then ⟨3, .code⟩
    else ⟨1, .triple q⟩

end LexicalRules

open LexicalRules in
/-- Whether Python's rules matter at the head of `c :: cs`: a carriage return alone ends a comment or a
literal in single quotes, or such a literal goes on after a line break. -/
def Region.tears (region : Region) (c : Char) (cs : List Char) : Bool :=
  match region with
  | code => false
  | comment => startsWithLoneCr (c :: cs)
  | single _ => startsWithLoneCr (c :: cs) || (c == '\\' && linewise.breakLength cs != 0)
  | triple _ => false

/-! ### Readings -/

/-- What is known of a source that has been read up to a position. -/
structure Reading where
  region : Region := .code
  /-- The literal that is open, as far as it has been read. -/
  opened : List Char := []
  /-- The literals that have ended, with their quotes. -/
  closed : List (List Char) := []
  /-- Whether somewhere Python's rules mattered. -/
  torn : Bool := false
  deriving DecidableEq, Repr

namespace Reading

/-- Takes in the text of a lexeme. -/
def take (r : Reading) (text : List Char) (next : Region) : Reading :=
  match r.region.isLiteral, next.isLiteral with
  | false, false => { r with region := next }
  | true, false =>
    { r with region := next, opened := [], closed := r.closed ++ [r.opened ++ text] }
  | _, true => { r with region := next, opened := r.opened ++ text }

end Reading

namespace LexicalRules

variable (rules : LexicalRules)

/-- The reading after the lexeme at the head of `c :: cs`. -/
def step (r : Reading) (c : Char) (cs : List Char) : Reading :=
  let l := rules.lexeme r.region c cs
  { r.take ((c :: cs).take l.length) l.next with torn := r.torn || r.region.tears c cs }

/-- Reads on, after `skip` characters that belong to the last lexeme. -/
def readFrom : Reading → Nat → List Char → Reading
  | r, _, [] => r
  | r, skip + 1, _ :: cs => readFrom r skip cs
  | r, 0, c :: cs => readFrom (rules.step r c cs) ((rules.lexeme r.region c cs).length - 1) cs

def read (r : Reading) (s : List Char) : Reading :=
  rules.readFrom r 0 s

end LexicalRules

/-! ### Laws of reading -/

variable {rules : LexicalRules} {r : Reading} {region : Region} {c : Char} {a b cs s : List Char}

theorem Quote.isBreak_char (q : Quote) : isBreak q.char = false := by
  cases q <;> decide

theorem Quote.triple_isPrefixOf_breaks (q : Quote) {b : List Char}
    (hb : ∀ x, b.head? = some x → isBreak x = true) (s : List Char) :
    q.triple.isPrefixOf (s ++ b) = q.triple.isPrefixOf s := by
  have hnot : ∀ x, b.head? = some x → q.char ≠ x := by
    rintro x hx rfl
    simpa [q.isBreak_char] using hb _ hx
  have hleads : ∀ p : List Char, (∀ x ∈ p, x = q.char) → ∀ s, p <+: s ++ b → p <+: s := by
    intro p hp s
    induction s generalizing p with
    | nil =>
      intro h
      cases p with
      | nil => exact List.nil_prefix
      | cons x p =>
        obtain ⟨t, rfl⟩ := h
        exact absurd (hp x (by simp)).symm (hnot x rfl)
    | cons y s ih =>
      intro h
      cases p with
      | nil => exact List.nil_prefix
      | cons x p =>
        rw [List.cons_append, List.cons_prefix_cons] at h
        rw [List.cons_prefix_cons]
        exact ⟨h.1, ih p (fun x hx => hp x (List.mem_cons_of_mem _ hx)) h.2⟩
  rw [Bool.eq_iff_iff, List.isPrefixOf_iff_prefix, List.isPrefixOf_iff_prefix]
  exact ⟨hleads _ (by simp [Quote.triple]) s, fun h => h.trans (List.prefix_append s b)⟩

namespace LexicalRules

theorem breakLength_le (rules : LexicalRules) (s : List Char) : rules.breakLength s ≤ s.length := by
  unfold breakLength
  split
  · simp
  · simp
  · split <;> simp
  · simp

theorem startsWithLoneCr_cr (h : s.head? ≠ some '\n') : startsWithLoneCr ('\r' :: s) = true := by
  cases s with
  | nil => rfl
  | cons x s =>
    have hx : x ≠ '\n' := by simpa using h
    simp [startsWithLoneCr, breakLength, python, linewise, hx]

theorem one_le_length_lexeme (rules : LexicalRules) (region : Region) (c : Char) (cs : List Char) :
    1 ≤ (rules.lexeme region c cs).length := by
  unfold lexeme
  repeat' split
  all_goals simp
  all_goals omega

theorem readFrom_eq (r : Reading) (skip : Nat) (s : List Char) :
    rules.readFrom r skip s = rules.read r (s.drop skip) := by
  induction skip generalizing s with
  | zero => rfl
  | succ skip ih =>
    cases s with
    | nil => rfl
    | cons c cs => exact ih cs

@[simp] theorem read_nil (r : Reading) : rules.read r [] = r := rfl

theorem read_cons (r : Reading) (c : Char) (cs : List Char) :
    rules.read r (c :: cs)
      = rules.read (rules.step r c cs)
          ((c :: cs).drop (rules.lexeme r.region c cs).length) := by
  obtain ⟨n, hn⟩ := Nat.exists_eq_add_of_le' (rules.one_le_length_lexeme r.region c cs)
  rw [read, readFrom, readFrom_eq, hn, Nat.add_sub_cancel, List.drop_succ_cons]

end LexicalRules

/-- What holds of the empty text, and of a text if it holds of what is left after its first lexeme,
holds of every text. -/
theorem LexicalRules.read_induction (rules : LexicalRules) {motive : Reading → List Char → Prop}
    (nil : ∀ r, motive r [])
    (cons : ∀ r c cs, motive (rules.step r c cs)
      ((c :: cs).drop (rules.lexeme r.region c cs).length) → motive r (c :: cs))
    (r : Reading) (s : List Char) : motive r s := by
  match s with
  | [] => exact nil r
  | c :: cs =>
    have hpos := rules.one_le_length_lexeme r.region c cs
    exact cons r c cs (rules.read_induction nil cons _ _)
termination_by s.length
decreasing_by
  simp only [List.length_drop, List.length_cons]
  omega

/-! ### Code and comments -/

theorem Reading.region_take (r : Reading) (text : List Char) (next : Region) :
    (r.take text next).region = next := by
  unfold take
  split <;> rfl

theorem Quote.ofChar?_eq_none_iff : Quote.ofChar? c = none ↔ c ≠ '"' ∧ c ≠ '\'' := by
  unfold Quote.ofChar?
  split
  · simp_all
  · split <;> simp_all

namespace LexicalRules

theorem region_step (r : Reading) (c : Char) (cs : List Char) :
    (rules.step r c cs).region = (rules.lexeme r.region c cs).next :=
  r.region_take _ _

theorem read_outside {l : Lexeme} (hl : rules.lexeme r.region c cs = l)
    (hr : r.region.isLiteral = false) (hnext : l.next.isLiteral = false)
    (htears : r.region.tears c cs = false) :
    rules.read r (c :: cs)
      = rules.read { r with region := l.next } ((c :: cs).drop l.length) := by
  have hstep : rules.step r c cs = { r with region := l.next } := by
    rw [step, hl, htears, Bool.or_false]
    simp only [Reading.take, hr, hnext]
  rw [read_cons, hl, hstep]

/-- Outside of literals, characters that are lexemes of their own and keep the region are read over. -/
theorem read_over (hout : r.region.isLiteral = false)
    (hs : ∀ x ∈ s, ∀ rest, rules.lexeme r.region x rest = ⟨1, r.region⟩ ∧
      r.region.tears x rest = false) : rules.read r (s ++ cs) = rules.read r cs := by
  induction s with
  | nil => rfl
  | cons c s ih =>
    obtain ⟨hlexeme, htears⟩ := hs c List.mem_cons_self (s ++ cs)
    rw [List.cons_append, read_outside hlexeme hout hout htears]
    exact ih fun x hx => hs x (List.mem_cons_of_mem _ hx)

/-- Code without `#` and without quotes is read over. -/
theorem read_code (hr : r.region = .code) (hs : ∀ x ∈ s, isOpener x = false) :
    rules.read r (s ++ cs) = rules.read r cs := by
  refine read_over (by rw [hr]; rfl) fun x hx rest => ?_
  have hx := hs x hx
  simp only [isOpener, Bool.or_eq_false_iff, beq_eq_false_iff_ne] at hx
  rw [hr]
  refine ⟨?_, rfl⟩
  simp only [lexeme, if_neg hx.1.1, Quote.ofChar?_eq_none_iff.2 ⟨hx.1.2, hx.2⟩]

theorem read_hash (hr : r.region = .code) :
    rules.read r ('#' :: cs) = rules.read { r with region := .comment } cs := by
  have hlexeme : rules.lexeme r.region '#' cs = ⟨1, .comment⟩ := by
    simp only [hr, lexeme, if_true]
  exact read_outside hlexeme (by rw [hr]; rfl) rfl (by rw [hr]; rfl)

/-- A comment is read over up to a break. -/
theorem read_comment (hr : r.region = .comment) (hs : ∀ x ∈ s, isBreak x = false) :
    rules.read r (s ++ cs) = rules.read r cs := by
  refine read_over (by rw [hr]; rfl) fun x hx rest => ?_
  have hx := hs x hx
  simp only [isBreak, Bool.or_eq_false_iff, beq_eq_false_iff_ne] at hx
  have hbreak : ∀ rules : LexicalRules, rules.breakLength (x :: rest) = 0 := by
    intro rules
    unfold breakLength
    split <;> simp_all
  rw [hr]
  constructor
  · simp only [lexeme, hbreak, if_true]
  · simp only [Region.tears, startsWithLoneCr, hbreak]
    rfl

theorem read_break (hr : r.region = .comment) (hbreak : rules.breakLength (c :: cs) ≠ 0)
    (hlone : startsWithLoneCr (c :: cs) = false) :
    rules.read r (c :: cs)
      = rules.read { r with region := .code } ((c :: cs).drop (rules.breakLength (c :: cs))) := by
  have hlexeme : rules.lexeme r.region c cs = ⟨rules.breakLength (c :: cs), .code⟩ := by
    simp only [hr, lexeme, if_neg hbreak]
  exact read_outside hlexeme (by rw [hr]; rfl) rfl (by rw [hr]; exact hlone)

end LexicalRules

/-! ### Reading up to a line break -/

namespace LexicalRules

theorem breakLength_append (h : EndsWithBreak a b) (rules : LexicalRules) :
    rules.breakLength (a ++ b) = rules.breakLength a := by
  cases a with
  | nil => simp [EndsWithBreak] at h
  | cons c cs =>
    cases cs with
    | nil =>
      rcases h with h | ⟨h, hb⟩
      · obtain rfl : c = '\n' := by simpa using h
        rfl
      · obtain rfl : c = '\r' := by simpa using h
        cases b with
        | nil => rfl
        | cons x b =>
          have hx : x ≠ '\n' := by simpa using hb
          unfold breakLength
          simp [hx]
    | cons d ds =>
      unfold breakLength
      by_cases hr : c = '\r' <;> by_cases hn : c = '\n' <;> by_cases hd : d = '\n' <;>
        simp_all

theorem startsWithLoneCr_append (h : EndsWithBreak a b) :
    startsWithLoneCr (a ++ b) = startsWithLoneCr a := by
  rw [startsWithLoneCr, breakLength_append h, breakLength_append h]
  rfl

end LexicalRules

theorem Quote.triple_isPrefixOf_append (h : EndsWithBreak a b) (q : Quote) :
    q.triple.isPrefixOf (a ++ b) = q.triple.isPrefixOf a := by
  obtain ⟨x, hx, hbreak⟩ := h.exists_last
  obtain ⟨s, rfl⟩ := List.getLast?_eq_some_iff.1 hx
  have hhead : ∀ t y, (x :: t).head? = some y → isBreak y = true := by
    intro t y hy
    obtain rfl : x = y := by simpa using hy
    exact hbreak
  rw [List.append_assoc, List.singleton_append, q.triple_isPrefixOf_breaks (hhead b),
    q.triple_isPrefixOf_breaks (hhead [])]

/-- Up to a line break the lexemes do not depend on what follows. -/
theorem LexicalRules.lexeme_append (rules : LexicalRules) (region : Region)
    (h : EndsWithBreak (c :: cs) b) :
    rules.lexeme region c (cs ++ b) = rules.lexeme region c cs ∧
      (rules.lexeme region c cs).length ≤ (c :: cs).length := by
  have hbreak := breakLength_append h rules
  have htriple := Quote.triple_isPrefixOf_append h
  have hle := rules.breakLength_le (c :: cs)
  rw [List.cons_append] at hbreak
  simp only [List.cons_append] at htriple
  have hquotes : ∀ q : Quote, q.triple.isPrefixOf (c :: cs) = true → 3 ≤ (c :: cs).length := by
    intro q hq
    simpa [Quote.triple] using (List.isPrefixOf_iff_prefix.1 hq).length_le
  cases region with
  | code =>
    simp only [lexeme, htriple, true_and]
    split
    · simp
    · split
      · simp
      · rename_i q _
        split
        · rename_i hq
          exact hquotes q hq
        · simp
  | comment =>
    simp only [lexeme, hbreak, true_and]
    split
    · simp
    · exact hle
  | single q =>
    by_cases hc : c = '\\'
    · have hne := h.ne_nil_of_cons (by rw [hc]; decide)
      have hpos := List.length_pos_iff.2 hne
      have hrest := breakLength_append (h.of_cons hne) rules
      have hlen := rules.breakLength_le cs
      simp only [lexeme, hbreak, hrest, true_and]
      repeat' split
      all_goals simp
      all_goals omega
    · simp only [lexeme, hbreak, if_neg hc, true_and]
      repeat' split
      all_goals simp_all
  | triple q =>
    simp only [lexeme, htriple, true_and]
    split
    · rename_i hc
      have hpos := List.length_pos_iff.2 (h.ne_nil_of_cons (by rw [hc]; decide))
      simp
      omega
    · split
      · rename_i hq
        exact hquotes q hq
      · simp

/-- Nor does it depend on what follows whether Python's rules matter. -/
theorem Region.tears_append (region : Region) (h : EndsWithBreak (c :: cs) b) :
    region.tears c (cs ++ b) = region.tears c cs := by
  have hlone := LexicalRules.startsWithLoneCr_append h
  rw [List.cons_append] at hlone
  cases region with
  | code => rfl
  | comment => exact hlone
  | single q =>
    rw [Region.tears, Region.tears, hlone]
    by_cases hc : c = '\\'
    · have hne := h.ne_nil_of_cons (by rw [hc]; decide)
      rw [LexicalRules.breakLength_append (h.of_cons hne)]
    · rw [beq_false_of_ne hc]
      rfl
  | triple q => rfl

namespace LexicalRules

/-- **A text up to a line break is read without what follows it.** -/
theorem read_append (rules : LexicalRules) (r : Reading) (h : EndsWithBreak a b) :
    rules.read r (a ++ b) = rules.read (rules.read r a) b := by
  induction r, a using rules.read_induction with
  | nil r => rfl
  | cons r c cs ih =>
    obtain ⟨hlexeme, hle⟩ := rules.lexeme_append r.region h
    have hstep : rules.step r c (cs ++ b) = rules.step r c cs := by
      rw [step, step, hlexeme, r.region.tears_append h, ← List.cons_append,
        List.take_append_of_le_length hle]
    rw [List.cons_append, read_cons, read_cons, hlexeme, hstep, ← List.cons_append,
      List.drop_append_of_le_length hle]
    rcases Nat.lt_or_eq_of_le hle with hlt | heq
    · exact ih (h.drop hlt)
    · rw [heq, List.drop_length]
      rfl

theorem torn_read (rules : LexicalRules) (h : r.torn = true) : (rules.read r s).torn = true := by
  induction r, s using rules.read_induction with
  | nil r => exact h
  | cons r c cs ih =>
    rw [read_cons]
    exact ih (by rw [step, h, Bool.true_or])

theorem torn_of_read (h : (rules.read r s).torn = false) : r.torn = false := by
  cases htorn : r.torn with
  | false => rfl
  | true => rw [rules.torn_read htorn] at h; exact Bool.noConfusion h

theorem tears_of_read (h : (rules.read r (c :: cs)).torn = false) :
    r.region.tears c cs = false := by
  rw [read_cons] at h
  exact (Bool.or_eq_false_iff.1 (torn_of_read h)).2

theorem breakLength_python (h : linewise.breakLength s = 0) : python.breakLength s ≤ 1 := by
  unfold breakLength at h ⊢
  split <;> simp_all [python]

/-- Where nothing tears, both sets of rules find the same lexeme. -/
theorem lexeme_linewise (h : region.tears c cs = false) :
    linewise.lexeme region c cs = python.lexeme region c cs := by
  cases region with
  | code => rfl
  | comment =>
    have hsame : python.breakLength (c :: cs) = linewise.breakLength (c :: cs) := by
      simpa [Region.tears, startsWithLoneCr] using h
    simp only [lexeme, hsame]
  | single q =>
    simp only [Region.tears, Bool.or_eq_false_iff] at h
    have hsame : python.breakLength (c :: cs) = linewise.breakLength (c :: cs) := by
      simpa [startsWithLoneCr] using h.1
    by_cases hc : c = '\\'
    · have hnone : linewise.breakLength cs = 0 := by simpa [hc] using h.2
      have hone := breakLength_python hnone
      -- an escape of a carriage return alone takes one character by either rules
      have hescape : (if python.breakLength cs = 0 then (⟨2, .single q⟩ : Lexeme)
          else ⟨python.breakLength cs + 1, if python.continues then .single q else .code⟩)
            = ⟨2, .single q⟩ := by
        split
        · rfl
        · rw [show python.breakLength cs = 1 by omega]
          rfl
      simp only [lexeme, hsame, hnone, hescape, if_true]
    · simp only [lexeme, hsame, if_neg hc]
  | triple q => rfl

/-- **As long as nothing is torn, both sets of rules read the same.** -/
theorem read_linewise (h : (python.read r s).torn = false) :
    linewise.read r s = python.read r s := by
  induction r, s using python.read_induction with
  | nil r => rfl
  | cons r c cs ih =>
    have hlexeme := lexeme_linewise (tears_of_read h)
    have hstep : linewise.step r c cs = python.step r c cs := by
      rw [step, step, hlexeme]
    rw [read_cons] at h
    rw [read_cons, read_cons, hlexeme, hstep]
    exact ih h

end LexicalRules

end CodeTidy.Comment
