import CodeTidy.Diagnostic
import CodeTidy.Proofs.Text.Lines

/-!
# Findings that are printed and read

A line is a finding when its parts are a row, a column and a code, with a colon after each, and a
text (`Parts`), and `Diagnostic.parse?` reads exactly the lines that have such parts and whose
numbers are not too large (`parse?_eq_some_iff`).  So a printable finding is read as it was
(`parse?_render`), and of a checker's output, whatever noise stands between the findings, all
findings come back in their order (`parseAll_of_prints`).
-/

namespace CodeTidy.Diagnostic

open CodeTidy.Text

/-! ### The format of a line -/

/-- Some characters, all of one kind. -/
structure IsRun (kind : Char → Bool) (s : List Char) : Prop where
  ne_nil : s ≠ []
  all : ∀ c ∈ s, kind c = true

/-- Upper-case letters, and then decimal digits. -/
def IsCode (s : List Char) : Prop :=
  ∃ letters digits, s = letters ++ digits ∧ IsRun Char.isUpper letters ∧
    IsRun isDecimalDigit digits

/-- The parts of a line that is a finding. -/
structure Parts (line row column code text : List Char) : Prop where
  eq : line = row ++ ':' :: (column ++ ':' :: (code ++ ':' :: text))
  row : IsRun isDecimalDigit row
  column : IsRun isDecimalDigit column
  code : IsCode code

/-- Whether a line without blanks at its end is a finding, whatever its numbers are. -/
def IsFinding (line : List Char) : Prop :=
  ∃ row column code text, Parts line row column code text

theorem isUpper_eq_false_of_isDecimalDigit {c : Char} (h : isDecimalDigit c = true) :
    c.isUpper = false := by
  have hruns : ∀ run ∈ digitRuns, run.2 < 65 ∨ 90 < run.1 := by decide
  obtain ⟨run, hrun, hc⟩ := List.any_eq_true.1 h
  rw [Bool.and_eq_true, decide_eq_true_eq, decide_eq_true_eq] at hc
  refine Bool.eq_false_iff.2 fun hu => ?_
  obtain ⟨hlow, hhigh⟩ := of_decide_eq_true hu
  have hlow : 65 ≤ c.toNat := UInt32.le_iff_toNat_le.1 hlow
  have hhigh : c.toNat ≤ 90 := UInt32.le_iff_toNat_le.1 hhigh
  rcases hruns run hrun with h | h <;> omega

/-! ### Reading the parts -/

variable {s rest digits code line : List Char} {d : Diagnostic}

theorem field?_eq_some_iff :
    field? s = some (digits, rest) ↔ IsRun isDecimalDigit digits ∧ s = digits ++ ':' :: rest := by
  constructor
  · intro h
    unfold field? at h
    split at h
    · rename_i c cs rest' hrun hrest
      obtain ⟨rfl, rfl⟩ := Prod.mk.inj (Option.some.inj h)
      refine ⟨⟨by simp, fun x hx => ?_⟩, ?_⟩
      · rw [← hrun] at hx
        exact List.mem_takeWhile_imp hx
      · rw [← hrun, ← hrest, List.takeWhile_append_dropWhile]
    · simp at h
  · rintro ⟨⟨hne, hall⟩, rfl⟩
    obtain ⟨c, cs, rfl⟩ := List.exists_cons_of_ne_nil hne
    have hcolon : ∀ x, (':' :: rest).head? = some x → isDecimalDigit x = false := by
      simp only [List.head?_cons, Option.some.injEq, forall_eq']
      decide
    unfold field?
    rw [takeWhile_append_of_head hall hcolon, dropWhile_append_of_head hall hcolon]
    rfl

theorem code?_eq_some_iff :
    code? s = some (code, rest) ↔ IsCode code ∧ s = code ++ ':' :: rest := by
  constructor
  · intro h
    unfold code? at h
    dsimp only at h
    split at h
    · simp at h
    · rename_i hne
      obtain ⟨⟨digits, rest'⟩, hfield, e⟩ := Option.map_eq_some_iff.1 h
      obtain ⟨rfl, rfl⟩ := Prod.mk.inj e
      obtain ⟨hdigits, hs⟩ := field?_eq_some_iff.1 hfield
      refine ⟨⟨_, digits, rfl, ⟨by simpa using hne, fun x hx => List.mem_takeWhile_imp hx⟩,
        hdigits⟩, ?_⟩
      rw [List.append_assoc, ← hs, List.takeWhile_append_dropWhile]
  · rintro ⟨⟨letters, digits, rfl, ⟨hne, hall⟩, hdigits⟩, rfl⟩
    obtain ⟨c, cs, rfl⟩ := List.exists_cons_of_ne_nil hdigits.ne_nil
    have hdigit : ∀ x, (c :: cs ++ ':' :: rest).head? = some x → x.isUpper = false := by
      intro x hx
      obtain rfl : c = x := by simpa using hx
      exact isUpper_eq_false_of_isDecimalDigit (hdigits.all c List.mem_cons_self)
    have hfield : field? (c :: cs ++ ':' :: rest) = some (c :: cs, rest) :=
      field?_eq_some_iff.2 ⟨hdigits, rfl⟩
    unfold code?
    dsimp only
    rw [List.append_assoc, takeWhile_append_of_head hall hdigit,
      dropWhile_append_of_head hall hdigit, hfield, if_neg (by simpa using hne)]
    rfl

/-- **A line is read as a finding exactly when it has the parts of one.**  Blanks at its end are no
part of it, and of the text one blank at the beginning is not. -/
theorem parse?_eq_some_iff :
    parse? line = some d ↔ ∃ row column code text, Parts (trimEnd line) row column code text ∧
      number? row = some d.line ∧ number? column = some d.column ∧ d.cell = none ∧
      d.code = String.ofList code ∧ d.message = String.ofList (messageOf text) := by
  unfold parse?
  simp only [Option.bind_eq_bind, Option.bind_eq_some_iff, Prod.exists, field?_eq_some_iff,
    code?_eq_some_iff]
  constructor
  · rintro ⟨row, s, ⟨hrow, hs⟩, column, s', ⟨hcolumn, rfl⟩, code, text, ⟨hcode, rfl⟩, n, hn, m, hm,
      e⟩
    obtain rfl := Option.some.inj e
    exact ⟨row, column, code, text, ⟨hs, hrow, hcolumn, hcode⟩, hn, hm, rfl, rfl, rfl⟩
  · rintro ⟨row, column, code, text, ⟨hs, hrow, hcolumn, hcode⟩, hn, hm, hcell, hd, hmessage⟩
    refine ⟨row, _, ⟨hrow, hs⟩, column, _, ⟨hcolumn, rfl⟩, code, text, ⟨hcode, rfl⟩, _, hn, _, hm,
      ?_⟩
    rw [← hcell, ← hd, ← hmessage]
    rfl

theorem isFinding_of_parse? (h : parse? line = some d) : IsFinding (trimEnd line) := by
  obtain ⟨row, column, code, text, hparts, -⟩ := parse?_eq_some_iff.1 h
  exact ⟨row, column, code, text, hparts⟩

theorem parse?_congr {line' : List Char} (h : trimEnd line = trimEnd line') :
    parse? line = parse? line' := by
  rw [parse?, parse?, h]

/-! ### Printed numbers -/

theorem digitsValue?_eq : ∀ {digits : List Char} (n : Nat), (∀ c ∈ digits, c.isDigit = true) →
    digitsValue? n digits = some (Nat.ofDigitChars 10 digits n)
  | [], n, _ => by simp [digitsValue?]
  | c :: cs, n, h => by
    obtain ⟨hc, hcs⟩ := List.forall_mem_cons.1 h
    rw [digitsValue?, if_pos hc, digitsValue?_eq _ hcs, Nat.ofDigitChars_cons, Nat.mul_comm]
    rfl

theorem number?_toDigits {n : Nat} (h : n < 0x10000000000000000) :
    number? (Nat.toDigits 10 n) = some n := by
  have hdigits : ∀ c ∈ Nat.toDigits 10 n, c.isDigit = true := fun c hc =>
    Nat.isDigit_of_mem_toDigits (by decide) (by decide) hc
  rw [number?, digitsValue?_eq 0 hdigits, Nat.ofDigitChars_toDigits (by decide) (by decide)]
  refine Option.filter_eq_some_iff.2 ⟨rfl, decide_eq_true ?_⟩
  rw [maxNumber]
  omega

theorem isRun_toDigits (n : Nat) : IsRun isDecimalDigit (Nat.toDigits 10 n) where
  ne_nil := Nat.toDigits_ne_nil
  all := fun _ hc =>
    isDecimalDigit_of_isDigit (Nat.isDigit_of_mem_toDigits (by decide) (by decide) hc)

/-! ### Printed findings -/

/-- A finding that a checker can print: its numbers fit 64 bits, its code is made of letters and
ASCII digits, and its text stays on its line and begins and ends with no blank. -/
structure Printable (d : Diagnostic) : Prop where
  line : d.line < 0x10000000000000000
  column : d.column < 0x10000000000000000
  cell : d.cell = none
  code : ∃ letters digits, d.code.toList = letters ++ digits ∧ IsRun Char.isUpper letters ∧
    IsRun Char.isDigit digits
  message : Trimmed d.message.toList
  noBreak : '\n' ∉ d.message.toList

theorem Printable.isCode (h : d.Printable) : IsCode d.code.toList := by
  obtain ⟨letters, digits, hcode, hletters, hne, hdigits⟩ := h.code
  refine ⟨letters, digits, hcode, hletters, hne, fun c hc => ?_⟩
  exact isDecimalDigit_of_isDigit (hdigits c hc)

theorem toList_render (d : Diagnostic) :
    d.render.toList = Nat.toDigits 10 d.line ++ ':' :: (Nat.toDigits 10 d.column
      ++ ':' :: (d.code.toList ++ ':' :: d.message.toList)) := by
  simp [render, Nat.toList_repr, ToString.toString]

theorem Printable.parts (h : d.Printable) :
    Parts d.render.toList (Nat.toDigits 10 d.line) (Nat.toDigits 10 d.column) d.code.toList
      d.message.toList :=
  ⟨d.toList_render, isRun_toDigits _, isRun_toDigits _, h.isCode⟩

/-- A printed finding ends with the colon before an empty text, or as the text does. -/
theorem Printable.trimEnd_render (h : d.Printable) : trimEnd d.render.toList = d.render.toList := by
  have hlast : ∀ c, d.render.toList.getLast? = some c → isBlank c = false := by
    intro c hc
    have hc : d.message.toList.getLast?.or (some ':') = some c := by
      rw [← hc, toList_render]
      cases hlast : d.message.toList.getLast? <;>
        simp [List.getLast?_append, List.getLast?_cons, hlast]
    rcases Option.or_eq_some_iff.1 hc with hc | ⟨-, hc⟩
    · exact h.message.last c hc
    · obtain rfl := Option.some.inj hc
      decide
  simpa [trimEnd] using dropEndWhile_append (b := []) hlast (by simp)

/-- **A printed finding is read as it was.** -/
theorem Printable.parse?_render (h : d.Printable) : parse? d.render.toList = some d := by
  have hmessage : messageOf d.message.toList = d.message.toList := by
    cases hm : d.message.toList with
    | nil => rfl
    | cons c cs =>
      have hc : isBlank c = false := h.message.head c (by rw [hm]; rfl)
      rw [messageOf, if_neg (by simp [hc])]
  have hparts := h.parts
  rw [← h.trimEnd_render] at hparts
  refine parse?_eq_some_iff.2 ⟨_, _, _, _, hparts, number?_toDigits h.line,
    number?_toDigits h.column, h.cell, String.ofList_toList.symm, ?_⟩
  rw [hmessage, String.ofList_toList]

theorem Printable.notMem_render (h : d.Printable) : '\n' ∉ d.render.toList := by
  have hdigit : ∀ n, '\n' ∉ Nat.toDigits 10 n := fun n hn =>
    absurd ((isRun_toDigits n).all _ hn) (by decide)
  have hcode : '\n' ∉ d.code.toList := by
    obtain ⟨letters, digits, hcode, hletters, hdigits⟩ := h.isCode
    rw [hcode, List.mem_append, not_or]
    exact ⟨fun hn => absurd (hletters.all _ hn) (by decide),
      fun hn => absurd (hdigits.all _ hn) (by decide)⟩
  simp [toList_render, hdigit, hcode, h.noBreak]

/-! ### The output of a checker -/

/-- A line of a checker's output. -/
inductive OutputLine where
  | finding (d : Diagnostic)
  /-- What is no finding. -/
  | noise (text : List Char)

namespace OutputLine

def text : OutputLine → List Char
  | finding d => d.render.toList
  | noise text => text

def finding? : OutputLine → Option Diagnostic
  | finding d => some d
  | noise _ => none

/-- Findings are printable, and noise is one line that is no finding. -/
def Sound : OutputLine → Prop
  | finding d => d.Printable
  | noise text => '\n' ∉ text ∧ ¬ IsFinding (trimEnd text)

variable {l : OutputLine}

theorem Sound.notMem_text (h : l.Sound) : '\n' ∉ l.text := by
  cases l with
  | finding d => exact Printable.notMem_render h
  | noise text => exact h.1

theorem Sound.parse?_text (h : l.Sound) : parse? l.text = l.finding? := by
  cases l with
  | finding d => exact Printable.parse?_render h
  | noise text =>
    refine Option.eq_none_iff_forall_ne_some.2 fun d hd => h.2 ?_
    exact isFinding_of_parse? hd

end OutputLine

/-- A checker prints lines one after the other, each with a break after it; after the last line the
break can be missing. -/
inductive Prints : List OutputLine → List Char → Prop
  | nil : Prints [] []
  | last (l : OutputLine) : Prints [l] l.text
  | lf {ls : List OutputLine} {output : List Char} (l : OutputLine) (h : Prints ls output) :
      Prints (l :: ls) (l.text ++ '\n' :: output)
  | crlf {ls : List OutputLine} {output : List Char} (l : OutputLine) (h : Prints ls output) :
      Prints (l :: ls) (l.text ++ '\r' :: '\n' :: output)

/-- What stands on one line is read alone, also with a carriage return at its end. -/
theorem parseAll_line_newline {cr : List Char} (hline : '\n' ∉ line) (hcr : cr = [] ∨ cr = ['\r'])
    (output : List Char) :
    parseAll (line ++ cr ++ '\n' :: output) = (parse? line).toList ++ parseAll output := by
  have hmem : '\n' ∉ line ++ cr := by
    rcases hcr with rfl | rfl <;> simpa using hline
  have htrim : trimEnd (dropTerminator (line ++ cr ++ ['\n'])) = trimEnd line := by
    rw [trimEnd_dropTerminator, List.append_assoc]
    refine dropEndWhile_append_run _ ?_
    rcases hcr with rfl | rfl <;> exact List.all_eq_true.1 (by decide)
  rw [parseAll, parseAll, lines_line_newline hmem, List.filterMap_cons, parse?_congr htrim]
  cases parse? line <;> rfl

theorem parseAll_last (hline : '\n' ∉ line) : parseAll line = (parse? line).toList := by
  cases line with
  | nil => rfl
  | cons c cs =>
    have hlines : lines (c :: cs) = [dropTerminator (c :: cs)] := by
      rw [lines, pieces_of_notMem (by simp) hline]
      rfl
    rw [parseAll, hlines, List.filterMap_cons, parse?_congr (trimEnd_dropTerminator _)]
    cases parse? (c :: cs) <;> rfl

/-- **Of what a checker prints exactly the findings are read**, in their order. -/
theorem parseAll_of_prints {ls : List OutputLine} {output : List Char} (h : Prints ls output)
    (hsound : ∀ l ∈ ls, l.Sound) : parseAll output = ls.filterMap OutputLine.finding? := by
  induction h with
  | nil => rfl
  | last l =>
    have hl := hsound l List.mem_cons_self
    rw [parseAll_last hl.notMem_text, hl.parse?_text]
    cases l <;> rfl
  | lf l _ ih =>
    obtain ⟨hl, hls⟩ := List.forall_mem_cons.1 hsound
    have hline := parseAll_line_newline hl.notMem_text (.inl rfl)
    rw [List.append_nil] at hline
    rw [hline, hl.parse?_text, ih hls]
    cases l <;> rfl
  | crlf l _ ih =>
    obtain ⟨hl, hls⟩ := List.forall_mem_cons.1 hsound
    have hline := parseAll_line_newline hl.notMem_text (.inr rfl)
    rw [List.append_cons, hline, hl.parse?_text, ih hls]
    cases l <;> rfl

end CodeTidy.Diagnostic
