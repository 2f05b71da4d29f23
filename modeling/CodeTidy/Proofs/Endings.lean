import CodeTidy.LineEnding
import CodeTidy.Proofs.Text.Lines
import CodeTidy.Proofs.Text.Utf8

/-!
# Laws of line endings

Without carriage returns a text has the class LF (`detect_of_noCr`) and its CRLF form is
`expandLf` (`normalize_crlf_of_noCr`), which has the class CRLF as soon as it has a break at all
(`detect_expandLf`).  So giving an output the line endings of a text is idempotent
(`reapply_reapply`), and it keeps a break at the end (`endsLine_reapply`).
-/

namespace CodeTidy

/-! ### Counting -/

namespace Breaks

attribute [ext] Breaks

instance : Add Breaks :=
  ⟨fun a b => ⟨a.crlf + b.crlf, a.lf + b.lf⟩⟩

@[simp] theorem crlf_add (a b : Breaks) : (a + b).crlf = a.crlf + b.crlf := rfl

@[simp] theorem lf_add (a b : Breaks) : (a + b).lf = a.lf + b.lf := rfl

section sequences

variable {α : Type} {isCr isLf : α → Bool} {afterCr : Bool}

/-- Whether a carriage return stands at the end of a sequence; before an empty one, `afterCr` says
so. -/
def endsWithCr (isCr : α → Bool) (afterCr : Bool) (s : List α) : Bool :=
  (s.getLast?.map isCr).getD afterCr

theorem endsWithCr_cons (x : α) (s : List α) :
    endsWithCr isCr afterCr (x :: s) = endsWithCr isCr (isCr x) s := by
  cases h : s.getLast? <;> simp [endsWithCr, List.getLast?_cons, h]

theorem endsWithCr_beq_iff [BEq α] [LawfulBEq α] {x : α} {s : List α} :
    endsWithCr (· == x) false s = true ↔ s.getLast? = some x := by
  cases h : s.getLast? <;> simp [endsWithCr, h]

/-- The breaks of the second sequence depend on the end of the first. -/
theorem count_append (a b : List α) :
    count isCr isLf afterCr (a ++ b)
      = count isCr isLf afterCr a + count isCr isLf (endsWithCr isCr afterCr a) b := by
  induction a generalizing afterCr with
  | nil => ext <;> simp [count, endsWithCr]
  | cons x a ih =>
    rw [List.cons_append, count, count, ih, endsWithCr_cons]
    split
    · cases afterCr <;> ext <;> simp <;> omega
    · rfl

end sequences

theorem count_of_noCr :
    ∀ {text : List Char}, '\r' ∉ text → (count (· == '\r') (· == '\n') false text).crlf = 0
  | [], _ => rfl
  | c :: cs, h => by
    obtain ⟨hc, hcs⟩ := List.ne_and_not_mem_of_not_mem_cons h
    have hcr : (c == '\r') = false := beq_false_of_ne (Ne.symm hc)
    have ih := count_of_noCr hcs
    rw [count, hcr]
    split
    · exact ih
    · exact ih

theorem count_of_noLf {text : List Char} (h : '\n' ∉ text) (afterCr : Bool) :
    count (· == '\r') (· == '\n') afterCr text = ⟨0, 0⟩ := by
  induction text generalizing afterCr with
  | nil => rfl
  | cons c cs ih =>
    obtain ⟨hc, hcs⟩ := List.ne_and_not_mem_of_not_mem_cons h
    rw [count, beq_false_of_ne (Ne.symm hc)]
    exact ih hcs _

/-- When the line feeds of a text are written as CRLF, every break is one. -/
theorem count_expandLf (text : List Char) (afterCr : Bool) :
    count (· == '\r') (· == '\n') afterCr (LineEnding.expandLf text) = ⟨text.count '\n', 0⟩ := by
  induction text generalizing afterCr with
  | nil => rfl
  | cons c cs ih =>
    unfold LineEnding.expandLf at ih ⊢
    rw [List.flatMap_cons]
    by_cases hn : c = '\n'
    · simp [hn, count, ih]
    · simp [hn, count, ih]

/-! ### Counting piece by piece -/

/-- What stands before a line feed does not matter after it. -/
theorem count_append_newline (afterCr : Bool) (a b : List Char) :
    count (· == '\r') (· == '\n') afterCr (a ++ '\n' :: b)
      = count (· == '\r') (· == '\n') afterCr (a ++ ['\n']) + ofText b := by
  have hcr : endsWithCr (· == '\r') afterCr (a ++ ['\n']) = false := by simp [endsWithCr]
  rw [List.append_cons, count_append, hcr]
  rfl

/-- A line that does not end with a carriage return has no part in the breaks after it. -/
theorem count_append_of_notMem {line : List Char} (h : '\n' ∉ line)
    (hlast : line.getLast? ≠ some '\r') (text : List Char) :
    ofText (line ++ text) = ofText text := by
  have hcr : endsWithCr (· == '\r') false line = false := by
    rw [← Bool.not_eq_true, endsWithCr_beq_iff]
    exact hlast
  rw [ofText, count_append, count_of_noLf h, hcr]
  ext <;> simp [ofText]

/-- **The breaks of a text are those of its first terminator and those of the rest.** -/
theorem ofText_of_firstPiece {source line terminator rest : List Char}
    (h : Text.FirstPiece source line terminator rest) :
    ofText source = ofText terminator + ofText rest := by
  have hcr : line.getLast? ≠ some '\r' := fun e => by simpa [Text.isBreak] using h.last _ e
  have hline : ofText source = ofText (terminator ++ rest) := by
    rw [h.eq, List.append_assoc]
    exact count_append_of_notMem h.notMem hcr _
  rw [hline]
  rcases h.ends with ⟨crs, rfl, -⟩ | ⟨-, rfl⟩
  · rw [List.append_assoc]
    exact count_append_newline false crs rest
  · rw [List.append_nil]
    rfl

/-- The second breaks are the first and more of the kind that prevails. -/
def Grows (crlf : Bool) (a b : Breaks) : Prop :=
  if crlf then b.lf = a.lf ∧ a.crlf ≤ b.crlf else b.crlf = a.crlf ∧ a.lf ≤ b.lf

variable {crlf : Bool} {a b : Breaks}

theorem Grows.refl (crlf : Bool) (a : Breaks) : Grows crlf a a := by
  cases crlf <;> simp [Grows]

theorem Grows.trans {c : Breaks} (h : Grows crlf a b) (h' : Grows crlf b c) : Grows crlf a c := by
  cases crlf
  · obtain ⟨hcrlf, hlf⟩ := h
    obtain ⟨hcrlf', hlf'⟩ := h'
    exact ⟨hcrlf'.trans hcrlf, hlf.trans hlf'⟩
  · obtain ⟨hlf, hcrlf⟩ := h
    obtain ⟨hlf', hcrlf'⟩ := h'
    exact ⟨hlf'.trans hlf, hcrlf.trans hcrlf'⟩

theorem Grows.add_left (h : Grows crlf a b) (c : Breaks) : Grows crlf (c + a) (c + b) := by
  cases crlf <;> simpa [Grows] using h

theorem Grows.crlfDominates_eq (h : Grows a.crlfDominates a b) :
    b.crlfDominates = a.crlfDominates := by
  unfold crlfDominates at h ⊢
  by_cases ha : a.lf < a.crlf
  · have hb : b.lf < b.crlf := by
      simp only [ha, decide_true, Grows, if_true] at h
      omega
    simp [ha, hb]
  · have hb : ¬ b.lf < b.crlf := by
      simp only [ha, decide_false, Grows, Bool.false_eq_true, if_false] at h
      omega
    simp [ha, hb]

end Breaks

namespace LineEnding

variable {text source output : List Char}

/-! ### Classes -/

theorem detect_of_noCr (h : '\r' ∉ text) : detect text = .lf := by
  rw [detect, Breaks.ofText, Breaks.ending, if_pos (Breaks.count_of_noCr h)]

theorem toLf_of_noCr (h : '\r' ∉ text) : toLf text = text := by
  fun_induction toLf text with
  | case1 cs ih => simp at h
  | case2 c cs _ ih => rw [ih (List.ne_and_not_mem_of_not_mem_cons h).2]
  | case3 => rfl

theorem normalize_crlf_of_noCr (h : '\r' ∉ text) : normalize .crlf text = expandLf text := by
  rw [normalize, toLf_of_noCr h]

theorem expandLf_eq_self (h : '\n' ∉ text) : expandLf text = text := by
  induction text with
  | nil => rfl
  | cons c cs ih =>
    obtain ⟨hc, hcs⟩ := List.ne_and_not_mem_of_not_mem_cons h
    unfold expandLf at ih ⊢
    rw [List.flatMap_cons, if_neg (Ne.symm hc), ih hcs]
    rfl

theorem detect_expandLf (hn : '\n' ∈ text) : detect (expandLf text) = .crlf := by
  have hpos : text.count '\n' ≠ 0 := Nat.ne_of_gt (List.count_pos_iff.2 hn)
  rw [detect, Breaks.ofText, Breaks.count_expandLf, Breaks.ending]
  simp [hpos]

/-! ### Giving an output the line endings of a text -/

/-- An output without carriage returns is either left alone or brought into its CRLF form. -/
theorem reapply_of_noCr (h : '\r' ∉ output) :
    reapply source output = if detect source = .crlf then expandLf output else output := by
  unfold reapply
  rw [detect_of_noCr h]
  cases detect source with
  | lf => rfl
  | crlf =>
    simp only [reduceCtorEq, if_false, if_true]
    exact normalize_crlf_of_noCr h
  | mixed => rfl

/-- **The line endings that a text has given to an output are those that it gives again.** -/
theorem reapply_reapply (h : '\r' ∉ output) (source : List Char) :
    reapply (reapply source output) output = reapply source output := by
  rw [reapply_of_noCr h, reapply_of_noCr h]
  by_cases hs : detect source = .crlf
  · rw [if_pos hs]
    by_cases hn : '\n' ∈ output
    · rw [if_pos (detect_expandLf hn)]
    · rw [expandLf_eq_self hn, ite_self]
  · rw [if_neg hs, detect_of_noCr h, if_neg (by decide)]

/-! ### Breaks at the end -/

/-- The text is empty or ends with a line feed. -/
def EndsLine (text : List Char) : Prop :=
  text = [] ∨ ∃ line, text = line ++ ['\n']

theorem endsLine_expandLf (h : EndsLine text) : EndsLine (expandLf text) := by
  obtain rfl | ⟨line, rfl⟩ := h
  · exact .inl rfl
  · refine .inr ⟨expandLf line ++ ['\r'], ?_⟩
    simp [expandLf]

theorem endsLine_reapply (h : '\r' ∉ output) (he : EndsLine output) (source : List Char) :
    EndsLine (reapply source output) := by
  rw [reapply_of_noCr h]
  split
  · exact endsLine_expandLf he
  · exact he

end LineEnding

/-! ### Bytes -/

namespace Utf8

theorem getLast?_encode_of_endsLine {text : String} (h : LineEnding.EndsLine text.toList)
    {last : UInt8} (hl : (encode text).getLast? = some last) : last = 10 := by
  obtain h | ⟨line, h⟩ := h
  · obtain rfl : text = "" := String.toList_inj.1 h
    simp [encode] at hl
  · obtain rfl : text = String.ofList line ++ "\n" := String.toList_inj.1 (by simp [h])
    have e : encode "\n" = [10] := by rfl
    rw [encode_append, e] at hl
    simpa using hl.symm

end Utf8

end CodeTidy
