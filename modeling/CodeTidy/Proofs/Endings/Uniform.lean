import CodeTidy.Proofs.Endings

/-!
# Texts with breaks of one class

A text is uniform for a class when none of its line feeds belongs to the other one (`Uniform`).
Giving an output the line endings of a text with CRLF breaks always makes it uniform; for a text
with LF breaks it does exactly when no line feed of the output has two carriage returns before it
(`uniform_reapply_iff`): one of them is dropped, and the other makes a CRLF break again.
-/

namespace CodeTidy

namespace Breaks

/-! ### Where the breaks of each kind stand -/

section sequences

variable {α : Type} {isCr isLf : α → Bool} {afterCr : Bool}

/-- How many breaks of a kind there are. -/
def ofKind (crlf : Bool) (b : Breaks) : Nat :=
  if crlf then b.crlf else b.lf

theorem ofKind_add (crlf : Bool) (a b : Breaks) :
    (a + b).ofKind crlf = a.ofKind crlf + b.ofKind crlf := by
  cases crlf <;> rfl

/-- No break of a kind is counted exactly when every line feed is one of the other kind. -/
theorem ofKind_count_eq_zero_iff (crlf : Bool) {s : List α} :
    (count isCr isLf afterCr s).ofKind crlf = 0 ↔
      ∀ a x b, s = a ++ x :: b → isLf x = true → endsWithCr isCr afterCr a = !crlf := by
  constructor
  · rintro h a x b rfl hx
    rw [count_append, ofKind_add, count, hx] at h
    cases crlf <;> cases hcr : endsWithCr isCr afterCr a <;> simp [ofKind, hcr] at h ⊢
  · intro h
    induction s generalizing afterCr with
    | nil => cases crlf <;> rfl
    | cons x s ih =>
      have hs : (count isCr isLf (isCr x) s).ofKind crlf = 0 := by
        refine ih fun a y b hs hy => ?_
        rw [← endsWithCr_cons]
        exact h (x :: a) y b (by rw [hs, List.cons_append]) hy
      rw [count]
      split
      · rename_i hx
        have hcr : afterCr = !crlf := h [] x s rfl hx
        cases crlf <;> simpa [ofKind, hcr] using hs
      · exact hs

end sequences

end Breaks

namespace LineEnding

variable {text source output : List Char}

/-! ### Uniform texts -/

/-- No line feed of the text belongs to the other class.  Mixed endings set no rule. -/
def Uniform (target : LineEnding) (text : List Char) : Prop :=
  match target with
  | .lf => ∀ before after, text = before ++ '\n' :: after → before.getLast? ≠ some '\r'
  | .crlf => ∀ before after, text = before ++ '\n' :: after → before.getLast? = some '\r'
  | .mixed => True

theorem uniform_lf_iff : Uniform .lf text ↔ (Breaks.ofText text).crlf = 0 := by
  refine Iff.trans ?_ (Breaks.ofKind_count_eq_zero_iff true).symm
  constructor
  · intro h a x b hs hx
    obtain rfl : x = '\n' := by simpa using hx
    rw [Bool.not_true, ← Bool.not_eq_true, Breaks.endsWithCr_beq_iff]
    exact h a b hs
  · intro h a b hs
    rw [ne_eq, ← Breaks.endsWithCr_beq_iff, Bool.not_eq_true]
    exact h a '\n' b hs rfl

theorem uniform_crlf_iff : Uniform .crlf text ↔ (Breaks.ofText text).lf = 0 := by
  refine Iff.trans ?_ (Breaks.ofKind_count_eq_zero_iff false).symm
  constructor
  · intro h a x b hs hx
    obtain rfl : x = '\n' := by simpa using hx
    exact Breaks.endsWithCr_beq_iff.2 (h a b hs)
  · intro h a b hs
    exact Breaks.endsWithCr_beq_iff.1 (h a '\n' b hs rfl)

/-- A text is uniform for LF exactly when it has no CRLF break at all. -/
theorem uniform_lf_iff_no_crlf : Uniform .lf text ↔ ¬ ['\r', '\n'] <:+: text := by
  constructor
  · rintro h ⟨a, b, rfl⟩
    exact h (a ++ ['\r']) b (by simp) (by simp)
  · rintro h a b rfl hlast
    obtain ⟨a', rfl⟩ := List.getLast?_eq_some_iff.1 hlast
    exact h ⟨a', b, by simp⟩

theorem detect_eq_lf_iff : detect text = .lf ↔ Uniform .lf text := by
  rw [uniform_lf_iff, detect, Breaks.ending]
  split
  · simp_all
  · split <;> simp_all

/-- **A text that is uniform for a class belongs to it**, unless it has no break at all. -/
theorem detect_of_uniform {target : LineEnding} (ht : target ≠ .mixed) (h : Uniform target text)
    (hn : '\n' ∈ text) : detect text = target := by
  cases target with
  | lf => exact detect_eq_lf_iff.2 h
  | crlf =>
    have hlf := uniform_crlf_iff.1 h
    have hcrlf : (Breaks.ofText text).crlf ≠ 0 := by
      intro e
      obtain ⟨a, b, rfl⟩ := List.append_of_mem hn
      exact uniform_lf_iff.2 e a b rfl (h a b rfl)
    rw [detect, Breaks.ending, if_neg hcrlf, if_pos hlf]
  | mixed => exact absurd rfl ht

theorem uniform_detect (text : List Char) : Uniform (detect text) text := by
  cases h : detect text with
  | lf => exact detect_eq_lf_iff.1 h
  | crlf =>
    refine uniform_crlf_iff.2 ?_
    by_contra hlf
    rw [detect, Breaks.ending, if_neg hlf] at h
    split at h <;> simp at h
  | mixed => trivial

/-! ### Normalised texts -/

theorem uniform_expandLf (text : List Char) : Uniform .crlf (expandLf text) := by
  rw [uniform_crlf_iff, Breaks.ofText, Breaks.count_expandLf]

/-- Where the first break is a CRLF one or none, `toLf` leaves a line feed at the head only if one
stood there. -/
theorem head?_toLf (text : List Char) :
    (toLf text).head? = some '\n' ↔ text.head? = some '\n' ∨ ['\r', '\n'] <+: text := by
  fun_induction toLf text with
  | case1 cs => simp
  | case2 c cs hno =>
    have hnot : ¬ ['\r', '\n'] <+: c :: cs := by
      rintro ⟨t, ht⟩
      rw [List.cons_append, List.cons_append, List.nil_append] at ht
      exact hno t (List.cons.inj ht).1.symm (List.cons.inj ht).2.symm
    simp [hnot]
  | case3 => simp

/-- **Turning CRLF breaks into LF leaves a CRLF break exactly where two carriage returns stood before
a line feed.** -/
theorem infix_toLf_iff (text : List Char) :
    ['\r', '\n'] <:+: toLf text ↔ ['\r', '\r', '\n'] <:+: text := by
  fun_induction toLf text with
  | case1 cs ih => simp [List.infix_cons_iff, ih]
  | case2 c cs hno ih =>
    have hhead : ['\r', '\n'] <+: c :: toLf cs ↔ ['\r', '\r', '\n'] <+: c :: cs := by
      rw [List.cons_prefix_cons, List.cons_prefix_cons]
      refine and_congr_right fun hc => ?_
      have hcs : cs.head? ≠ some '\n' := by
        intro e
        obtain ⟨t, rfl⟩ := List.head?_eq_some_iff.1 e
        exact hno t hc.symm rfl
      have hleads : ['\n'] <+: toLf cs ↔ (toLf cs).head? = some '\n' := by
        cases toLf cs <;> simp [eq_comm]
      rw [hleads, head?_toLf, or_iff_right hcs]
    rw [List.infix_cons_iff, List.infix_cons_iff, hhead, ih]
  | case3 => simp

theorem not_infix_of_detect_eq_lf (h : detect text = .lf) : ¬ ['\r', '\r', '\n'] <:+: text := by
  rintro ⟨a, b, hab⟩
  exact uniform_lf_iff_no_crlf.1 (detect_eq_lf_iff.1 h) ⟨a ++ ['\r'], b, by simp [← hab]⟩

/-! ### Giving an output the line endings of a text -/

/-- **When an output has been given the line endings of a text, none of its line feeds belongs to the
other class**, except exactly when the text has LF breaks and a line feed of the output has two
carriage returns before it.  With a break at all, it then belongs to the class of the text. -/
theorem uniform_reapply_iff (source output : List Char) :
    (Uniform (detect source) (reapply source output) ↔
        (detect source = .lf → ¬ ['\r', '\r', '\n'] <:+: output)) ∧
      (Uniform (detect source) (reapply source output) → detect source ≠ .mixed →
        '\n' ∈ reapply source output → detect (reapply source output) = detect source) := by
  refine ⟨?_, fun h hs hn => detect_of_uniform hs h hn⟩
  unfold reapply
  dsimp only
  cases hs : detect source with
  | lf =>
    rw [if_neg (by decide)]
    split
    · rename_i ho
      exact iff_of_true (detect_eq_lf_iff.1 ho) fun _ => not_infix_of_detect_eq_lf ho
    · rw [normalize, uniform_lf_iff_no_crlf, infix_toLf_iff]
      simp
  | crlf =>
    rw [if_neg (by decide)]
    refine iff_of_true ?_ (by simp)
    split
    · rename_i ho
      rw [← ho]
      exact uniform_detect output
    · exact uniform_expandLf _
  | mixed => simp [Uniform]

/-- A text with an LF break, and an output whose only line feed has two carriage returns before it:
one of them stays, and the output becomes a text with a CRLF break. -/
theorem reapply_not_uniform :
    detect ['a', '\n'] = .lf ∧
      reapply ['a', '\n'] ['b', '\r', '\r', '\n'] = ['b', '\r', '\n'] ∧
      ¬ Uniform (detect ['a', '\n']) (reapply ['a', '\n'] ['b', '\r', '\r', '\n']) ∧
      detect (reapply ['a', '\n'] ['b', '\r', '\r', '\n']) = .crlf := by
  have hlf : detect ['a', '\n'] = .lf := by decide
  have hmade : reapply ['a', '\n'] ['b', '\r', '\r', '\n'] = ['b', '\r', '\n'] := by decide
  rw [hlf, hmade]
  refine ⟨rfl, rfl, ?_, by decide⟩
  rw [uniform_lf_iff_no_crlf, not_not]
  exact ⟨['b'], [], rfl⟩

end LineEnding

end CodeTidy
