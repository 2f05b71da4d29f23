import CodeTidy.Proofs.Text.Words

/-!
# Texts with separators

Splitting at each separator is what `List.splitOn` does (`splitAtEach_eq_splitOn`), and what is
added at the end of a text belongs to its last part (`exists_splitOn_append`).
-/

namespace CodeTidy.Text

variable {sep : Char} {s before after : List Char}

/-! ### Each separator -/

theorem splitAtEach_eq_splitOn (sep : Char) : ∀ s : List Char, splitAtEach sep s = s.splitOn sep
  | [] => (List.splitOn_nil sep).symm
  | c :: cs => by
    rw [splitAtEach, splitAtEach_eq_splitOn sep cs, List.splitOn_cons_eq_if_modifyHead]
    by_cases h : c = sep
    · rw [if_pos h, if_pos (beq_iff_eq.2 h)]
    · rw [if_neg h, if_neg (by simpa using h)]
      cases hparts : cs.splitOn sep with
      | nil => exact absurd hparts (List.splitOn_ne_nil sep cs)
      | cons p ps => rfl

/-- What is added at the end, without a separator, belongs to the last part. -/
theorem exists_splitOn_append (s : List Char) {t : List Char} (ht : sep ∉ t) :
    ∃ parts last, s.splitOn sep = parts ++ [last] ∧
      (s ++ t).splitOn sep = parts ++ [last ++ t] := by
  by_cases h : sep ∈ s
  · obtain ⟨last, front, hs, hlast⟩ := List.eq_append_cons_of_mem (List.mem_reverse.2 h)
    have hlast : sep ∉ last.reverse := by simpa using hlast
    have hs : s = front.reverse ++ sep :: last.reverse := by
      rw [← List.reverse_reverse s, hs]
      simp
    have hboth : sep ∉ last.reverse ++ t := List.not_mem_append hlast ht
    refine ⟨front.reverse.splitOn sep, last.reverse, ?_, ?_⟩
    · rw [hs, List.splitOn_append_cons_self, List.splitOn_eq_singleton hlast]
    · rw [hs, List.append_assoc, List.cons_append, List.splitOn_append_cons_self,
        List.splitOn_eq_singleton hboth]
  · exact ⟨[], s, List.splitOn_eq_singleton h,
      List.splitOn_eq_singleton (List.not_mem_append h ht)⟩

/-! ### The first separator -/

theorem splitOnce_of_notMem (h : sep ∉ before) (after : List Char) :
    splitOnce sep (before ++ sep :: after) = some (before, after) := by
  induction before with
  | nil => simp [splitOnce]
  | cons c cs ih =>
    obtain ⟨hc, hcs⟩ := List.ne_and_not_mem_of_not_mem_cons h
    rw [List.cons_append, splitOnce, if_neg (Ne.symm hc), ih hcs]
    rfl

theorem splitOnce_eq_none (h : sep ∉ s) : splitOnce sep s = none := by
  induction s with
  | nil => rfl
  | cons c cs ih =>
    obtain ⟨hc, hcs⟩ := List.ne_and_not_mem_of_not_mem_cons h
    rw [splitOnce, if_neg (Ne.symm hc), ih hcs]
    rfl

end CodeTidy.Text
