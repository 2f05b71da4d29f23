import CodeTidy.Proofs.Comment.Layout

/-!
# Greedy layouts are optimal

Words that come first and fit one line are never more than the first line of a tight layout holds
(`Layout.prefix_of_fits`).  So a tight layout stays ahead of every other: after as many lines it has
at most as many words left (`Layout.length_le_of_suffix`), and two tight layouts of the same words
agree line by line (`Layout.eq_of_tight`).  What `wrapWords` makes is such a layout
(`wrapWords_optimal`).
-/

namespace CodeTidy.Comment

open CodeTidy.Text

variable {width : Nat} {ws rest line s : List Word} {lines others : List (List Word)}

/-! ### Parts of layouts -/

theorem length_joinWords_suffix_le (hs : s <:+ line) (hne : s ≠ []) :
    (joinWords s).length ≤ (joinWords line).length := by
  obtain ⟨before, rfl⟩ := hs
  have hpart := length_joinWords hne
  have hwhole := length_joinWords (by simp [hne] : before ++ s ≠ [])
  rw [List.map_append, List.sum_append] at hwhole
  omega

theorem Fits.of_suffix (h : Fits width line) (hs : s <:+ line) (hne : s ≠ []) : Fits width s := by
  rcases h with hlength | hone
  · exact .inl ((length_joinWords_suffix_le hs hne).trans hlength)
  · have hpos := List.length_pos_iff.2 hne
    have hle := hs.length_le
    exact .inr (by omega)

namespace Layout

/-- The lines after the first are a layout of the words after it. -/
theorem tail (h : Layout width ws (line :: lines)) : Layout width lines.flatten lines where
  flatten := rfl
  ne_nil := fun l hl => h.ne_nil l (List.mem_cons_of_mem _ hl)
  fits := fun l hl => h.fits l (List.mem_cons_of_mem _ hl)

theorem line_ne_nil (h : Layout width ws (line :: lines)) : line ≠ [] :=
  h.ne_nil line List.mem_cons_self

theorem eq_append (h : Layout width ws (line :: lines)) : ws = line ++ lines.flatten := by
  rw [← h.flatten, List.flatten_cons]

theorem eq_nil (h : Layout width [] lines) : lines = [] := by
  cases lines with
  | nil => rfl
  | cons line lines =>
    have hempty := h.eq_append
    rw [eq_comm, List.append_eq_nil_iff] at hempty
    exact absurd hempty.1 h.line_ne_nil

/-! ### Tight layouts -/

/-- **The first line of a tight layout takes all words that fit one line.** -/
theorem prefix_of_fits (h : Layout width ws (line :: lines)) (htight : Tight width (line :: lines))
    (hs : s <+: ws) (hfits : Fits width s) : s <+: line := by
  have hline : line <+: ws := ⟨lines.flatten, h.eq_append.symm⟩
  rcases List.prefix_or_prefix_of_prefix hs hline with hle | ⟨more, rfl⟩
  · exact hle
  · cases more with
    | nil => simp
    | cons w more =>
      exfalso
      -- the word after the line is the first of the next, for which there is no room
      have hnext : w :: more <+: lines.flatten := by
        rwa [h.eq_append, List.prefix_append_right_inj] at hs
      cases lines with
      | nil => simp at hnext
      | cons next lines =>
        have hw : next.head? = some w := by
          obtain ⟨v, vs, hv⟩ := List.exists_cons_of_ne_nil h.tail.line_ne_nil
          rw [hv, List.flatten_cons, List.cons_append, List.cons_prefix_cons] at hnext
          rw [hv, hnext.1, List.head?_cons]
        have hlong : width < (joinWords (line ++ [w])).length :=
          (List.isChain_cons_cons.1 htight).1 w hw
        have hle := length_joinWords_le (by simp : line ++ [w] ≠ []) more
        rw [List.append_assoc, List.singleton_append] at hle
        have hpos := List.length_pos_iff.2 h.line_ne_nil
        rcases hfits with hlength | hone
        · omega
        · simp only [List.length_append, List.length_cons] at hone
          omega

/-- **Words have one tight layout.** -/
theorem eq_of_tight (h : Layout width ws lines) (htight : Tight width lines)
    (hother : Layout width ws others) (htight' : Tight width others) : others = lines := by
  induction lines generalizing ws others with
  | nil =>
    obtain rfl : [] = ws := h.flatten
    exact hother.eq_nil
  | cons line lines ih =>
    cases others with
    | nil =>
      obtain rfl : [] = ws := hother.flatten
      exact absurd h.eq_nil (List.cons_ne_nil _ _)
    | cons other others =>
      have hline : line <+: ws := ⟨lines.flatten, h.eq_append.symm⟩
      have hprefix : other <+: ws := ⟨others.flatten, hother.eq_append.symm⟩
      have hle := h.prefix_of_fits htight hprefix (hother.fits other List.mem_cons_self)
      have hge := hother.prefix_of_fits htight' hline (h.fits line List.mem_cons_self)
      obtain rfl := hle.eq_of_length_le hge.length_le
      have hrest : others.flatten = lines.flatten :=
        List.append_cancel_left (hother.eq_append.symm.trans h.eq_append)
      have htail := hother.tail
      rw [hrest] at htail
      rw [ih h.tail (List.isChain_cons.1 htight).2 htail (List.isChain_cons.1 htight').2]

/-- After its first line, a tight layout of the last words has no more left than any layout of all
of them has after its own. -/
theorem flatten_suffix (h : Layout width rest (line :: lines)) (htight : Tight width (line :: lines))
    {other : List Word} (hother : Layout width ws (other :: others)) (hrest : rest <:+ ws) :
    lines.flatten <:+ others.flatten := by
  have hleft : lines.flatten <:+ ws :=
    (h.eq_append ▸ List.suffix_append line lines.flatten).trans hrest
  have hright : others.flatten <:+ ws := ⟨other, hother.eq_append.symm⟩
  refine List.suffix_of_suffix_length_le hleft hright ?_
  have hlength := congrArg List.length h.eq_append
  rw [List.length_append] at hlength
  rcases List.suffix_or_suffix_of_suffix hrest hright with hshort | ⟨s, rfl⟩
  · have hle := hshort.length_le
    omega
  · -- some of the first words, perhaps none, stand on the other's first line
    have hs : s <:+ other := by
      obtain ⟨before, hbefore⟩ := hrest
      rw [hother.eq_append, ← List.append_assoc] at hbefore
      exact ⟨before, List.append_cancel_right hbefore⟩
    have hle : s.length ≤ line.length := by
      by_cases hne : s = []
      · rw [hne]
        exact Nat.zero_le _
      · have hfits := (hother.fits other List.mem_cons_self).of_suffix hs hne
        exact (h.prefix_of_fits htight (List.prefix_append s _) hfits).length_le
    rw [List.length_append] at hlength
    omega

/-- **A tight layout stays ahead.**  Even with more words to lay out before them, no layout has fewer
lines. -/
theorem length_le_of_suffix (h : Layout width rest lines) (htight : Tight width lines)
    (hother : Layout width ws others) (hrest : rest <:+ ws) : lines.length ≤ others.length := by
  induction others generalizing rest ws lines with
  | nil =>
    obtain rfl : [] = ws := hother.flatten
    obtain rfl := List.suffix_nil.1 hrest
    rw [h.eq_nil]
  | cons other others ih =>
    cases lines with
    | nil => exact Nat.zero_le _
    | cons line lines =>
      have hleft := h.flatten_suffix htight hother hrest
      exact Nat.succ_le_succ (ih h.tail (List.isChain_cons.1 htight).2 hother.tail hleft)

end Layout

/-! ### Wrapped texts -/

/-- **Greedy wrap is optimal.**  The lines that a text is wrapped into are a layout of its words; no
layout has fewer lines, and in every other layout some line could also take the first word of the
next. -/
theorem wrapWords_optimal (width : Nat) (text : List Char) :
    ∃ lines, wrapWords width text = lines.map joinWords ∧ Layout width (words text) lines ∧
      Tight width lines ∧ ∀ others, Layout width (words text) others →
        lines.length ≤ others.length ∧ (Tight width others → others = lines) := by
  have hlayout := layout_fillLines width (words text)
  have htight := tight_fillLines width (words text)
  refine ⟨fillLines width (words text), rfl, hlayout, htight, ?_⟩
  intro others hothers
  constructor
  · exact hlayout.length_le_of_suffix htight hothers (List.suffix_refl _)
  · intro htight'
    exact hlayout.eq_of_tight htight hothers htight'

/-- Two lines are needed, and the first takes the word that would also have room on the second. -/
example : wrapWords 4 "aa b c".toList = ["aa b".toList, "c".toList] := by
  decide

end CodeTidy.Comment
