import CodeTidy.Comment.Reflow
import CodeTidy.Proofs.Text.Words

/-!
# Full-line comments

A full-line comment is blanks, a run of `#` and a text between blanks (`IsComment`), and
`Parts.ofLine?` finds exactly these parts (`Parts.ofLine?_eq_some_iff`).  Scanning such a line opens
no string and closes none (`Scanner.scanLine_of_isComment`).
-/

namespace CodeTidy.Comment

open CodeTidy.Text

/-- The parts of a full-line comment: blanks, the whole run of `#` after them, and the text after
that without the blanks around it. -/
structure IsComment (line : List Char) (c : Parts) : Prop where
  indent : ∀ x ∈ c.indent, isBlank x = true
  marker_ne_nil : c.marker ≠ []
  marker : ∀ x ∈ c.marker, x = '#'
  trimmed : Trimmed c.text
  split : ∃ before after, line = c.indent ++ c.marker ++ (before ++ c.text ++ after) ∧
    (∀ x ∈ before, isBlank x = true) ∧ (∀ x ∈ after, isBlank x = true) ∧
    (before ++ c.text ++ after).head? ≠ some '#'

variable {line : List Char} {c : Parts}

theorem isBlank_hash : isBlank '#' = false := by decide

theorem IsComment.exists_marker_eq (h : IsComment line c) : ∃ marker, c.marker = '#' :: marker := by
  obtain ⟨x, marker, hmarker⟩ := List.exists_cons_of_ne_nil h.marker_ne_nil
  obtain rfl : x = '#' := h.marker x (by simp [hmarker])
  exact ⟨marker, hmarker⟩

/-- The indentation ends where the run of `#` begins. -/
theorem IsComment.cut (h : IsComment line c) {rest : List Char}
    (hline : line = c.indent ++ c.marker ++ rest) :
    line.takeWhile isBlank = c.indent ∧ line.dropWhile isBlank = c.marker ++ rest := by
  obtain ⟨marker, hmarker⟩ := h.exists_marker_eq
  have hhead : ∀ x, (c.marker ++ rest).head? = some x → isBlank x = false := by
    intro x hx
    obtain rfl : '#' = x := by simpa [hmarker] using hx
    exact isBlank_hash
  rw [hline, List.append_assoc]
  exact ⟨takeWhile_append_of_head h.indent hhead, dropWhile_append_of_head h.indent hhead⟩

/-- **The parts that are found in a line are the parts of the comment that it is.** -/
theorem Parts.ofLine?_eq_some_iff : Parts.ofLine? line = some c ↔ IsComment line c := by
  constructor
  · intro h
    unfold Parts.ofLine? at h
    dsimp only at h
    split at h
    · rename_i rest hbody
      obtain rfl := Option.some.inj h
      set body := line.dropWhile isBlank with hdef
      have hline : line = line.takeWhile isBlank ++ body := List.takeWhile_append_dropWhile.symm
      have hmarked : body = body.takeWhile (· == '#') ++ body.dropWhile (· == '#') :=
        List.takeWhile_append_dropWhile.symm
      obtain ⟨htrimmed, before, after, htext, hbefore, hafter⟩ :=
        trim_eq_iff.1 (rfl : trim (body.dropWhile (· == '#')) = _)
      refine ⟨fun x hx => List.mem_takeWhile_imp hx, by simp [hbody], ?_, htrimmed, before, after,
        ?_, hbefore, hafter, ?_⟩
      · intro x hx
        have hhash := List.mem_takeWhile_imp (p := (· == '#')) hx
        exact beq_iff_eq.1 hhash
      · rw [← htext, List.append_assoc, ← hmarked]
        exact hline
      · rw [← htext]
        intro hhash
        have hfalse := head?_dropWhile hhash
        simp at hfalse
    · simp at h
  · intro h
    obtain ⟨marker, hmarker⟩ := h.exists_marker_eq
    obtain ⟨before, after, hline, hbefore, hafter, hhash⟩ := h.split
    obtain ⟨hindent, hbody⟩ := h.cut hline
    have hrun : ∀ x ∈ c.marker, (x == '#') = true := fun x hx => beq_iff_eq.2 (h.marker x hx)
    have hstop : ∀ x, (before ++ c.text ++ after).head? = some x → (x == '#') = false := by
      intro x hx
      exact beq_false_of_ne fun e => hhash (e ▸ hx)
    have htext : trim (before ++ c.text ++ after) = c.text :=
      trim_eq_iff.2 ⟨h.trimmed, before, after, rfl, hbefore, hafter⟩
    unfold Parts.ofLine?
    dsimp only
    rw [hbody, hindent, takeWhile_append_of_head hrun hstop, dropWhile_append_of_head hrun hstop,
      htext]
    split
    · rfl
    · rename_i hno
      exact absurd (by rw [hmarker]; rfl) (hno _)

theorem IsComment.unique {other : Parts} (h : IsComment line c) (h' : IsComment line other) :
    c = other := by
  have hparts := Parts.ofLine?_eq_some_iff.2 h'
  rw [Parts.ofLine?_eq_some_iff.2 h] at hparts
  exact Option.some.inj hparts

/-! ### Scanning comments -/

theorem isOpener_of_isBlank {x : Char} (h : isBlank x = true) : isOpener x = false := by
  have hne : ∀ y, isBlank y = false → x ≠ y := fun y hy e => by simp [← e, h] at hy
  simp [isOpener, hne '#' (by decide), hne '"' (by decide), hne '\'' (by decide)]

/-- **A comment outside of strings opens no string.** -/
theorem Scanner.scanLine_of_isComment {state : Scanner} (hstate : state.inString = false)
    (h : IsComment line c) : state.scanLine line = state := by
  obtain ⟨marker, hmarker⟩ := h.exists_marker_eq
  obtain ⟨before, after, hline, -⟩ := h.split
  have hopener : line.dropWhile (fun x => !isOpener x)
      = c.marker ++ (before ++ c.text ++ after) := by
    rw [hline, List.append_assoc]
    refine dropWhile_append_of_head ?_ ?_
    · intro x hx
      rw [isOpener_of_isBlank (h.indent x hx)]
      rfl
    · intro x hx
      obtain rfl : '#' = x := by simpa [hmarker] using hx
      decide
  rw [hmarker] at hopener
  have hopen : state.openTriple = none := by simpa [Scanner.inString] using hstate
  unfold Scanner.scanLine
  split
  · rename_i q hq
    simp [hopen] at hq
  · split
    · rfl
    · rename_i x xs hx
      rw [hopener] at hx
      obtain rfl := (List.cons.inj hx).1
      rfl

end CodeTidy.Comment
