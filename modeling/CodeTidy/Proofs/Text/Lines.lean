import CodeTidy.Proofs.Text.Words

/-!
# Lines of texts that are put together

A text that is not empty begins with a piece, which is a line and its terminator
(`exists_firstPiece`), and the rest is cut as if it stood alone (`FirstPiece.pieces_eq`).  A text
that does not end with a break has the same lines with a line feed after it
(`lines_append_newline`).
-/

namespace CodeTidy.Text

/-! ### Pieces -/

theorem pieces_eq_nil_iff {s : List Char} : pieces s = [] ↔ s = [] := by
  constructor
  · intro h
    rw [← flatten_pieces s, h, List.flatten_nil]
  · rintro rfl
    rfl

theorem pieces_cons_of_ne {c : Char} (hc : c ≠ '\n') {s p : List Char} {ps : List (List Char)}
    (h : pieces s = p :: ps) : pieces (c :: s) = (c :: p) :: ps := by
  rw [pieces, if_neg hc, h]

theorem pieces_of_notMem : ∀ {line : List Char}, line ≠ [] → '\n' ∉ line → pieces line = [line]
  | [], hne, _ => absurd rfl hne
  | [c], _, h => by
    rw [pieces, if_neg fun e : c = '\n' => h (e ▸ List.mem_cons_self)]
    rfl
  | c :: d :: line, _, h => by
    obtain ⟨hc, hline⟩ := List.ne_and_not_mem_of_not_mem_cons h
    exact pieces_cons_of_ne hc.symm (pieces_of_notMem (by simp) hline)

theorem pieces_append_newline (a b : List Char) :
    pieces (a ++ '\n' :: b) = pieces (a ++ ['\n']) ++ pieces b := by
  induction a with
  | nil => simp [pieces]
  | cons c cs ih =>
    by_cases hc : c = '\n'
    · simp [pieces, hc, ih]
    · obtain ⟨p, ps, hp⟩ : ∃ p ps, pieces (cs ++ ['\n']) = p :: ps :=
        List.exists_cons_of_ne_nil fun h => by simpa using pieces_eq_nil_iff.1 h
      rw [List.cons_append, List.cons_append, pieces_cons_of_ne hc hp]
      exact pieces_cons_of_ne hc (by rw [ih, hp]; rfl)

theorem pieces_line_newline {line : List Char} (h : '\n' ∉ line) :
    pieces (line ++ ['\n']) = [line ++ ['\n']] := by
  induction line with
  | nil => rfl
  | cons c cs ih =>
    obtain ⟨hc, hcs⟩ := List.ne_and_not_mem_of_not_mem_cons h
    exact pieces_cons_of_ne hc.symm (ih hcs)

/-- A text begins with a piece: a line and the run of breaks after it, of which only the last can
be a line feed.  Where it is none, nothing follows. -/
structure FirstPiece (s line terminator rest : List Char) : Prop where
  eq : s = line ++ terminator ++ rest
  ne_nil : line ++ terminator ≠ []
  notMem : '\n' ∉ line
  last : ∀ c, line.getLast? = some c → isBreak c = false
  breaks : ∀ c ∈ terminator, isBreak c = true
  ends : (∃ crs, terminator = crs ++ ['\n'] ∧ '\n' ∉ crs) ∨ '\n' ∉ terminator ∧ rest = []

theorem exists_firstPiece {s : List Char} (hne : s ≠ []) :
    ∃ line terminator rest, FirstPiece s line terminator rest := by
  by_cases h : '\n' ∈ s
  · obtain ⟨a, rest, rfl, ha⟩ := List.eq_append_cons_of_mem h
    obtain ⟨crs, hcrs, hbreaks⟩ := exists_dropEndWhile_append isBreak a
    rw [hcrs, List.mem_append, not_or] at ha
    refine ⟨trimBreaks a, crs ++ ['\n'], rest, ?_, by simp, ha.1, fun c => getLast?_dropEndWhile,
      ?_, .inl ⟨crs, rfl, ha.2⟩⟩
    · conv_lhs => rw [hcrs]
      simp [trimBreaks]
    · intro c hc
      rcases List.mem_append.1 hc with hc | hc
      · exact hbreaks c hc
      · rw [List.mem_singleton.1 hc]
        rfl
  · obtain ⟨terminator, hs, hbreaks⟩ := exists_dropEndWhile_append isBreak s
    have hnot := h
    rw [hs, List.mem_append, not_or] at hnot
    refine ⟨trimBreaks s, terminator, [], ?_, ?_, hnot.1, fun c => getLast?_dropEndWhile, hbreaks,
      .inr ⟨hnot.2, rfl⟩⟩
    · rwa [List.append_nil]
    · rwa [trimBreaks, ← hs]

namespace FirstPiece

variable {s line terminator rest : List Char}

theorem pieces_eq (h : FirstPiece s line terminator rest) :
    pieces s = (line ++ terminator) :: pieces rest := by
  rw [h.eq]
  rcases h.ends with ⟨crs, rfl, hcrs⟩ | ⟨hterminator, rfl⟩
  · have hmem : '\n' ∉ line ++ crs := by simpa using ⟨h.notMem, hcrs⟩
    have hcut := pieces_append_newline (line ++ crs) rest
    rw [pieces_line_newline hmem] at hcut
    simpa using hcut
  · have hmem : '\n' ∉ line ++ terminator := by simpa using ⟨h.notMem, hterminator⟩
    rw [List.append_nil, pieces_of_notMem h.ne_nil hmem, pieces]

theorem trimBreaks_eq (h : FirstPiece s line terminator rest) :
    trimBreaks (line ++ terminator) = line :=
  trimBreaks_append h.last h.breaks

theorem length_lt (h : FirstPiece s line terminator rest) : rest.length < s.length := by
  have hpos := List.length_pos_iff.2 h.ne_nil
  rw [h.eq, List.length_append]
  omega

/-- Something else may follow the piece, but nothing where nothing followed. -/
theorem replace {output : List Char} (h : FirstPiece s line terminator rest)
    (houtput : rest = [] → output = []) :
    FirstPiece (line ++ terminator ++ output) line terminator output :=
  ⟨rfl, h.ne_nil, h.notMem, h.last, h.breaks,
    h.ends.imp_right fun ⟨hnot, hrest⟩ => ⟨hnot, houtput hrest⟩⟩

end FirstPiece

theorem subset_of_mem_pieces {s p : List Char} (h : p ∈ pieces s) : p ⊆ s := by
  intro c hc
  rw [← flatten_pieces s]
  exact List.mem_flatten.2 ⟨p, h, hc⟩

/-! ### Terminators -/

theorem dropTerminator_of_getLast?_ne {line : List Char} (h : line.getLast? ≠ some '\n') :
    dropTerminator line = line := by
  unfold dropTerminator
  rw [List.getLast?_eq_head?_reverse] at h
  split
  · rename_i r hr
    simp [hr] at h
  · rename_i r hr
    simp [hr] at h
  · rfl

theorem dropTerminator_line_newline {line : List Char} (h : line.getLast? ≠ some '\r') :
    dropTerminator (line ++ ['\n']) = line := by
  have hr : (line ++ ['\n']).reverse = '\n' :: line.reverse := by simp
  rw [List.getLast?_eq_head?_reverse] at h
  unfold dropTerminator
  rw [hr]
  split
  · rename_i r e
    simp [(List.cons.inj e).2] at h
  · rename_i r _ e
    rw [← (List.cons.inj e).2, List.reverse_reverse]
  · rename_i hno
    exact absurd rfl (hno _)

theorem dropTerminator_subset (piece : List Char) : dropTerminator piece ⊆ piece := by
  intro c hc
  unfold dropTerminator at hc
  split at hc
  · rename_i r e
    exact List.mem_reverse.1 (e ▸ by simpa using .inr (.inr (List.mem_reverse.1 hc)))
  · rename_i r _ e
    exact List.mem_reverse.1 (e ▸ List.mem_cons_of_mem _ (List.mem_reverse.1 hc))
  · exact hc

theorem exists_dropTerminator_append (piece : List Char) :
    ∃ terminator, piece = dropTerminator piece ++ terminator ∧
      ∀ c ∈ terminator, isBlank c = true := by
  unfold dropTerminator
  split
  · rename_i r e
    refine ⟨['\r', '\n'], ?_, List.all_eq_true.1 (by decide)⟩
    rw [← List.reverse_reverse piece, e]
    simp
  · rename_i r _ e
    refine ⟨['\n'], ?_, List.all_eq_true.1 (by decide)⟩
    rw [← List.reverse_reverse piece, e]
    simp
  · exact ⟨[], by simp, by simp⟩

/-- To what trims its end, a line is as good as its piece. -/
theorem trimEnd_dropTerminator (piece : List Char) :
    trimEnd (dropTerminator piece) = trimEnd piece := by
  obtain ⟨terminator, hpiece, hblank⟩ := exists_dropTerminator_append piece
  conv_rhs => rw [hpiece]
  exact (dropEndWhile_append_run _ hblank).symm

/-! ### Lines -/

theorem lines_line_newline {line : List Char} (h : '\n' ∉ line) (rest : List Char) :
    lines (line ++ '\n' :: rest) = dropTerminator (line ++ ['\n']) :: lines rest := by
  rw [lines, pieces_append_newline, pieces_line_newline h]
  rfl

theorem subset_of_mem_lines {s line : List Char} (h : line ∈ lines s) : line ⊆ s := by
  obtain ⟨p, hp, rfl⟩ := List.mem_map.1 h
  exact List.Subset.trans (dropTerminator_subset p) (subset_of_mem_pieces hp)

/-- A text is empty or has a last line: what stands after its last line feed. -/
theorem exists_last_line (s : List Char) :
    ∃ before line, s = before ++ line ∧ '\n' ∉ line ∧
      (before = [] ∨ ∃ a, before = a ++ ['\n']) := by
  by_cases h : '\n' ∈ s
  · obtain ⟨last, rest, hs, hlast⟩ := List.eq_append_cons_of_mem (List.mem_reverse.2 h)
    refine ⟨rest.reverse ++ ['\n'], last.reverse, ?_, by simpa using hlast, .inr ⟨_, rfl⟩⟩
    rw [← List.reverse_reverse s, hs]
    simp
  · exact ⟨[], s, rfl, h, .inl rfl⟩

/-- After a line feed a text is cut as if it began there. -/
theorem pieces_append {before : List Char} (h : before = [] ∨ ∃ a, before = a ++ ['\n'])
    (tail : List Char) : pieces (before ++ tail) = pieces before ++ pieces tail := by
  obtain rfl | ⟨a, rfl⟩ := h
  · rfl
  · rw [List.append_assoc, List.singleton_append, pieces_append_newline]

/-- **A line feed after a text that ends with no break makes no new line**, and what follows is cut
as if it stood alone. -/
theorem lines_append_newline {s : List Char} (hne : s ≠ [])
    (hlast : ∀ c, s.getLast? = some c → isBreak c = false) (rest : List Char) :
    lines (s ++ '\n' :: rest) = lines s ++ lines rest := by
  obtain ⟨before, line, rfl, hline, hbefore⟩ := exists_last_line s
  have hbreak : ∀ c, line.getLast? = some c → isBreak c = false := fun c hc =>
    hlast c (by rw [List.getLast?_append, hc]; rfl)
  have hne' : line ≠ [] := by
    rintro rfl
    obtain rfl | ⟨a, rfl⟩ := hbefore
    · exact hne rfl
    · exact absurd (hlast '\n' (by simp)) (by decide)
  have hnot : ∀ c, isBreak c = true → line.getLast? ≠ some c := fun c hc hl => by
    rw [hbreak c hl] at hc
    exact Bool.false_ne_true hc
  have hlineText : lines (line ++ ['\n']) = lines line := by
    rw [lines, lines, pieces_line_newline hline, pieces_of_notMem hne' hline, List.map_singleton,
      List.map_singleton, dropTerminator_line_newline (hnot '\r' rfl),
      dropTerminator_of_getLast?_ne (hnot '\n' rfl)]
  rw [lines, lines, lines, pieces_append_newline, List.append_assoc, pieces_append hbefore,
    pieces_append hbefore]
  simp only [List.map_append]
  exact congrArg (_ ++ · ++ _) hlineText

/-- **To what trims the ends of lines, a line feed between two texts makes at most one more line**,
and that is empty. -/
theorem exists_lines_append_newline (a b : List Char) :
    ∃ between, (between = [] ∨ between = [[]]) ∧
      (lines (a ++ '\n' :: b)).map trimEnd
        = (lines a).map trimEnd ++ between ++ (lines b).map trimEnd := by
  obtain ⟨before, line, rfl, hline, hbefore⟩ := exists_last_line a
  have hboth : lines (before ++ line ++ '\n' :: b)
      = lines before ++ dropTerminator (line ++ ['\n']) :: lines b := by
    rw [lines, List.append_assoc, pieces_append hbefore, List.map_append, ← lines, ← lines,
      lines_line_newline hline]
  have hfirst : lines (before ++ line) = lines before ++ lines line := by
    rw [lines, pieces_append hbefore, List.map_append]
    rfl
  rw [hboth, hfirst]
  cases line with
  | nil => exact ⟨[[]], .inr rfl, by simp [lines, pieces, dropTerminator, trimEnd, dropEndWhile]⟩
  | cons c cs =>
    have hlast : lines (c :: cs) = [dropTerminator (c :: cs)] := by
      rw [lines, pieces_of_notMem (by simp) hline]
      rfl
    have htrim : trimEnd (dropTerminator (c :: cs ++ ['\n']))
        = trimEnd (dropTerminator (c :: cs)) := by
      rw [trimEnd_dropTerminator, trimEnd_dropTerminator]
      exact dropEndWhile_append_run _ (by simp)
    exact ⟨[], .inl rfl, by simpa [hlast] using htrim⟩

end CodeTidy.Text
