import CodeTidy.Proofs.Comment.Lexer

/-!
# Scanning line by line

A scanner that looks at a line without the breaks after it, and remembers only which triple-quoted
string is open, knows as much as a linewise reading of the whole text needs at the beginning of the
next line (`region_read_scanLine`): everything else that can be open ends with the line.
-/

namespace CodeTidy.Comment

open CodeTidy.Text LexicalRules

/-! ### Lines and what ends them -/

/-- A text without line feeds that leaves no carriage return to the terminator after it. -/
def IsLine (s : List Char) : Prop :=
  '\n' ∉ s ∧ s.getLast? ≠ some '\r'

/-- What ends a line: carriage returns and a line feed. -/
inductive IsTerminator : List Char → Prop
  | newline : IsTerminator ['\n']
  | cr {t : List Char} (h : IsTerminator t) : IsTerminator ('\r' :: t)

/-- Where the scanner stands in the source. -/
def Region.ofScanner (state : Scanner) : Region :=
  match state.openTriple with
  | none => .code
  | some q => .triple q

/-- Where a region leads when the line is over. -/
def Region.afterLine : Region → Region
  | triple q => .triple q
  | code => .code
  | comment => .code
  | single _ => .code

def Region.closing : Region → List Char
  | triple q => q.triple
  | single q => [q.char]
  | code => []
  | comment => []

variable {r : Reading} {region : Region} {state : Scanner} {c : Char} {q : Quote}
  {s t cs rest needle : List Char}

namespace IsLine

theorem of_suffix (h : IsLine s) (hrest : rest <:+ s) : IsLine rest := by
  obtain ⟨before, rfl⟩ := hrest
  refine ⟨fun hmem => h.1 (List.mem_append_right _ hmem), fun hlast => h.2 ?_⟩
  rw [List.getLast?_append, hlast]
  rfl

theorem of_cons (h : IsLine (c :: cs)) : IsLine cs :=
  h.of_suffix (List.suffix_cons c cs)

theorem breakLength_eq_zero (h : IsLine (c :: cs)) (t : List Char) :
    linewise.breakLength (c :: (cs ++ t)) = 0 := by
  have hc : c ≠ '\n' := fun e => h.1 (e ▸ List.mem_cons_self)
  by_cases hr : c = '\r'
  · cases cs with
    | nil => exact absurd (by rw [hr]; rfl) h.2
    | cons d cs =>
      have hd : d ≠ '\n' := fun e => h.1 (by simp [e])
      simp [breakLength, hr, hd, linewise]
  · unfold breakLength
    split <;> simp_all

end IsLine

theorem afterUnescaped?_suffix (h : afterUnescaped? needle s = some rest) : rest <:+ s := by
  fun_induction afterUnescaped? needle s with
  | case1 => simp at h
  | case2 cs ih => exact (ih h).trans ((List.drop_suffix 1 cs).trans (List.suffix_cons _ _))
  | case3 c cs _ hp =>
    obtain rfl := Option.some.inj h
    exact List.drop_suffix _ _
  | case4 c cs _ _ ih => exact (ih h).trans (List.suffix_cons _ _)

theorem IsTerminator.isBreak_of_head? (ht : IsTerminator t) :
    ∀ x, t.head? = some x → isBreak x = true := by
  intro x hx
  cases ht with
  | newline =>
    obtain rfl : '\n' = x := by simpa using hx
    rfl
  | cr ht =>
    obtain rfl : '\r' = x := by simpa using hx
    rfl

/-! ### Lexemes in a literal -/

/-- What closes a literal stands in one line. -/
theorem closing_isPrefixOf_append (ht : IsTerminator t) :
    region.closing.isPrefixOf (c :: (cs ++ t)) = region.closing.isPrefixOf (c :: cs) := by
  cases region with
  | code => rfl
  | comment => rfl
  | single q => rfl
  | triple q => exact q.triple_isPrefixOf_breaks ht.isBreak_of_head? (c :: cs)

/-- In a line, what closes the literal is a lexeme, and every other character is one of its own. -/
theorem lexeme_literal (hregion : region.isLiteral = true)
    (hbreak : linewise.breakLength (c :: cs) = 0) (hc : c ≠ '\\') :
    linewise.lexeme region c cs
      = if region.closing.isPrefixOf (c :: cs) then ⟨region.closing.length, .code⟩
        else ⟨1, region⟩ := by
  obtain ⟨q, rfl⟩ | ⟨q, rfl⟩ := Region.isLiteral_iff.1 hregion
  · have hclosing : [q.char].isPrefixOf (c :: cs) = true ↔ c = q.char := by
      rw [List.isPrefixOf_iff_prefix, List.cons_prefix_cons]
      exact ⟨fun h => h.1.symm, fun h => ⟨h.symm, List.nil_prefix⟩⟩
    simp only [lexeme, Region.closing, hbreak, ne_eq, not_true, if_false, if_neg hc, hclosing]
    rfl
  · simp only [lexeme, Region.closing, if_neg hc]
    rfl

/-- A backslash takes the next character of the line with it. -/
theorem lexeme_escape (hregion : region.isLiteral = true)
    (hbreak : linewise.breakLength cs = 0) : linewise.lexeme region '\\' cs = ⟨2, region⟩ := by
  obtain ⟨q, rfl⟩ | ⟨q, rfl⟩ := Region.isLiteral_iff.1 hregion
  · have hself : linewise.breakLength ('\\' :: cs) = 0 := rfl
    simp [lexeme, hbreak, hself]
  · rfl

/-- A lexeme leads to a reading in its region, whose other parts are of no interest to a scanner. -/
theorem exists_read_cons {l : Lexeme} (hr : r.region = region)
    (h : linewise.lexeme region c cs = l) :
    ∃ r' : Reading, r'.region = l.next ∧
      linewise.read r (c :: cs) = linewise.read r' ((c :: cs).drop l.length) := by
  subst hr
  refine ⟨linewise.step r c cs, ?_, ?_⟩
  · rw [region_step, h]
  · rw [read_cons, h]

/-! ### Ends of lines -/

theorem lexeme_newline (region : Region) :
    linewise.lexeme region '\n' cs = ⟨1, region.afterLine⟩ := by
  cases region with
  | code => rfl
  | comment => rfl
  | single q => rfl
  | triple q => cases q <;> rfl

theorem lexeme_cr_cr (region : Region) :
    linewise.lexeme region '\r' ('\r' :: cs) = ⟨1, region⟩ := by
  cases region with
  | code => rfl
  | comment => rfl
  | single q => cases q <;> rfl
  | triple q => cases q <;> rfl

/-- A CRLF break is one lexeme where it ends a comment or a literal, and else two. -/
theorem lexeme_crlf (region : Region) :
    linewise.lexeme region '\r' ('\n' :: cs) = ⟨1, region.afterLine⟩ ∨
      linewise.lexeme region '\r' ('\n' :: cs) = ⟨2, region.afterLine⟩ := by
  cases region with
  | code => exact .inl rfl
  | comment => exact .inr rfl
  | single q => exact .inr rfl
  | triple q => cases q <;> exact .inl rfl

theorem Region.afterLine_afterLine (region : Region) :
    region.afterLine.afterLine = region.afterLine := by
  cases region <;> rfl

/-- **At the end of a line only a triple-quoted string stays open.** -/
theorem region_read_terminator (ht : IsTerminator t) (hr : r.region = region) :
    (linewise.read r t).region = region.afterLine := by
  have hnewline : ∀ {r : Reading} {region : Region}, r.region = region →
      (linewise.read r ['\n']).region = region.afterLine := by
    intro r region hr
    obtain ⟨r', hr', hread⟩ := exists_read_cons hr (lexeme_newline region)
    rw [hread]
    exact hr'
  induction ht generalizing r region with
  | newline => exact hnewline hr
  | cr ht ih =>
    cases ht with
    | newline =>
      rcases lexeme_crlf region with hlexeme | hlexeme
      · obtain ⟨r', hr', hread⟩ := exists_read_cons hr hlexeme
        rw [hread, ← region.afterLine_afterLine]
        exact hnewline hr'
      · obtain ⟨r', hr', hread⟩ := exists_read_cons hr hlexeme
        rw [hread]
        exact hr'
    | cr ht =>
      obtain ⟨r', hr', hread⟩ := exists_read_cons hr (lexeme_cr_cr region)
      rw [hread]
      exact ih hr'

/-- A backslash at the end of the line takes the break, or a part of it, with it. -/
theorem region_read_escape (ht : IsTerminator t) (hregion : region.isLiteral = true)
    (hr : r.region = region) : (linewise.read r ('\\' :: t)).region = region.afterLine := by
  obtain ⟨r', hr', hread⟩ := exists_read_cons hr rfl
  rw [hread]
  obtain ⟨q, rfl⟩ | ⟨q, rfl⟩ := Region.isLiteral_iff.1 hregion
  · -- a line feed that follows, also behind a carriage return, is part of the escape
    cases ht with
    | newline => exact hr'
    | cr ht =>
      cases ht with
      | newline => exact hr'
      | cr ht => exact region_read_terminator (.cr ht) hr'
  · cases ht with
    | newline => exact hr'
    | cr ht => exact region_read_terminator ht hr'

/-! ### Lines -/

/-- **What the scanner looks for in a literal is what closes it.** -/
theorem read_literal (hs : IsLine s) (ht : IsTerminator t) (hregion : region.isLiteral = true)
    (hr : r.region = region) :
    (∀ rest, afterUnescaped? region.closing s = some rest →
      ∃ r' : Reading, r'.region = .code ∧
        linewise.read r (s ++ t) = linewise.read r' (rest ++ t)) ∧
    (afterUnescaped? region.closing s = none →
      (linewise.read r (s ++ t)).region = region.afterLine) := by
  fun_induction afterUnescaped? region.closing s generalizing r with
  | case1 => exact ⟨by simp, fun _ => region_read_terminator ht hr⟩
  | case2 cs ih =>
    cases cs with
    | nil => exact ⟨by simp [afterUnescaped?], fun _ => region_read_escape ht hregion hr⟩
    | cons d cs =>
      have hlexeme := lexeme_escape hregion (hs.of_cons.breakLength_eq_zero t)
      obtain ⟨r', hr', hread⟩ := exists_read_cons hr hlexeme
      rw [List.cons_append, List.cons_append, hread]
      exact ih hs.of_cons.of_cons hr'
  | case3 c cs hc hfound =>
    have hlexeme := lexeme_literal hregion (hs.breakLength_eq_zero t) hc
    rw [closing_isPrefixOf_append ht, if_pos hfound] at hlexeme
    have hle := (List.isPrefixOf_iff_prefix.1 hfound).length_le
    obtain ⟨r', hr', hread⟩ := exists_read_cons hr hlexeme
    refine ⟨?_, by simp⟩
    intro rest hrest
    obtain rfl := Option.some.inj hrest
    refine ⟨r', hr', ?_⟩
    rw [List.cons_append, hread, ← List.cons_append, List.drop_append_of_le_length hle]
  | case4 c cs hc hnot ih =>
    have hlexeme := lexeme_literal hregion (hs.breakLength_eq_zero t) hc
    rw [closing_isPrefixOf_append ht, if_neg hnot] at hlexeme
    obtain ⟨r', hr', hread⟩ := exists_read_cons hr hlexeme
    rw [List.cons_append, hread]
    exact ih hs.of_cons hr'

/-- A comment ends with its line. -/
theorem region_read_comment (hs : IsLine s) (ht : IsTerminator t) (hr : r.region = .comment) :
    (linewise.read r (s ++ t)).region = .code := by
  induction s generalizing r with
  | nil => exact region_read_terminator ht hr
  | cons c s ih =>
    have hlexeme : linewise.lexeme .comment c (s ++ t) = ⟨1, .comment⟩ := by
      simp only [lexeme, hs.breakLength_eq_zero t, if_true]
    obtain ⟨r', hr', hread⟩ := exists_read_cons hr hlexeme
    rw [List.cons_append, hread]
    exact ih hs.of_cons hr'

/-- Code is read over up to the character that opens something. -/
theorem read_opener (hr : r.region = .code)
    (hopener : s.dropWhile (fun x => !isOpener x) = c :: cs) :
    linewise.read r (s ++ t) = linewise.read r (c :: (cs ++ t)) := by
  have hsplit : s = s.takeWhile (fun x => !isOpener x) ++ c :: cs := by
    rw [← hopener, List.takeWhile_append_dropWhile]
  conv_lhs => rw [hsplit]
  rw [List.append_assoc, read_code hr]
  · rfl
  · intro x hx
    simpa using List.mem_takeWhile_imp hx

theorem opener_dropWhile (hopener : s.dropWhile (fun x => !isOpener x) = c :: cs) :
    c :: cs <:+ s ∧ isOpener c = true := by
  refine ⟨hopener ▸ List.dropWhile_suffix _, ?_⟩
  have hhead := head?_dropWhile (p := fun x => !isOpener x) (s := s) (x := c) (by rw [hopener]; rfl)
  simpa using hhead

theorem eq_hash_of_opener (hopener : s.dropWhile (fun x => !isOpener x) = c :: cs)
    (hquote : Quote.ofChar? c = none) : c = '#' := by
  have hc := (opener_dropWhile hopener).2
  have hnot := Quote.ofChar?_eq_none_iff.1 hquote
  simpa [isOpener, hnot] using hc

/-- A quote in a line opens a triple-quoted literal if two more follow in the line, and else one in
single quotes. -/
theorem lexeme_quote (ht : IsTerminator t) (hquote : Quote.ofChar? c = some q) (cs : List Char) :
    linewise.lexeme .code c (cs ++ t)
      = if q.triple.isPrefixOf (c :: cs) then ⟨3, .triple q⟩ else ⟨1, .single q⟩ := by
  have hc : c ≠ '#' := by
    rintro rfl
    simp [Quote.ofChar?] at hquote
  have htriple := q.triple_isPrefixOf_breaks ht.isBreak_of_head? (c :: cs)
  rw [List.cons_append] at htriple
  simp only [lexeme, if_neg hc, hquote, htriple]

/-- Where three quotes are the first opener of a line, a triple-quoted literal begins behind them. -/
theorem exists_read_triple (hs : IsLine s) (ht : IsTerminator t) (hr : r.region = .code)
    (hopener : s.dropWhile (fun x => !isOpener x) = c :: cs) (hquote : Quote.ofChar? c = some q)
    (htriple : q.triple.isPrefixOf (c :: cs) = true) :
    IsLine (cs.drop 2) ∧ ∃ r' : Reading, r'.region = .triple q ∧
      linewise.read r (s ++ t) = linewise.read r' (cs.drop 2 ++ t) := by
  have hline := (hs.of_suffix (opener_dropWhile hopener).1).of_cons
  have hlexeme := lexeme_quote ht hquote cs
  rw [if_pos htriple] at hlexeme
  have hle : 2 ≤ cs.length := by
    simpa [Quote.triple] using (List.isPrefixOf_iff_prefix.1 htriple).length_le
  obtain ⟨r', hr', hread⟩ := exists_read_cons hr hlexeme
  refine ⟨hline.of_suffix (List.drop_suffix 2 cs), r', hr', ?_⟩
  rw [read_opener hr hopener, hread, List.drop_succ_cons, List.drop_append_of_le_length hle]

/-- Where the first opener of a line is another quote, a literal in single quotes begins behind it. -/
theorem exists_read_single (hs : IsLine s) (ht : IsTerminator t) (hr : r.region = .code)
    (hopener : s.dropWhile (fun x => !isOpener x) = c :: cs) (hquote : Quote.ofChar? c = some q)
    (htriple : ¬ q.triple.isPrefixOf (c :: cs) = true) :
    IsLine cs ∧ ∃ r' : Reading, r'.region = .single q ∧
      linewise.read r (s ++ t) = linewise.read r' (cs ++ t) := by
  have hlexeme := lexeme_quote ht hquote cs
  rw [if_neg htriple] at hlexeme
  obtain ⟨r', hr', hread⟩ := exists_read_cons hr hlexeme
  refine ⟨(hs.of_suffix (opener_dropWhile hopener).1).of_cons, r', hr', ?_⟩
  rw [read_opener hr hopener, hread, List.drop_succ_cons, List.drop_zero]

theorem Region.ofScanner_of_none (h : state.openTriple = none) : ofScanner state = .code := by
  rw [ofScanner, h]

theorem Region.ofScanner_of_some (h : state.openTriple = some q) : ofScanner state = .triple q := by
  rw [ofScanner, h]

/-- **A scanner follows the linewise reading**, line by line. -/
theorem region_read_scanLine (hs : IsLine s) (ht : IsTerminator t)
    (hr : r.region = .ofScanner state) :
    (linewise.read r (s ++ t)).region = .ofScanner (state.scanLine s) := by
  fun_induction Scanner.scanLine state s generalizing r with
  | case1 state s q hstate rest hclosed ih =>
    rw [Region.ofScanner_of_some hstate] at hr
    obtain ⟨r', hr', hread⟩ := (read_literal hs ht rfl hr).1 rest hclosed
    rw [hread]
    exact ih (hs.of_suffix (afterUnescaped?_suffix hclosed)) hr'
  | case2 state s q hstate hclosed =>
    rw [Region.ofScanner_of_some hstate] at hr ⊢
    exact (read_literal hs ht rfl hr).2 hclosed
  | case3 state s hstate hopener =>
    rw [Region.ofScanner_of_none hstate] at hr ⊢
    have hnone : ∀ x ∈ s, isOpener x = false := by
      simpa [List.dropWhile_eq_nil_iff] using hopener
    rw [read_code hr hnone]
    exact region_read_terminator ht hr
  | case4 state s hstate c cs hopener hquote =>
    rw [Region.ofScanner_of_none hstate] at hr ⊢
    obtain rfl := eq_hash_of_opener hopener hquote
    rw [read_opener hr hopener, read_hash hr]
    exact region_read_comment (hs.of_suffix (opener_dropWhile hopener).1).of_cons ht rfl
  | case5 state s hstate c cs hopener q hquote htriple ih =>
    rw [Region.ofScanner_of_none hstate] at hr
    obtain ⟨hline, r', hr', hread⟩ := exists_read_triple hs ht hr hopener hquote htriple
    rw [hread]
    exact ih hline hr'
  | case6 state s hstate c cs hopener q hquote htriple rest hclosed ih =>
    rw [Region.ofScanner_of_none hstate] at hr
    obtain ⟨hline, r', hr', hread⟩ := exists_read_single hs ht hr hopener hquote htriple
    obtain ⟨r'', hr'', hread'⟩ := (read_literal hline ht rfl hr').1 rest hclosed
    rw [hread, hread']
    exact ih (hline.of_suffix (afterUnescaped?_suffix hclosed))
      (hr''.trans (Region.ofScanner_of_none hstate).symm)
  | case7 state s hstate c cs hopener q hquote htriple hclosed =>
    rw [Region.ofScanner_of_none hstate] at hr ⊢
    obtain ⟨hline, r', hr', hread⟩ := exists_read_single hs ht hr hopener hquote htriple
    rw [hread]
    exact (read_literal hline ht rfl hr').2 hclosed

/-! ### Pieces of a source -/

variable {source line terminator : List Char}

theorem isTerminator_of_breaks {crs : List Char} (hbreaks : ∀ x ∈ crs, isBreak x = true)
    (hnot : '\n' ∉ crs) : IsTerminator (crs ++ ['\n']) := by
  induction crs with
  | nil => exact .newline
  | cons x crs ih =>
    obtain ⟨hx, hcrs⟩ := List.ne_and_not_mem_of_not_mem_cons hnot
    obtain rfl : x = '\r' := by
      have hbreak := hbreaks x List.mem_cons_self
      simpa [isBreak, hx.symm] using hbreak
    exact .cr (ih (fun y hy => hbreaks y (List.mem_cons_of_mem _ hy)) hcrs)

theorem isTerminator_of_firstPiece (hpiece : FirstPiece source line terminator rest)
    (hne : rest ≠ []) : IsTerminator terminator := by
  rcases hpiece.ends with ⟨crs, rfl, hcrs⟩ | ⟨-, hrest⟩
  · exact isTerminator_of_breaks (fun x hx => hpiece.breaks x (List.mem_append_left _ hx)) hcrs
  · exact absurd hrest hne

theorem isLine_of_firstPiece (hpiece : FirstPiece source line terminator rest) : IsLine line := by
  refine ⟨hpiece.notMem, fun hlast => ?_⟩
  exact absurd (hpiece.last _ hlast) (by decide)

/-- Where Python's rules do not matter, the scanner knows what a piece leaves open. -/
theorem region_read_firstPiece (hpiece : FirstPiece source line terminator rest) (hne : rest ≠ [])
    (hr : r.region = .ofScanner state)
    (htorn : (python.read r (line ++ terminator)).torn = false) :
    (python.read r (line ++ terminator)).region = .ofScanner (state.scanLine line) := by
  rw [← read_linewise htorn]
  exact region_read_scanLine (isLine_of_firstPiece hpiece) (isTerminator_of_firstPiece hpiece hne) hr

end CodeTidy.Comment
