import CodeTidy.Proofs.Comment.Idempotence
import CodeTidy.Proofs.Comment.Scanning

/-!
# Literals

Reflow keeps every line that begins in a string literal, with the literal as far as it has been read,
as long as Python's rules did not matter before that line; and where they matter nowhere, it keeps the
whole reading, with every literal (`literals_reflow`).  Where they do matter a literal can change:
after a literal in single quotes that goes on, quotes are taken for others (`literal_changed`).
-/

namespace CodeTidy.Comment

open CodeTidy.Text LexicalRules

/-! ### Lines in literals -/

/-- The reading of the source has come to a literal where a line begins. -/
def LineInLiteral (source : List Char) (reading : Reading) (line : List Char) : Prop :=
  ∃ before after, source = before ++ after ∧ after ≠ [] ∧ LineStart before after ∧
    python.read {} before = reading ∧ reading.region.isLiteral = true ∧ firstLine after = line

variable {rules : LexicalRules} {r : Reading} {lineLength : Nat} {ending : List Char}
  {state : Scanner} {first : Bool} {source line terminator rest before after s t : List Char}
  {c : Parts} {ls : List (List Char)} {x : Char}

/-! ### Reading comments -/

/-- A comment whose text has no break in it. -/
def IsUnbroken (line : List Char) : Prop :=
  ∃ indent s, line = indent ++ '#' :: s ∧ (∀ x ∈ indent, isOpener x = false) ∧
    ∀ x ∈ s, isBreak x = false

theorem IsComment.exists_eq (h : IsComment line c) :
    ∃ s, line = c.indent ++ '#' :: s ∧ ∀ x ∈ c.indent, isOpener x = false := by
  obtain ⟨marker, hmarker⟩ := h.exists_marker_eq
  obtain ⟨before, after, hline, -⟩ := h.split
  refine ⟨marker ++ (before ++ c.text ++ after), ?_, fun x hx => isOpener_of_isBlank (h.indent x hx)⟩
  rw [hline, hmarker]
  simp

theorem IsUnbroken.read_eq (h : IsUnbroken line) (hr : r.region = .code) :
    rules.read r (line ++ t) = rules.read { r with region := .comment } t := by
  obtain ⟨indent, s, rfl, hindent, hs⟩ := h
  rw [List.append_assoc, read_code hr hindent, List.cons_append, read_hash hr, read_comment rfl hs]

theorem read_ending (he : IsEnding ending) (hr : r.region = .comment) :
    rules.read r (ending ++ t) = rules.read { r with region := .code } t := by
  rcases he with rfl | rfl
  · exact read_break hr Nat.one_ne_zero rfl
  · exact read_break hr (Nat.succ_ne_zero 1) rfl

/-- Comments in code, each on a line of its own, are read over up to the end of the last. -/
theorem read_intercalate (he : IsEnding ending) (hr : r.region = .code) (hne : ls ≠ [])
    (hls : ∀ l ∈ ls, IsUnbroken l) :
    rules.read r (List.intercalate ending ls ++ t)
      = rules.read { r with region := .comment } t := by
  induction ls with
  | nil => exact absurd rfl hne
  | cons line ls ih =>
    have hline := hls line List.mem_cons_self
    cases ls with
    | nil =>
      rw [List.intercalate_singleton]
      exact hline.read_eq hr
    | cons next ls =>
      have hrest := ih (by simp) fun l hl => hls l (List.mem_cons_of_mem _ hl)
      have hback : { ({ r with region := .comment } : Reading) with region := .code } = r := by
        cases r
        simp_all
      rw [List.intercalate_cons_cons, List.append_assoc, List.append_assoc, hline.read_eq hr,
        read_ending he rfl, hback, hrest]

/-- As long as nothing is torn, no break stands in a comment. -/
theorem noBreak_of_read (hr : r.region = .comment) (hnot : '\n' ∉ s)
    (hlast : s.getLast? = some '\r' → t.head? ≠ some '\n')
    (htorn : (python.read r (s ++ t)).torn = false) : ∀ x ∈ s, isBreak x = false := by
  induction s with
  | nil => simp
  | cons c s ih =>
    obtain ⟨hc, hs⟩ := List.ne_and_not_mem_of_not_mem_cons hnot
    have hcr : c ≠ '\r' := by
      rintro rfl
      -- a carriage return is followed by no line feed, so it tears
      have hhead : (s ++ t).head? ≠ some '\n' := by
        cases s with
        | nil => exact hlast rfl
        | cons d s =>
          intro hd
          obtain rfl : d = '\n' := by simpa using hd
          exact hs List.mem_cons_self
      have htears := tears_of_read htorn
      rw [hr] at htears
      exact Bool.noConfusion (htears.symm.trans (startsWithLoneCr_cr hhead))
    have hbreak : isBreak c = false := by simp [isBreak, hc.symm, hcr]
    rw [show c :: s ++ t = [c] ++ (s ++ t) from rfl, read_comment hr (by simpa using hbreak)] at htorn
    have hrest : s.getLast? = some '\r' → t.head? ≠ some '\n' := by
      intro h
      exact hlast (by rw [List.getLast?_cons, h]; rfl)
    simpa [hbreak] using ih hs hrest htorn

/-- A line that is wrapped is unbroken where nothing is torn. -/
theorem isUnbroken_of_read (h : IsComment line c) (hline : IsLine line) (hr : r.region = .code)
    (htorn : (python.read r (line ++ t)).torn = false) : IsUnbroken line := by
  obtain ⟨s, rfl, hindent⟩ := h.exists_eq
  refine ⟨c.indent, s, rfl, hindent, ?_⟩
  have hs := (hline.of_suffix (List.suffix_append _ _)).of_cons
  rw [List.append_assoc, read_code hr hindent, List.cons_append, read_hash hr] at htorn
  exact noBreak_of_read rfl hs.1 (fun hlast => absurd hlast hs.2) htorn

theorem isUnbroken_of_wrapped (h : wrapped? lineLength state first line = some ls) :
    ∀ l ∈ ls, IsUnbroken l := by
  obtain ⟨c, hc, rfl⟩ := wrapped?_eq_some_iff.1 h
  obtain ⟨marker, hmarker⟩ := hc.comment.exists_marker_eq
  intro l hl
  obtain ⟨ws, hws, rfl⟩ := List.mem_map.1 hl
  refine ⟨c.indent, marker ++ ' ' :: joinWords ws, by simp [Parts.lead, hmarker],
    fun x hx => isOpener_of_isBlank (hc.comment.indent x hx), ?_⟩
  intro x hx
  rcases List.mem_append.1 hx with hx | hx
  · obtain rfl : x = '#' := hc.comment.marker x (by simp [hmarker, hx])
    rfl
  · rcases List.mem_cons.1 hx with rfl | hx
    · rfl
    · exact noBreak_joinWords (isWord_of_mem_fillLines hws) x hx

/-! ### Pieces -/

theorem region_eq_code (hstate : state.inString = false) (hr : r.region = .ofScanner state) :
    r.region = .code := by
  have hnone : state.openTriple = none := by simpa [Scanner.inString] using hstate
  rw [hr, Region.ofScanner_of_none hnone]

/-- What a piece becomes is read as the piece was. -/
theorem exists_made (he : IsEnding ending) (hpiece : FirstPiece source line terminator rest)
    (hr : r.region = .ofScanner state) (htorn : (python.read r (line ++ terminator)).torn = false)
    (first : Bool) :
    ∃ made, reflowPieces lineLength ending state first (pieces source)
        = made ++ terminator
          ++ reflowPieces lineLength ending (state.scanLine line) false (pieces rest) ∧
      python.read r (made ++ terminator) = python.read r (line ++ terminator) := by
  cases hw : wrapped? lineLength state first line with
  | none => exact ⟨line, reflowPieces_of_kept hpiece hw, rfl⟩
  | some ls =>
    obtain ⟨c, hc, -⟩ := wrapped?_eq_some_iff.1 hw
    have hcode := region_eq_code hc.outside hr
    have hline := isUnbroken_of_read hc.comment (isLine_of_firstPiece hpiece) hcode htorn
    refine ⟨List.intercalate ending ls, ?_, ?_⟩
    · rw [reflowPieces_of_wrapped hpiece hw, hc.scanLine_eq]
    · rw [read_intercalate he hcode (stays_of_wrapped hpiece hw).1 (isUnbroken_of_wrapped hw),
        hline.read_eq hcode]

/-! ### Sources -/

/-- **A source that is torn nowhere is read the same after reflow.** -/
theorem read_reflowPieces (he : IsEnding ending) (source : List Char) (state : Scanner)
    (first : Bool) (hr : r.region = .ofScanner state) (htorn : (python.read r source).torn = false) :
    python.read r (reflowPieces lineLength ending state first (pieces source))
      = python.read r source := by
  induction source, state, first using source_induction generalizing r with
  | nil state first => rfl
  | cons source line terminator rest state first hpiece ih =>
    by_cases hrest : rest = []
    · have hsource := hpiece.eq
      rw [hrest, List.append_nil] at hsource
      rw [hsource] at htorn
      obtain ⟨made, hmade, hread⟩ := exists_made he hpiece hr htorn first
      rw [hmade, reflowPieces_rest hrest, List.append_nil, hread, hsource]
    · have hsplit := hpiece.endsWithBreak hrest
      rw [hpiece.eq, read_append _ _ (hsplit line rest)] at htorn
      have hpieceTorn := torn_of_read htorn
      obtain ⟨made, hmade, hread⟩ := exists_made he hpiece hr hpieceTorn first
      have hregion := region_read_firstPiece hpiece hrest hr hpieceTorn
      rw [hmade, read_append _ _ (hsplit made _), hread, ih hregion htorn,
        ← read_append _ _ (hsplit line rest), ← hpiece.eq]

/-! ### Lines -/

/-- Within a comment in code, no reading that is not torn comes to a literal. -/
theorem region_read_isComment (h : IsComment line c) (hr : r.region = .code)
    (hbefore : line ++ t = before ++ after) (hnot : '\n' ∉ before)
    (htorn : (python.read r before).torn = false) :
    (python.read r before).region.isLiteral = false := by
  obtain ⟨s, rfl, hindent⟩ := h.exists_eq
  have hcode : (python.read r c.indent).region = .code := by
    rw [← List.append_nil c.indent, read_code hr hindent]
    exact hr
  rw [List.append_assoc] at hbefore
  rcases List.append_eq_append_iff.1 hbefore with ⟨p, rfl, hp⟩ | ⟨p, hp, -⟩
  · cases p with
    | nil =>
      rw [List.append_nil, hcode]
      rfl
    | cons x p =>
      obtain ⟨rfl, -⟩ := List.cons.inj hp
      rw [read_code hr hindent, read_hash hr] at htorn ⊢
      have hp' : '\n' ∉ p := fun hmem => hnot (by simp [hmem])
      rw [← List.append_nil p] at htorn ⊢
      have hbreak := noBreak_of_read rfl hp' (by simp) htorn
      rw [read_comment rfl hbreak]
      rfl
  · have hmem : ∀ x ∈ before, isOpener x = false := fun x hx =>
      hindent x (by rw [hp]; exact List.mem_append_left _ hx)
    rw [← List.append_nil before, read_code hr hmem, read_nil, hr]
    rfl

/-- A line that begins in a literal and in the first piece is kept with the piece. -/
theorem exists_lineStart_firstPiece (hpiece : FirstPiece source line terminator rest)
    {tail : List Char} (hr : r.region = .ofScanner state) (htail : tail ≠ [])
    (hcut : line ++ terminator = before ++ tail) (hstart : LineStart before (tail ++ rest))
    (hliteral : (python.read r before).region.isLiteral = true)
    (htorn : (python.read r before).torn = false) (first : Bool) :
    ∃ kept, reflowPieces lineLength ending state first (pieces source) = before ++ kept ∧
      LineStart before kept ∧ firstLine kept = firstLine (tail ++ rest) := by
  cases hw : wrapped? lineLength state first line with
  | some ls =>
    obtain ⟨c, hc, -⟩ := wrapped?_eq_some_iff.1 hw
    have hnot := hpiece.notMem_of_cut hcut htail
    have hcode := region_eq_code hc.outside hr
    rw [region_read_isComment hc.comment hcode hcut hnot htorn] at hliteral
    exact Bool.noConfusion hliteral
  | none =>
    refine ⟨tail ++ reflowPieces lineLength ending (state.scanLine line) false (pieces rest), ?_, ?_,
      ?_⟩
    · rw [reflowPieces_of_kept hpiece hw, hcut, List.append_assoc]
    · obtain ⟨x, tail, rfl⟩ := List.exists_cons_of_ne_nil htail
      exact hstart.congr rfl
    · by_cases hrest : rest = []
      · rw [reflowPieces_rest hrest, hrest]
      · have hbreak : ∀ t, EndsWithBreak tail t := by
          intro t
          have h := hpiece.endsWithBreak hrest line t
          rw [hcut] at h
          exact h.of_append htail
        rw [firstLine_append (hbreak _), firstLine_append (hbreak _)]

/-- **A line that begins in a literal is kept.** -/
theorem exists_lineStart (he : IsEnding ending) (source : List Char) (state : Scanner)
    (first : Bool) (hr : r.region = .ofScanner state) (hsource : source = before ++ after)
    (hafter : after ≠ []) (hstart : LineStart before after)
    (hliteral : (python.read r before).region.isLiteral = true)
    (htorn : (python.read r before).torn = false) :
    ∃ made kept, reflowPieces lineLength ending state first (pieces source) = made ++ kept ∧
      LineStart made kept ∧ python.read r made = python.read r before ∧
      firstLine kept = firstLine after := by
  induction source, state, first using source_induction generalizing r before with
  | nil state first =>
    rw [eq_comm, List.append_eq_nil_iff] at hsource
    exact absurd hsource.2 hafter
  | cons source line terminator rest state first hpiece ih =>
    rcases hpiece.cut hsource with ⟨later, rfl, hrest⟩ | ⟨tail, htail, hcut, rfl⟩
    · have hne : rest ≠ [] := by simp [hrest, hafter]
      have hsplit := hpiece.endsWithBreak hne
      rw [read_append _ _ (hsplit line later)] at hliteral htorn ⊢
      have hpieceTorn := torn_of_read htorn
      obtain ⟨block, hblock, hread⟩ := exists_made he hpiece hr hpieceTorn first
      have hregion := region_read_firstPiece hpiece hne hr hpieceTorn
      obtain ⟨made, kept, hmade, hmadeStart, hmadeRead, hline⟩ :=
        ih hregion hrest hstart.of_append hliteral htorn
      refine ⟨block ++ terminator ++ made, kept, ?_, hmadeStart.append (hsplit block kept), ?_, hline⟩
      · rw [hblock, hmade, List.append_assoc (block ++ terminator)]
      · rw [read_append _ _ (hsplit block made), hread, hmadeRead]
    · obtain ⟨kept, hkept, hkeptStart, hline⟩ :=
        exists_lineStart_firstPiece hpiece hr htail hcut hstart hliteral htorn first
      exact ⟨before, kept, hkept, hkeptStart, rfl, hline⟩

/-! ### Literals and reflow -/

/-- **Reflow keeps what is in a literal.**  Every line that begins in a literal before Python's rules
matter is a line of the source reflowed, and begins in the same literal.  If they matter nowhere, the
whole reading is the same, with the text of every literal. -/
theorem literals_reflow (lineLength : Nat) (source : List Char) :
    (∀ reading line, LineInLiteral source reading line → reading.torn = false →
      LineInLiteral (reflow lineLength source) reading line) ∧
    ((python.read {} source).torn = false →
      python.read {} (reflow lineLength source) = python.read {} source) := by
  have he := isEnding_dominant source
  refine ⟨?_, read_reflowPieces he source {} true rfl⟩
  rintro reading line ⟨before, after, hsource, hafter, hstart, rfl, hliteral, rfl⟩ htorn
  obtain ⟨made, kept, hmade, hmadeStart, hread, hline⟩ :=
    exists_lineStart he source {} true rfl hsource hafter hstart hliteral htorn
  refine ⟨made, kept, hmade, ?_, hmadeStart, hread, hliteral, hline⟩
  rintro rfl
  exact firstLine_ne_nil hafter hline.symm

/-- A comment is wrapped, and a line that looks like it is kept in a literal. -/
example :
    let source :=
      "x = \"\"\"\n# one two three four five six\n\"\"\"\n# one two three four five six\n".toList
    (python.read {} source).torn = false ∧ reflow 20 source =
      "x = \"\"\"\n# one two three four five six\n\"\"\"\n# one two three four\n# five six\n".toList := by
  decide +kernel

/-- After a literal in single quotes that goes on over a line break, the quotes that end it are taken
for the beginning of another, and what is in a triple-quoted literal is wrapped. -/
theorem literal_changed :
    let before := "x = 'a\\\n\"\"\"'\ny = \"\"\"\n".toList
    let line := "# one two three four five six\n".toList
    let source := before ++ line ++ "\"\"\"\n".toList
    LineInLiteral source (python.read {} before) line ∧ ¬ line <:+: reflow 20 source ∧
      (python.read {} (reflow 20 source)).closed ≠ (python.read {} source).closed := by
  intro before line source
  refine ⟨⟨before, line ++ "\"\"\"\n".toList, ?_, ?_, ?_, rfl, ?_, ?_⟩, ?_, ?_⟩
  · exact List.append_assoc _ _ _
  all_goals decide +kernel

end CodeTidy.Comment
