import CodeTidy.Proofs.Comment.Blocks
import CodeTidy.Proofs.Endings

/-!
# Reflowing twice

A line that reflow has made stays when it is reflowed again (`Reflowable.stays`): it is short enough,
or it holds one word and is wrapped into itself, and it opens no string.  The prevailing break stays
too (`dominant_reflow`), so a second reflow changes nothing (`reflow_reflow`).
-/

namespace CodeTidy.Comment

open CodeTidy.Text

variable {lineLength : Nat} {ending : List Char} {state : Scanner} {first : Bool}
  {source line terminator rest : List Char} {c : Parts} {ws : List Word} {ls : List (List Char)}

/-! ### Lines that stay -/

/-- A line that is no worse for being reflowed, wherever it stands: it does not end a piece early, it
is scanned in vain, and it is kept or wrapped into itself. -/
structure Stays (lineLength : Nat) (state : Scanner) (line : List Char) : Prop where
  ne_nil : line ≠ []
  notMem : '\n' ∉ line
  last : ∀ c, line.getLast? = some c → isBreak c = false
  scanLine_eq : state.scanLine line = state
  wrapped?_eq : ∀ first, wrapped? lineLength state first line = none ∨
    wrapped? lineLength state first line = some [line]

theorem isComment_lead (h : IsComment line c) (hws : ∀ w ∈ ws, IsWord w) :
    IsComment (c.lead ++ joinWords ws) { c with text := joinWords ws } where
  indent := h.indent
  marker_ne_nil := h.marker_ne_nil
  marker := h.marker
  trimmed := trimmed_joinWords hws
  split := by
    refine ⟨[' '], [], ?_, by simp, by simp, by simp⟩
    simp [Parts.lead]

/-- Words that fit a line are wrapped into that line, or not at all. -/
theorem wrapped?_lead (h : IsComment line c) (hne : ws ≠ []) (hws : ∀ w ∈ ws, IsWord w)
    (hfits : Fits (lineLength - c.lead.length) ws) (state : Scanner) (first : Bool) :
    wrapped? lineLength state first (c.lead ++ joinWords ws) = none ∨
      wrapped? lineLength state first (c.lead ++ joinWords ws) = some [c.lead ++ joinWords ws] := by
  cases hw : wrapped? lineLength state first (c.lead ++ joinWords ws) with
  | none => exact .inl rfl
  | some ls =>
    right
    obtain ⟨c', hc', rfl⟩ := wrapped?_eq_some_iff.1 hw
    -- the parts of the line are the lead and the words
    obtain rfl := hc'.comment.unique (isComment_lead h hws)
    have hfill : fillLines (lineLength - c.lead.length) (words (joinWords ws)) = [ws] := by
      rw [words_joinWords hws]
      exact fillLines_of_fits hne hfits
    exact congrArg (fun lines => some (lines.map fun line => c.lead ++ joinWords line)) hfill

/-- **The lines of a wrapped comment stay.** -/
theorem Reflowable.stays (h : Reflowable lineLength state first line c) (hline : '\n' ∉ line)
    (hws : ws ∈ fillLines (lineLength - c.lead.length) (words c.text)) :
    Stays lineLength state (c.lead ++ joinWords ws) := by
  obtain ⟨-, hfilled, hfits⟩ := layout_fillLines (lineLength - c.lead.length) (words c.text)
  have hne : ws ≠ [] := hfilled ws hws
  have hwords : ∀ w ∈ ws, IsWord w := isWord_of_mem_fillLines hws
  have hjoined : joinWords ws ≠ [] := by
    obtain ⟨w, more, rfl⟩ := List.exists_cons_of_ne_nil hne
    have hw := (hwords w List.mem_cons_self).ne_nil
    intro hnil
    have hhead := head?_joinWords hw more
    rw [hnil] at hhead
    exact hw (List.head?_eq_none_iff.1 hhead.symm)
  refine ⟨by simp [hjoined], ?_, ?_, ?_, ?_⟩
  · intro hmem
    rw [Parts.lead, List.append_assoc, List.append_assoc] at hmem
    obtain ⟨before, after, hsplit, -⟩ := h.comment.split
    rcases List.mem_append.1 hmem with hmem | hmem
    · exact hline (by rw [hsplit]; simp [hmem])
    · rcases List.mem_append.1 hmem with hmem | hmem
      · exact absurd (h.comment.marker _ hmem) (by decide)
      · rcases List.mem_cons.1 hmem with hmem | hmem
        · exact absurd hmem (by decide)
        · exact absurd (noBreak_joinWords hwords _ hmem) (by decide)
  · intro x hx
    rw [List.getLast?_append, List.getLast?_eq_some_getLast hjoined, Option.some_or] at hx
    have hblank : isBlank x = false := by
      refine (trimmed_joinWords hwords).last x ?_
      rw [List.getLast?_eq_some_getLast hjoined, hx]
    by_contra hbreak
    rw [isBlank_of_isBreak (by simpa using hbreak)] at hblank
    exact Bool.noConfusion hblank
  · exact Scanner.scanLine_of_isComment h.outside (isComment_lead h.comment hwords)
  · intro first'
    exact wrapped?_lead h.comment hne hwords (hfits ws hws) state first'

theorem stays_of_wrapped (hpiece : FirstPiece source line terminator rest)
    (h : wrapped? lineLength state first line = some ls) :
    ls ≠ [] ∧ ∀ made ∈ ls, Stays lineLength state made := by
  obtain ⟨c, hc, rfl⟩ := wrapped?_eq_some_iff.1 h
  have hfilled := (wrapping_fillLines hc.text_ne_nil hc.comment hc.lead_le).ne_nil
  refine ⟨by simpa using hfilled, ?_⟩
  intro made hmade
  obtain ⟨ws, hws, rfl⟩ := List.mem_map.1 hmade
  exact hc.stays hpiece.notMem hws

/-! ### Pieces that stay -/

/-- A line that stays is reflowed into itself, and the rest as it would be alone. -/
theorem Stays.reflowPieces_eq (h : Stays lineLength state line)
    (hpiece : FirstPiece source line terminator rest) (first : Bool) :
    reflowPieces lineLength ending state first (pieces source)
      = line ++ terminator ++ reflowPieces lineLength ending state false (pieces rest) := by
  rcases h.wrapped?_eq first with hw | hw
  · rw [reflowPieces_of_kept hpiece hw, h.scanLine_eq]
  · rw [reflowPieces_of_wrapped hpiece hw, List.intercalate_singleton]

/-- The two line breaks. -/
def IsEnding (ending : List Char) : Prop :=
  ending = ['\n'] ∨ ending = ['\r', '\n']

theorem isEnding_dominant (source : List Char) : IsEnding (LineEnding.dominant source) := by
  unfold LineEnding.dominant
  split
  · exact .inr rfl
  · exact .inl rfl

/-- A line that stays and a break after it are a piece of their own. -/
theorem Stays.firstPiece (h : Stays lineLength state line) (he : IsEnding ending)
    (rest : List Char) : FirstPiece (line ++ ending ++ rest) line ending rest where
  eq := rfl
  ne_nil := by simp [h.ne_nil]
  notMem := h.notMem
  last := h.last
  breaks := by
    rcases he with rfl | rfl <;> simp [isBreak]
  ends := by
    left
    rcases he with rfl | rfl
    · exact ⟨[], rfl, by simp⟩
    · exact ⟨['\r'], rfl, by simp⟩

/-- The last of the lines keeps the terminator of the piece that became them. -/
theorem Stays.firstPiece_last {old output : List Char} (h : Stays lineLength state line)
    (hpiece : FirstPiece source old terminator rest) (houtput : rest = [] → output = []) :
    FirstPiece (line ++ terminator ++ output) line terminator output where
  eq := rfl
  ne_nil := by simp [h.ne_nil]
  notMem := h.notMem
  last := h.last
  breaks := hpiece.breaks
  ends := (hpiece.replace houtput).ends

theorem reflowPieces_rest (h : rest = []) :
    reflowPieces lineLength ending state first (pieces rest) = [] := by
  rw [h]
  rfl

/-- Lines that stay, with breaks between them and the terminator of a piece after the last, are pieces
one after the other. -/
theorem block_induction {old output : List Char} (he : IsEnding ending)
    (hpiece : FirstPiece source old terminator rest) (houtput : rest = [] → output = [])
    {motive : List (List Char) → List Char → Prop}
    (last : ∀ line, Stays lineLength state line →
      FirstPiece (line ++ terminator ++ output) line terminator output →
      motive [line] (line ++ terminator ++ output))
    (more : ∀ line next ls text, Stays lineLength state line →
      FirstPiece (line ++ ending ++ text) line ending text →
      motive (next :: ls) text → motive (line :: next :: ls) (line ++ ending ++ text))
    (hne : ls ≠ []) (hls : ∀ line ∈ ls, Stays lineLength state line) :
    motive ls (List.intercalate ending ls ++ terminator ++ output) := by
  induction ls with
  | nil => exact absurd rfl hne
  | cons line ls ih =>
    have hline := hls line List.mem_cons_self
    cases ls with
    | nil =>
      rw [List.intercalate_singleton]
      exact last line hline (hline.firstPiece_last hpiece houtput)
    | cons next ls =>
      have hrest := ih (by simp) fun l hl => hls l (List.mem_cons_of_mem _ hl)
      rw [List.intercalate_cons_cons, List.append_assoc, List.append_assoc,
        ← List.append_assoc (List.intercalate ending (next :: ls))]
      exact more line next ls _ hline (hline.firstPiece he _) hrest

/-- **What a wrapped piece became is reflowed into itself.** -/
theorem reflowPieces_intercalate {old output : List Char} (he : IsEnding ending)
    (hpiece : FirstPiece source old terminator rest) (houtput : rest = [] → output = [])
    (hne : ls ≠ []) (hls : ∀ line ∈ ls, Stays lineLength state line) (first : Bool) :
    reflowPieces lineLength ending state first
        (pieces (List.intercalate ending ls ++ terminator ++ output))
      = List.intercalate ending ls ++ terminator
        ++ reflowPieces lineLength ending state false (pieces output) := by
  refine block_induction he hpiece houtput (motive := fun ls text => ∀ first,
    reflowPieces lineLength ending state first (pieces text) = List.intercalate ending ls
      ++ terminator ++ reflowPieces lineLength ending state false (pieces output))
    ?_ ?_ hne hls first
  · intro line hline hlast first
    rw [List.intercalate_singleton]
    exact hline.reflowPieces_eq hlast first
  · intro line next ls text hline hmore ih first
    rw [hline.reflowPieces_eq hmore, ih, List.intercalate_cons_cons]
    simp only [List.append_assoc]

/-! ### Sources that stay -/

theorem reflowPieces_reflowPieces (he : IsEnding ending) (source : List Char) (state : Scanner)
    (first : Bool) :
    reflowPieces lineLength ending state first
        (pieces (reflowPieces lineLength ending state first (pieces source)))
      = reflowPieces lineLength ending state first (pieces source) := by
  induction source, state, first using reflow_induction lineLength with
  | nil state first => rfl
  | kept source line terminator rest state first hpiece hw ih =>
    rw [reflowPieces_of_kept hpiece hw, reflowPieces_of_kept (hpiece.replace reflowPieces_rest) hw,
      ih]
  | wrapped source line terminator rest state first ls hpiece hw ih =>
    obtain ⟨hfilled, hstays⟩ := stays_of_wrapped hpiece hw
    rw [reflowPieces_of_wrapped hpiece hw,
      reflowPieces_intercalate he hpiece reflowPieces_rest hfilled hstays, ih]

/-! ### The prevailing break -/

/-- The break of a kind. -/
def breakOf (crlf : Bool) : List Char :=
  if crlf then ['\r', '\n'] else ['\n']

theorem isEnding_breakOf (crlf : Bool) : IsEnding (breakOf crlf) := by
  cases crlf
  · exact .inl rfl
  · exact .inr rfl

theorem grows_break (crlf : Bool) (b : Breaks) :
    Breaks.Grows crlf b (Breaks.ofText (breakOf crlf) + b) := by
  cases crlf <;> simp [Breaks.Grows, breakOf, Breaks.ofText, Breaks.count]

theorem grows_intercalate {old output : List Char} {crlf : Bool} {b : Breaks}
    (hpiece : FirstPiece source old terminator rest) (houtput : rest = [] → output = [])
    (hne : ls ≠ []) (hls : ∀ line ∈ ls, Stays lineLength state line)
    (h : Breaks.Grows crlf b (Breaks.ofText output)) :
    Breaks.Grows crlf (Breaks.ofText terminator + b)
      (Breaks.ofText (List.intercalate (breakOf crlf) ls ++ terminator ++ output)) := by
  refine block_induction (isEnding_breakOf crlf) hpiece houtput (motive := fun _ text =>
    Breaks.Grows crlf (Breaks.ofText terminator + b) (Breaks.ofText text)) ?_ ?_ hne hls
  · intro line hline hlast
    rw [Breaks.ofText_of_firstPiece hlast]
    exact h.add_left _
  · intro line next ls text hline hmore ih
    rw [Breaks.ofText_of_firstPiece hmore]
    exact ih.trans (grows_break crlf _)

theorem grows_reflowPieces (crlf : Bool) (source : List Char) (state : Scanner) (first : Bool) :
    Breaks.Grows crlf (Breaks.ofText source)
      (Breaks.ofText (reflowPieces lineLength (breakOf crlf) state first (pieces source))) := by
  induction source, state, first using reflow_induction lineLength with
  | nil state first => exact .refl crlf _
  | kept source line terminator rest state first hpiece hw ih =>
    rw [reflowPieces_of_kept hpiece hw, Breaks.ofText_of_firstPiece hpiece,
      Breaks.ofText_of_firstPiece (hpiece.replace reflowPieces_rest)]
    exact ih.add_left _
  | wrapped source line terminator rest state first ls hpiece hw ih =>
    obtain ⟨hfilled, hstays⟩ := stays_of_wrapped hpiece hw
    rw [reflowPieces_of_wrapped hpiece hw, Breaks.ofText_of_firstPiece hpiece]
    exact grows_intercalate hpiece reflowPieces_rest hfilled hstays ih

theorem dominant_eq_breakOf (source : List Char) :
    LineEnding.dominant source = breakOf (Breaks.ofText source).crlfDominates := rfl

/-- **Reflow keeps the prevailing break.** -/
theorem dominant_reflow (lineLength : Nat) (source : List Char) :
    LineEnding.dominant (reflow lineLength source) = LineEnding.dominant source := by
  have hgrows : Breaks.Grows (Breaks.ofText source).crlfDominates (Breaks.ofText source)
      (Breaks.ofText (reflowPieces lineLength (breakOf (Breaks.ofText source).crlfDominates) {} true
        (pieces source))) :=
    grows_reflowPieces _ source {} true
  rw [dominant_eq_breakOf, dominant_eq_breakOf, reflow, dominant_eq_breakOf,
    hgrows.crlfDominates_eq]

/-- **A second reflow changes nothing.** -/
theorem reflow_reflow (lineLength : Nat) (source : List Char) :
    reflow lineLength (reflow lineLength source) = reflow lineLength source := by
  rw [reflow, dominant_reflow, reflow]
  exact reflowPieces_reflowPieces (isEnding_dominant source) source {} true

end CodeTidy.Comment
