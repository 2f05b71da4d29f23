import CodeTidy.Proofs.Comment.Blocks
import CodeTidy.Proofs.Comment.Slices

/-!
# What reflow knows where a line begins

Reflow comes to every piece of a source in a state (`stateFrom`, `reflowPieces_append`), and the lines
that it wraps make no difference to it (`stateFrom_eq_foldl`).  The state is where the linewise rules
stand at the first character of the piece when they read the whole source
(`scanner_tracks_source`).
-/

namespace CodeTidy.Comment

open CodeTidy.Text LexicalRules

/-! ### Positions -/

/-- Where a lexer stands when it comes to the character at a position; `none` when the character is
inside of a lexeme or beyond the end. -/
def LexicalRules.regionAt (rules : LexicalRules) (region : Region) :
    List Char → Nat → Option Region
  | _, 0 => some region
  | [], _ + 1 => none
  | c :: cs, n + 1 =>
    let l := rules.lexeme region c cs
    if l.length ≤ n + 1 then rules.regionAt l.next ((c :: cs).drop l.length) (n + 1 - l.length)
    else none
termination_by _ n => n
decreasing_by
  have := rules.one_le_length_lexeme region c cs
  omega

/-- The state in which reflow comes to what follows some pieces. -/
def stateFrom (lineLength : Nat) : Scanner → Bool → List (List Char) → Scanner
  | state, _, [] => state
  | state, first, piece :: rest =>
    let line := trimBreaks piece
    match wrapped? lineLength state first line with
    | some _ => stateFrom lineLength state false rest
    | none => stateFrom lineLength (state.scanLine line) false rest

variable {rules : LexicalRules} {r : Reading} {region : Region} {lineLength : Nat}
  {ending a b source piece : List Char} {state : Scanner} {first : Bool}
  {before after : List (List Char)}

/-- A lexer that reads a whole text comes to the beginning of a line as if the text ended there. -/
theorem LexicalRules.regionAt_append (hr : r.region = region) (h : LineStart a b) :
    rules.regionAt region (a ++ b) a.length = some (rules.read r a).region := by
  subst hr
  induction r, a using rules.read_induction with
  | nil r => simp [regionAt]
  | cons r c cs ih =>
    have hends : EndsWithBreak (c :: cs) b := h.resolve_left (List.cons_ne_nil c cs)
    obtain ⟨hlexeme, hle⟩ := rules.lexeme_append r.region hends
    have hrest : LineStart ((c :: cs).drop (rules.lexeme r.region c cs).length) b := by
      rcases Nat.lt_or_eq_of_le hle with hlt | heq
      · exact .inr (hends.drop hlt)
      · exact .inl (by rw [heq, List.drop_length])
    have hposition := ih hrest
    rw [region_step, List.length_drop] at hposition
    rw [List.length_cons] at hle hposition
    rw [List.cons_append, List.length_cons, regionAt, hlexeme, if_pos hle, read_cons, ← hposition,
      ← List.cons_append, List.drop_append_of_le_length hle]

/-! ### Pieces -/

/-- Reflow goes on behind some pieces with the state in which it comes there. -/
theorem reflowPieces_append (lineLength : Nat) (ending : List Char) (state : Scanner) (first : Bool)
    (before after : List (List Char)) :
    reflowPieces lineLength ending state first (before ++ after)
      = reflowPieces lineLength ending state first before
        ++ reflowPieces lineLength ending (stateFrom lineLength state first before)
          (first && before.isEmpty) after := by
  induction before generalizing state first with
  | nil => simp [reflowPieces, stateFrom]
  | cons piece before ih =>
    cases hw : wrapped? lineLength state first (trimBreaks piece) with
    | none => simp [reflowPieces, stateFrom, hw, ih]
    | some ls => simp [reflowPieces, stateFrom, hw, ih]

/-- **Scanning the lines that are wrapped would change nothing.** -/
theorem stateFrom_eq_foldl (lineLength : Nat) (state : Scanner) (first : Bool)
    (before : List (List Char)) :
    stateFrom lineLength state first before
      = before.foldl (fun state piece => state.scanLine (trimBreaks piece)) state := by
  induction before generalizing state first with
  | nil => rfl
  | cons piece before ih =>
    rw [stateFrom, List.foldl_cons]
    split
    · rename_i ls hw
      obtain ⟨c, hc, -⟩ := wrapped?_eq_some_iff.1 hw
      rw [ih, hc.scanLine_eq]
    · rw [ih]

/-- Behind some pieces a line begins, and what the linewise rules have open there is what the scanner
remembers. -/
theorem region_read_pieces (hpieces : pieces source = before ++ piece :: after)
    (hr : r.region = .ofScanner state) :
    LineStart before.flatten (piece :: after).flatten ∧
      (linewise.read r before.flatten).region
        = .ofScanner (before.foldl (fun state piece => state.scanLine (trimBreaks piece)) state) := by
  induction before generalizing source r state with
  | nil => exact ⟨.inl rfl, hr⟩
  | cons p before ih =>
    have hne : source ≠ [] := by
      rintro rfl
      cases hpieces
    obtain ⟨line, terminator, rest, hpiece⟩ := exists_firstPiece hne
    rw [hpiece.pieces_eq, List.cons_append] at hpieces
    obtain ⟨rfl, hrest⟩ := List.cons.inj hpieces
    have hrestNe : rest ≠ [] := by
      rintro rfl
      simp [pieces] at hrest
    have hends : ∀ t, EndsWithBreak (line ++ terminator) t := hpiece.endsWithBreak hrestNe line
    have hscan := region_read_scanLine (isLine_of_firstPiece hpiece)
      (isTerminator_of_firstPiece hpiece hrestNe) hr
    obtain ⟨hstart, hregion⟩ := ih hrest hscan
    rw [List.flatten_cons, List.foldl_cons, hpiece.trimBreaks_eq, read_append _ _ (hends _)]
    exact ⟨hstart.append (hends _), hregion⟩

/-! ### Sources -/

theorem openTriple_eq_some_iff {q : Quote} :
    state.openTriple = some q ↔ Region.ofScanner state = .triple q := by
  unfold Region.ofScanner
  split <;> simp_all

/-- **The scanner tracks the whole source.**  The state in which reflow comes to a piece is that of a
scanner that has scanned every line before, and says where the linewise rules stand at the first
character of the piece: in a triple-quoted string, and in which.  Scanning a line always ends, and
every slice that it takes of the line is possible. -/
theorem scanner_tracks_source (lineLength : Nat) (source : List Char) :
    (∀ before piece after, pieces source = before ++ piece :: after →
      let ending := LineEnding.dominant source
      let state := stateFrom lineLength {} true before
      let region? := linewise.regionAt .code source before.flatten.length
      reflow lineLength source
          = reflowPieces lineLength ending {} true before
            ++ reflowPieces lineLength ending state before.isEmpty (piece :: after) ∧
        state = before.foldl (fun state piece => state.scanLine (trimBreaks piece)) {} ∧
        region? = some (.ofScanner state) ∧
        (∀ q, state.openTriple = some q ↔ region? = some (.triple q)) ∧
        (state.inString = true ↔ ∃ q, region? = some (.triple q))) ∧
      ∀ state line, scanSliced state line = .ok (Scanner.scanLine state line) := by
  refine ⟨?_, scanSliced_eq⟩
  intro before piece after hpieces ending state region?
  have hstate := stateFrom_eq_foldl lineLength {} true before
  have hregion : region? = some (.ofScanner state) := by
    obtain ⟨hstart, hread⟩ : LineStart before.flatten (piece :: after).flatten ∧
        (linewise.read {} before.flatten).region
          = .ofScanner (before.foldl (fun state piece => state.scanLine (trimBreaks piece)) {}) :=
      region_read_pieces hpieces rfl
    have hsource : source = before.flatten ++ (piece :: after).flatten := by
      rw [← flatten_pieces source, hpieces, List.flatten_append]
    have hat : linewise.regionAt .code (before.flatten ++ (piece :: after).flatten)
        before.flatten.length = some (linewise.read {} before.flatten).region :=
      regionAt_append rfl hstart
    rw [hread, ← hsource, ← hstate] at hat
    exact hat
  have hopen : ∀ q, state.openTriple = some q ↔ region? = some (.triple q) := by
    intro q
    rw [hregion, Option.some.injEq]
    exact openTriple_eq_some_iff
  refine ⟨?_, hstate, hregion, hopen, ?_⟩
  · rw [reflow, hpieces, reflowPieces_append, Bool.true_and]
  · rw [Scanner.inString, Option.isSome_iff_exists]
    exact exists_congr hopen

end CodeTidy.Comment
