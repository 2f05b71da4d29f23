import CodeTidy.Proofs.Comment.Layout
import CodeTidy.Proofs.Comment.Parts
import CodeTidy.Proofs.Text.Lines

/-!
# What reflow makes of a source

A source is reflowed piece by piece: each piece is kept, or is an over-long comment whose words
fill new lines (`Block`).  `Reflows` describes the result for a whole source without the functions
that compute it, and `reflow_reflows` says that this is what `reflow` makes.
-/

namespace CodeTidy.Comment

open CodeTidy.Text

/-! ### Lines that are wrapped -/

/-- A line that reflow wraps: an over-long comment outside of strings, with a text that addresses no
tool and enough room for it.  The first line of a source must not begin with `#!`. -/
structure Reflowable (lineLength : Nat) (state : Scanner) (first : Bool) (line : List Char)
    (c : Parts) : Prop where
  long : lineLength < line.length
  outside : state.inString = false
  noShebang : ¬ (first = true ∧ ['#', '!'] <+: line)
  comment : IsComment line c
  text_ne_nil : c.text ≠ []
  noDirective : ∀ lead ∈ directives, ¬ lead <+: c.text
  room : c.indent.length + c.marker.length + 1 + minTextWidth ≤ lineLength

/-- The lines that the words of a comment fill: in order, each with a word, none too long unless it
holds a single one, and none that could also take the first word of the next. -/
structure Wrapping (lineLength : Nat) (c : Parts) (lines : List (List Word)) : Prop where
  ne_nil : lines ≠ []
  words : lines.flatten = words c.text
  filled : ∀ line ∈ lines, line ≠ []
  fits : ∀ line ∈ lines, (c.lead ++ joinWords line).length ≤ lineLength ∨ line.length = 1
  greedy : lines.IsChain fun line next => ∀ w, next.head? = some w →
    lineLength < (c.lead ++ joinWords (line ++ [w])).length

/-- What becomes of a line and its terminator. -/
inductive Block (lineLength : Nat) (ending : List Char) (state : Scanner) (first : Bool)
    (line terminator : List Char) : List Char → Prop
  | kept (h : ∀ c, ¬ Reflowable lineLength state first line c) :
    Block lineLength ending state first line terminator (line ++ terminator)
  | wrapped {c : Parts} {lines : List (List Word)} (h : Reflowable lineLength state first line c)
    (wrapping : Wrapping lineLength c lines) :
    Block lineLength ending state first line terminator
      (List.intercalate ending (lines.map fun line => c.lead ++ joinWords line) ++ terminator)

/-- What becomes of a source, from a piece of it on: every piece becomes a block, and every line is
scanned for strings. -/
inductive Reflows (lineLength : Nat) (ending : List Char) :
    Scanner → Bool → List Char → List Char → Prop
  | nil (state : Scanner) (first : Bool) : Reflows lineLength ending state first [] []
  | cons {state : Scanner} {first : Bool} {source line terminator rest block output : List Char}
    (piece : FirstPiece source line terminator rest)
    (made : Block lineLength ending state first line terminator block)
    (more : Reflows lineLength ending (state.scanLine line) false rest output) :
    Reflows lineLength ending state first source (block ++ output)

variable {lineLength : Nat} {ending : List Char} {state : Scanner} {first : Bool}
  {line terminator : List Char} {c : Parts} {ls : List (List Char)}

theorem Parts.length_lead (c : Parts) : c.lead.length = c.indent.length + c.marker.length + 1 := by
  simp [Parts.lead]
  omega

/-! ### Wrapping -/

theorem isDirective_eq_false_iff :
    c.isDirective = false ↔ ∀ lead ∈ directives, ¬ lead <+: c.text := by
  simp [Parts.isDirective]

theorem wrapping_fillLines (htext : c.text ≠ []) (hcomment : IsComment line c)
    (hroom : c.lead.length ≤ lineLength) :
    Wrapping lineLength c (fillLines (lineLength - c.lead.length) (words c.text)) := by
  obtain ⟨hflatten, hfilled, hfits⟩ := layout_fillLines (lineLength - c.lead.length) (words c.text)
  refine ⟨?_, hflatten, hfilled, ?_, ?_⟩
  · intro hnil
    obtain ⟨x, xs, hx⟩ := List.exists_cons_of_ne_nil htext
    have hblank : isBlank x = false := hcomment.trimmed.head x (by simp [hx])
    rw [hnil, hx] at hflatten
    exact words_ne_nil hblank xs hflatten.symm
  · intro ws hws
    refine (hfits ws hws).imp_left fun h => ?_
    rw [List.length_append]
    omega
  · refine (tight_fillLines (lineLength - c.lead.length) (words c.text)).imp ?_
    intro ws next h w hw
    have hlong := h w hw
    rw [List.length_append]
    omega

theorem eligible_iff :
    eligible lineLength state first line = true ↔ state.inString = false ∧
      ¬ (first = true ∧ ['#', '!'] <+: line) ∧ lineLength < line.length := by
  have hshebang : (!(first && ['#', '!'].isPrefixOf line)) = true ↔
      ¬ (first = true ∧ ['#', '!'] <+: line) := by
    rw [Bool.not_eq_true', ← Bool.not_eq_true, Bool.and_eq_true, List.isPrefixOf_iff_prefix]
  rw [eligible, Bool.and_eq_true, Bool.and_eq_true, hshebang, Bool.not_eq_true', and_assoc,
    decide_eq_true_iff]

/-- **Exactly the reflowable lines are wrapped.** -/
theorem wrapped?_eq_some_iff :
    wrapped? lineLength state first line = some ls ↔
      ∃ c, Reflowable lineLength state first line c ∧
        ls = (fillLines (lineLength - c.lead.length) (words c.text)).map
          fun line => c.lead ++ joinWords line := by
  constructor
  · intro h
    unfold wrapped? at h
    split at h
    · rename_i he
      obtain ⟨houtside, hshebang, hlong⟩ := eligible_iff.1 he
      unfold wrapComment at h
      split at h
      · simp at h
      · rename_i c hc
        split at h
        · simp at h
        · rename_i htext
          split at h
          · simp at h
          · rename_i hroom
            rw [Bool.not_eq_true, Bool.or_eq_false_iff, isDirective_eq_false_iff] at htext
            rw [c.length_lead, Nat.not_lt] at hroom
            refine ⟨c, ⟨hlong, houtside, hshebang, Parts.ofLine?_eq_some_iff.1 hc, ?_, htext.2,
              hroom⟩, ?_⟩
            · simpa using htext.1
            · rw [← Option.some.inj h, wrapWords, List.map_map]
              rfl
    · simp at h
  · rintro ⟨c, hc, rfl⟩
    have he := eligible_iff.2 ⟨hc.outside, hc.noShebang, hc.long⟩
    have htext : (c.text.isEmpty || c.isDirective) = false := by
      rw [Bool.or_eq_false_iff, isDirective_eq_false_iff]
      exact ⟨by simpa using hc.text_ne_nil, hc.noDirective⟩
    have hroom : ¬ lineLength < c.lead.length + minTextWidth := by
      have := hc.room
      rw [c.length_lead]
      omega
    rw [wrapped?, if_pos he, wrapComment, Parts.ofLine?_eq_some_iff.2 hc.comment]
    dsimp only
    rw [htext, if_neg (by simp), if_neg hroom, wrapWords, List.map_map]
    rfl

theorem Reflowable.lead_le (h : Reflowable lineLength state first line c) :
    c.lead.length ≤ lineLength := by
  have := h.room
  rw [c.length_lead]
  omega

theorem Reflowable.scanLine_eq (h : Reflowable lineLength state first line c) :
    state.scanLine line = state :=
  Scanner.scanLine_of_isComment h.outside h.comment

/-! ### Sources -/

variable {source rest : List Char}

theorem reflowPieces_of_kept (hpiece : FirstPiece source line terminator rest)
    (h : wrapped? lineLength state first line = none) :
    reflowPieces lineLength ending state first (pieces source)
      = line ++ terminator
        ++ reflowPieces lineLength ending (state.scanLine line) false (pieces rest) := by
  rw [hpiece.pieces_eq, reflowPieces, hpiece.trimBreaks_eq, h]

theorem reflowPieces_of_wrapped (hpiece : FirstPiece source line terminator rest)
    (h : wrapped? lineLength state first line = some ls) :
    reflowPieces lineLength ending state first (pieces source)
      = List.intercalate ending ls ++ terminator
        ++ reflowPieces lineLength ending state false (pieces rest) := by
  rw [hpiece.pieces_eq, reflowPieces, hpiece.trimBreaks_eq, h, List.drop_left]

/-- What holds of the empty source, and of a source if it holds of what follows its first piece once
the line has been scanned, holds of every source. -/
theorem source_induction {motive : List Char → Scanner → Bool → Prop}
    (nil : ∀ state first, motive [] state first)
    (cons : ∀ source line terminator rest state first, FirstPiece source line terminator rest →
      motive rest (state.scanLine line) false → motive source state first)
    (source : List Char) (state : Scanner) (first : Bool) : motive source state first := by
  by_cases hne : source = []
  · subst hne
    exact nil state first
  · obtain ⟨line, terminator, rest, hpiece⟩ := exists_firstPiece hne
    have hlt := hpiece.length_lt
    exact cons source line terminator rest state first hpiece
      (source_induction nil cons rest (state.scanLine line) false)
termination_by source.length

/-- The same, with the two things that can become of the first piece. -/
theorem reflow_induction (lineLength : Nat) {motive : List Char → Scanner → Bool → Prop}
    (nil : ∀ state first, motive [] state first)
    (kept : ∀ source line terminator rest state first, FirstPiece source line terminator rest →
      wrapped? lineLength state first line = none →
      motive rest (state.scanLine line) false → motive source state first)
    (wrapped : ∀ source line terminator rest state first ls, FirstPiece source line terminator rest →
      wrapped? lineLength state first line = some ls →
      motive rest state false → motive source state first)
    (source : List Char) (state : Scanner) (first : Bool) : motive source state first := by
  induction source, state, first using source_induction with
  | nil state first => exact nil state first
  | cons source line terminator rest state first hpiece ih =>
    cases hw : wrapped? lineLength state first line with
    | none => exact kept _ _ _ _ _ _ hpiece hw ih
    | some ls =>
      obtain ⟨c, hc, -⟩ := wrapped?_eq_some_iff.1 hw
      rw [hc.scanLine_eq] at ih
      exact wrapped _ _ _ _ _ _ _ hpiece hw ih

theorem reflowPieces_reflows (lineLength : Nat) (ending source : List Char) (state : Scanner)
    (first : Bool) : Reflows lineLength ending state first source
      (reflowPieces lineLength ending state first (pieces source)) := by
  induction source, state, first using reflow_induction lineLength with
  | nil state first => exact .nil state first
  | kept source line terminator rest state first hpiece hw ih =>
    rw [reflowPieces_of_kept hpiece hw]
    refine .cons hpiece (.kept fun c hc => ?_) ih
    simp [wrapped?_eq_some_iff.2 ⟨c, hc, rfl⟩] at hw
  | wrapped source line terminator rest state first ls hpiece hw ih =>
    rw [reflowPieces_of_wrapped hpiece hw]
    obtain ⟨c, hc, rfl⟩ := wrapped?_eq_some_iff.1 hw
    have hwrapping := wrapping_fillLines hc.text_ne_nil hc.comment hc.lead_le
    refine .cons hpiece (.wrapped hc hwrapping) ?_
    rwa [hc.scanLine_eq]

/-- **Reflow makes of every piece its block**: an over-long comment is wrapped, everything else is
kept, and the new breaks are those that most breaks of the source are. -/
theorem reflow_reflows (lineLength : Nat) (source : List Char) :
    Reflows lineLength (LineEnding.dominant source) {} true source (reflow lineLength source) :=
  reflowPieces_reflows lineLength (LineEnding.dominant source) source {} true

end CodeTidy.Comment
