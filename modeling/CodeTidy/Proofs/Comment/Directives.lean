import CodeTidy.Proofs.Comment.Idempotence

/-!
# Directives

A directive line is a comment outside of strings that addresses a tool (`directiveLines`).  Reflow
loses none and keeps their order, and it makes a new one exactly when a line that it wraps a comment
into begins like a directive (`directiveLines_reflow`), which can happen (`directive_made`).
-/

namespace CodeTidy.Comment

open CodeTidy.Text

/-! ### Directive lines -/

/-- Whether a line is a comment that addresses a tool. -/
def isDirectiveLine (line : List Char) : Bool :=
  (Parts.ofLine? line).any Parts.isDirective

/-- The lines of a source without the breaks after them. -/
def rows (source : List Char) : List (List Char) :=
  (pieces source).map trimBreaks

/-- The directive lines among lines, from one of them on. -/
def directiveLinesFrom : Scanner → List (List Char) → List (List Char)
  | _, [] => []
  | state, line :: rest =>
    if !state.inString && isDirectiveLine line then
      line :: directiveLinesFrom (state.scanLine line) rest
    else directiveLinesFrom (state.scanLine line) rest

/-- The directive lines of a source: those outside of triple-quoted strings. -/
def directiveLines (source : List Char) : List (List Char) :=
  directiveLinesFrom {} (rows source)

/-- One of the lines, from one of them on, is wrapped into the lines `made`. -/
inductive WrapsFrom (lineLength : Nat) :
    Scanner → Bool → List (List Char) → List (List Char) → Prop
  | here {state : Scanner} {first : Bool} {line : List Char} {made : List (List Char)}
    (h : wrapped? lineLength state first line = some made) (rest : List (List Char)) :
    WrapsFrom lineLength state first (line :: rest) made
  | there {state : Scanner} {line : List Char} {rest made : List (List Char)} (first : Bool)
    (h : WrapsFrom lineLength (state.scanLine line) false rest made) :
    WrapsFrom lineLength state first (line :: rest) made

/-- Some comment of the source is wrapped into the lines `made`. -/
def Wraps (lineLength : Nat) (source : List Char) (made : List (List Char)) : Prop :=
  WrapsFrom lineLength {} true (rows source) made

variable {lineLength : Nat} {ending : List Char} {state : Scanner} {first : Bool}
  {source line terminator rest output : List Char} {c : Parts}
  {ls made more : List (List Char)}

theorem isDirectiveLine_iff :
    isDirectiveLine line = true ↔ ∃ c, IsComment line c ∧ ∃ lead ∈ directives, lead <+: c.text := by
  simp [isDirectiveLine, Option.any_eq_true, Parts.ofLine?_eq_some_iff, Parts.isDirective]

theorem Reflowable.isDirectiveLine_eq_false (h : Reflowable lineLength state first line c) :
    isDirectiveLine line = false := by
  rw [← Bool.not_eq_true, isDirectiveLine_iff]
  rintro ⟨other, hother, lead, hlead, hbegins⟩
  obtain rfl := h.comment.unique hother
  exact h.noDirective lead hlead hbegins

theorem isDirectiveLine_of_wrapped (h : wrapped? lineLength state first line = some made) :
    isDirectiveLine line = false := by
  obtain ⟨c, hc, -⟩ := wrapped?_eq_some_iff.1 h
  exact hc.isDirectiveLine_eq_false

theorem inString_of_wrapped (h : wrapped? lineLength state first line = some made) :
    state.inString = false ∧ state.scanLine line = state := by
  obtain ⟨c, hc, -⟩ := wrapped?_eq_some_iff.1 h
  exact ⟨hc.outside, hc.scanLine_eq⟩

/-! ### Lines of a source that is put together -/

theorem rows_of_firstPiece (hpiece : FirstPiece source line terminator rest) :
    rows source = line :: rows rest := by
  rw [rows, hpiece.pieces_eq, List.map_cons, hpiece.trimBreaks_eq, rows]

theorem rows_intercalate {old : List Char} (he : IsEnding ending)
    (hpiece : FirstPiece source old terminator rest) (houtput : rest = [] → output = [])
    (hne : ls ≠ []) (hls : ∀ line ∈ ls, Stays lineLength state line) :
    rows (List.intercalate ending ls ++ terminator ++ output) = ls ++ rows output := by
  refine block_induction he hpiece houtput (motive := fun ls text => rows text = ls ++ rows output)
    ?_ ?_ hne hls
  · intro line hline hlast
    exact rows_of_firstPiece hlast
  · intro line next ls text hline hmore ih
    rw [rows_of_firstPiece hmore, ih]
    rfl

/-- Lines that are scanned in vain are searched for directives one by one. -/
theorem directiveLinesFrom_append (hstate : state.inString = false)
    (hls : ∀ line ∈ ls, state.scanLine line = state) :
    directiveLinesFrom state (ls ++ more)
      = ls.filter isDirectiveLine ++ directiveLinesFrom state more := by
  induction ls with
  | nil => rfl
  | cons line ls ih =>
    have hrest := ih fun l hl => hls l (List.mem_cons_of_mem _ hl)
    rw [List.cons_append, directiveLinesFrom, hls line List.mem_cons_self, hrest, hstate]
    cases hline : isDirectiveLine line <;> simp [hline]

/-! ### Lines that are made -/

/-- No line that a comment is wrapped into is a directive line. -/
def NoneMade (lineLength : Nat) (state : Scanner) (first : Bool) (lines : List (List Char)) :
    Prop :=
  ∀ made, WrapsFrom lineLength state first lines made → ∀ l ∈ made, isDirectiveLine l = false

theorem noneMade_nil : NoneMade lineLength state first [] := by
  intro made h
  cases h

theorem noneMade_cons_of_kept (hw : wrapped? lineLength state first line = none) :
    NoneMade lineLength state first (line :: more)
      ↔ NoneMade lineLength (state.scanLine line) false more := by
  constructor
  · intro h made hm
    exact h made (.there first hm)
  · intro h made hm
    cases hm with
    | here hm => simp [hw] at hm
    | there _ hm => exact h made hm

theorem noneMade_cons_of_wrapped (hw : wrapped? lineLength state first line = some ls) :
    NoneMade lineLength state first (line :: more)
      ↔ ls.filter isDirectiveLine = [] ∧ NoneMade lineLength state false more := by
  obtain ⟨-, hscan⟩ := inString_of_wrapped hw
  rw [List.filter_eq_nil_iff]
  constructor
  · intro h
    refine ⟨fun l hl => by simpa using h ls (.here hw _) l hl, fun made hm => ?_⟩
    exact h made (.there first (by rwa [hscan]))
  · rintro ⟨hnow, hlater⟩ made hm
    cases hm with
    | here hm =>
      obtain rfl := Option.some.inj (hw.symm.trans hm)
      exact fun l hl => by simpa using hnow l hl
    | there _ hm => exact hlater made (by rwa [hscan] at hm)

/-- Lines are among others in their order, and are all of them exactly if `all` holds. -/
def Among (before after : List (List Char)) (all : Prop) : Prop :=
  before.Sublist after ∧ (after = before ↔ all)

theorem Among.cons {before after : List (List Char)} {all : Prop} (h : Among before after all)
    (line : List Char) : Among (line :: before) (line :: after) all := by
  obtain ⟨hsub, hiff⟩ := h
  exact ⟨hsub.cons_cons line, by rw [List.cons.injEq, ← hiff]; simp⟩

theorem Among.append {before after : List (List Char)} {all : Prop} (h : Among before after all)
    (made : List (List Char)) : Among before (made ++ after) (made = [] ∧ all) := by
  obtain ⟨hsub, hiff⟩ := h
  refine ⟨hsub.trans (List.sublist_append_right _ _), ?_⟩
  rw [← hiff]
  constructor
  · intro heq
    -- what comes after is no shorter than what came before, so nothing can stand in front of it
    have hlength := congrArg List.length heq
    have hle := hsub.length_le
    rw [List.length_append] at hlength
    have hnil : made = [] := List.length_eq_zero_iff.1 (by omega)
    rw [hnil, List.nil_append] at heq
    exact ⟨hnil, heq⟩
  · rintro ⟨rfl, heq⟩
    rw [List.nil_append, heq]

/-! ### Reflow and directives -/

theorem directiveLinesFrom_reflowPieces (he : IsEnding ending) (source : List Char)
    (state : Scanner) (first : Bool) :
    Among (directiveLinesFrom state (rows source))
      (directiveLinesFrom state
        (rows (reflowPieces lineLength ending state first (pieces source))))
      (NoneMade lineLength state first (rows source)) := by
  induction source, state, first using reflow_induction lineLength with
  | nil state first => exact ⟨.refl _, iff_of_true rfl noneMade_nil⟩
  | kept source line terminator rest state first hpiece hw ih =>
    rw [rows_of_firstPiece hpiece, reflowPieces_of_kept hpiece hw,
      rows_of_firstPiece (hpiece.replace reflowPieces_rest), directiveLinesFrom, directiveLinesFrom,
      noneMade_cons_of_kept hw]
    split
    · exact ih.cons line
    · exact ih
  | wrapped source line terminator rest state first ls hpiece hw ih =>
    obtain ⟨hstate, hscan⟩ := inString_of_wrapped hw
    obtain ⟨hls, hstays⟩ := stays_of_wrapped hpiece hw
    have hnot : (!state.inString && isDirectiveLine line) = false := by
      rw [isDirectiveLine_of_wrapped hw, Bool.and_false]
    rw [rows_of_firstPiece hpiece, reflowPieces_of_wrapped hpiece hw,
      rows_intercalate he hpiece reflowPieces_rest hls hstays,
      directiveLinesFrom_append hstate fun l hl => (hstays l hl).scanLine_eq, directiveLinesFrom,
      hnot, if_neg Bool.false_ne_true, hscan, noneMade_cons_of_wrapped hw]
    exact ih.append _

/-- **Reflow loses no directive.**  The directive lines of a source are, in order, among those of the
source reflowed, and they are all of them exactly when no comment is wrapped into a line that is a
directive line. -/
theorem directiveLines_reflow (lineLength : Nat) (source : List Char) :
    (directiveLines source).Sublist (directiveLines (reflow lineLength source)) ∧
      (directiveLines (reflow lineLength source) = directiveLines source ↔
        ∀ made, Wraps lineLength source made → ∀ line ∈ made, isDirectiveLine line = false) :=
  directiveLinesFrom_reflowPieces (isEnding_dominant source) source {} true

/-- A comment that mentions how to switch a formatter off is wrapped before those words, and is then
a directive. -/
theorem directive_made :
    let source := "# generated tables start with fmt: off\n".toList
    reflow 30 source = "# generated tables start with\n# fmt: off\n".toList ∧
      directiveLines source = [] ∧
      directiveLines (reflow 30 source) = ["# fmt: off".toList] := by
  decide +kernel

end CodeTidy.Comment
