import CodeTidy.Proofs.Text.Lines

/-!
# Cutting texts at line breaks

A text ends with a line break only with regard to what follows, since a carriage return and a line
feed after it are one break (`EndsWithBreak`).  After such a text a line begins (`LineStart`), and its
own first line does not depend on what follows (`firstLine_append`).  Where a source is cut, its first
piece is before the cut or contains it (`FirstPiece.cut`).
-/

namespace CodeTidy.Text

/-- A text ends with a line break, which what follows does not make longer. -/
def EndsWithBreak (a b : List Char) : Prop :=
  a.getLast? = some '\n' ∨ a.getLast? = some '\r' ∧ b.head? ≠ some '\n'

/-- A line begins between two texts: at the very beginning, or after a line break. -/
def LineStart (before after : List Char) : Prop :=
  before = [] ∨ EndsWithBreak before after

instance (a b : List Char) : Decidable (EndsWithBreak a b) :=
  inferInstanceAs (Decidable (_ ∨ _))

instance (before after : List Char) : Decidable (LineStart before after) :=
  inferInstanceAs (Decidable (_ ∨ _))

/-- The first line of a text, with the break that ends it. -/
def firstLine : List Char → List Char
  | [] => []
  | '\r' :: '\n' :: _ => ['\r', '\n']
  | c :: cs => if isBreak c then [c] else c :: firstLine cs

variable {c : Char} {a b s cs before after : List Char}

/-! ### Ends of texts -/

namespace EndsWithBreak

theorem exists_last (h : EndsWithBreak a b) : ∃ x, a.getLast? = some x ∧ isBreak x = true := by
  rcases h with h | ⟨h, -⟩
  · exact ⟨_, h, rfl⟩
  · exact ⟨_, h, rfl⟩

theorem of_append (h : EndsWithBreak (s ++ a) b) (hne : a ≠ []) : EndsWithBreak a b := by
  unfold EndsWithBreak at h ⊢
  rwa [List.getLast?_append_of_ne_nil _ hne] at h

theorem append (h : EndsWithBreak a b) (s : List Char) : EndsWithBreak (s ++ a) b := by
  have hne : a ≠ [] := by
    rintro rfl
    simp [EndsWithBreak] at h
  unfold EndsWithBreak at h ⊢
  rwa [List.getLast?_append_of_ne_nil _ hne]

theorem of_cons (h : EndsWithBreak (c :: cs) b) (hne : cs ≠ []) : EndsWithBreak cs b :=
  of_append (s := [c]) h hne

theorem drop (h : EndsWithBreak a b) {n : Nat} (hn : n < a.length) :
    EndsWithBreak (a.drop n) b := by
  rw [← List.take_append_drop n a] at h
  refine h.of_append fun hnil => ?_
  have hlength := congrArg List.length hnil
  rw [List.length_drop, List.length_nil] at hlength
  omega

/-- Behind a character that is no break, the break is still to come. -/
theorem ne_nil_of_cons (h : EndsWithBreak (c :: cs) b) (hc : isBreak c = false) : cs ≠ [] := by
  rintro rfl
  obtain ⟨x, hx, hbreak⟩ := h.exists_last
  obtain rfl : c = x := by simpa using hx
  rw [hc] at hbreak
  exact Bool.false_ne_true hbreak

end EndsWithBreak

/-! ### Beginnings of lines -/

namespace LineStart

theorem congr (h : LineStart before after) (hhead : b.head? = after.head?) : LineStart before b := by
  unfold LineStart EndsWithBreak at *
  rwa [hhead]

theorem of_append (h : LineStart (s ++ before) after) : LineStart before after := by
  by_cases hne : before = []
  · exact .inl hne
  · rcases h with h | h
    · exact absurd (List.append_eq_nil_iff.1 h).2 hne
    · exact .inr (h.of_append hne)

theorem append (h : LineStart before after) (hs : EndsWithBreak s after) :
    LineStart (s ++ before) after := by
  rcases h with rfl | h
  · rw [List.append_nil]
    exact .inr hs
  · exact .inr (h.append s)

end LineStart

/-! ### First lines -/

theorem firstLine_cons (hc : isBreak c = false) : firstLine (c :: s) = c :: firstLine s := by
  have hcr : c ≠ '\r' := by
    rintro rfl
    exact absurd hc (by decide)
  rw [firstLine, if_neg (by simp [hc])]
  exact fun _ e => absurd e hcr

theorem firstLine_break (hc : isBreak c = true) :
    firstLine (c :: s) = if c = '\r' ∧ s.head? = some '\n' then ['\r', '\n'] else [c] := by
  split
  · rename_i h
    obtain ⟨t, rfl⟩ := List.head?_eq_some_iff.1 h.2
    rw [h.1]
    rfl
  · rename_i h
    rw [firstLine, if_pos hc]
    rintro t rfl rfl
    exact h ⟨rfl, rfl⟩

theorem firstLine_ne_nil (hne : s ≠ []) : firstLine s ≠ [] := by
  unfold firstLine
  split
  · exact absurd rfl hne
  · simp
  · split <;> simp

/-- **The first line of a text with a break at its end does not depend on what follows.** -/
theorem firstLine_append (h : EndsWithBreak a b) : firstLine (a ++ b) = firstLine a := by
  induction a with
  | nil => simp [EndsWithBreak] at h
  | cons c a ih =>
    cases hc : isBreak c with
    | false => rw [List.cons_append, firstLine_cons hc, firstLine_cons hc,
        ih (h.of_cons (h.ne_nil_of_cons hc))]
    | true =>
      have hhead : c = '\r' ∧ (a ++ b).head? = some '\n' ↔ c = '\r' ∧ a.head? = some '\n' := by
        refine and_congr_right fun hcr => ?_
        cases a with
        | nil =>
          subst hcr
          have hnot : b.head? ≠ some '\n' := by simpa [EndsWithBreak] using h
          simpa using hnot
        | cons d a => simp
      simp only [List.cons_append, firstLine_break hc, hhead]

/-! ### Pieces -/

namespace FirstPiece

variable {source line terminator rest : List Char}

/-- A piece that something follows ends with a break. -/
theorem endsWithBreak (h : FirstPiece source line terminator rest) (hne : rest ≠ [])
    (s t : List Char) : EndsWithBreak (s ++ terminator) t := by
  rcases h.ends with ⟨crs, rfl, -⟩ | ⟨-, hrest⟩
  · exact .inl (by rw [← List.append_assoc, List.getLast?_append]; rfl)
  · exact absurd hrest hne

/-- Where a source is cut, its first piece is before the cut or contains it. -/
theorem cut (h : FirstPiece source line terminator rest) (hsource : source = before ++ after) :
    (∃ later, before = line ++ terminator ++ later ∧ rest = later ++ after) ∨
      ∃ tail, tail ≠ [] ∧ line ++ terminator = before ++ tail ∧ after = tail ++ rest := by
  rcases List.append_eq_append_iff.1 (h.eq.symm.trans hsource)
    with ⟨later, hbefore, hrest⟩ | ⟨tail, hcut, hafter⟩
  · exact .inl ⟨later, hbefore, hrest⟩
  · by_cases htail : tail = []
    · subst htail
      exact .inl ⟨[], by simpa using hcut.symm, by simpa using hafter.symm⟩
    · exact .inr ⟨tail, htail, hcut, hafter⟩

/-- A line feed stands at the end of a piece only. -/
theorem notMem_of_cut (h : FirstPiece source line terminator rest)
    (hcut : line ++ terminator = before ++ after) (hne : after ≠ []) : '\n' ∉ before := by
  intro hmem
  rcases h.ends with ⟨crs, rfl, hcrs⟩ | ⟨hnot, -⟩
  · obtain ⟨s, x, rfl⟩ := (List.eq_nil_or_concat after).resolve_left hne
    rw [List.concat_eq_append, ← List.append_assoc, ← List.append_assoc] at hcut
    have hall : '\n' ∈ line ++ crs := by
      rw [(List.append_inj' hcut rfl).1]
      exact List.mem_append_left _ hmem
    exact (List.mem_append.1 hall).elim h.notMem hcrs
  · have hall : '\n' ∈ line ++ terminator := by
      rw [hcut]
      exact List.mem_append_left _ hmem
    exact (List.mem_append.1 hall).elim h.notMem hnot

end FirstPiece

end CodeTidy.Text
