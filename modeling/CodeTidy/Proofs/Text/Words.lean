import CodeTidy.Text.Lines
import Mathlib.Data.List.DropRight

/-!
# Words, blanks and trimming

A blank ends a word, and everything about `words` follows from that (`words_append_blank`).  A text
is trimmed when no blank stands at its ends (`Trimmed`); trimming removes blanks around such a text
and nothing else (`trim_eq_iff`).
-/

namespace CodeTidy.Text

/-! ### Runs at the beginning and at the end -/

section runs

variable {α : Type} {p : α → Bool} {a b s : List α}

/-- A run is taken up to the first that is not of its kind. -/
theorem takeWhile_append_of_head (ha : ∀ x ∈ a, p x = true)
    (hb : ∀ x, b.head? = some x → p x = false) : (a ++ b).takeWhile p = a := by
  rw [List.takeWhile_append_of_pos ha]
  cases b with
  | nil => simp
  | cons x b =>
    have hx : p x = false := hb x rfl
    simp [hx]

theorem dropWhile_append_of_head (ha : ∀ x ∈ a, p x = true)
    (hb : ∀ x, b.head? = some x → p x = false) : (a ++ b).dropWhile p = b := by
  rw [List.dropWhile_append_of_pos ha]
  cases b with
  | nil => simp
  | cons x b =>
    have hx : p x = false := hb x rfl
    simp [hx]

theorem head?_dropWhile {x : α} (h : (s.dropWhile p).head? = some x) : p x = false := by
  induction s with
  | nil => simp at h
  | cons y s ih =>
    rw [List.dropWhile_cons] at h
    split at h
    · exact ih h
    · rename_i hy
      obtain rfl : y = x := by simpa using h
      simpa using hy

theorem dropEndWhile_append (hs : ∀ x, s.getLast? = some x → p x = false)
    (hb : ∀ x ∈ b, p x = true) : dropEndWhile p (s ++ b) = s := by
  rw [dropEndWhile, List.reverse_append, dropWhile_append_of_head, List.reverse_reverse]
  · intro x hx
    exact hb x (List.mem_reverse.1 hx)
  · intro x hx
    rw [List.head?_reverse] at hx
    exact hs x hx

theorem getLast?_dropEndWhile {x : α} (h : (dropEndWhile p s).getLast? = some x) : p x = false := by
  rw [dropEndWhile, List.getLast?_reverse] at h
  exact head?_dropWhile h

/-- More of what is dropped at the end makes no difference. -/
theorem dropEndWhile_append_run (s : List α) (hb : ∀ x ∈ b, p x = true) :
    dropEndWhile p (s ++ b) = dropEndWhile p s := by
  rw [dropEndWhile, dropEndWhile, List.reverse_append, List.dropWhile_append_of_pos]
  exact fun x hx => hb x (List.mem_reverse.1 hx)

theorem exists_dropEndWhile_append (p : α → Bool) (s : List α) :
    ∃ b, s = dropEndWhile p s ++ b ∧ ∀ x ∈ b, p x = true := by
  refine ⟨(s.reverse.takeWhile p).reverse, (dropEndWhile_append_takeWhile p s).symm, ?_⟩
  intro x hx
  exact List.mem_takeWhile_imp (List.mem_reverse.1 hx)

end runs

/-! ### Trimming -/

/-- No blank stands at either end. -/
structure Trimmed (s : List Char) : Prop where
  head : ∀ c, s.head? = some c → isBlank c = false
  last : ∀ c, s.getLast? = some c → isBlank c = false

/-- **Trimming removes the blanks at the ends and nothing else.** -/
theorem trim_eq_iff {s text : List Char} :
    trim s = text ↔ Trimmed text ∧ ∃ before after, s = before ++ text ++ after ∧
      (∀ c ∈ before, isBlank c = true) ∧ ∀ c ∈ after, isBlank c = true := by
  constructor
  · rintro rfl
    obtain ⟨after, hafter, hblank⟩ := exists_dropEndWhile_append isBlank (trimStart s)
    have hs : s = s.takeWhile isBlank ++ trim s ++ after := by
      rw [List.append_assoc, trim, trimEnd, ← hafter, trimStart, List.takeWhile_append_dropWhile]
    refine ⟨⟨?_, fun c => getLast?_dropEndWhile⟩, _, after, hs,
      fun c hc => List.mem_takeWhile_imp hc, hblank⟩
    intro c hc
    have hstart : (trimStart s).head? = some c := by
      rw [hafter, List.head?_append]
      exact Option.or_eq_some_iff.2 (.inl hc)
    exact head?_dropWhile hstart
  · rintro ⟨htext, before, after, rfl, hbefore, hafter⟩
    have hstart : trimStart (before ++ text ++ after) = text ++ after
        ∨ text = [] ∧ trimStart (before ++ text ++ after) = [] := by
      cases text with
      | nil =>
        refine .inr ⟨rfl, List.dropWhile_eq_nil_iff.2 ?_⟩
        simpa [or_imp, forall_and] using ⟨hbefore, hafter⟩
      | cons c cs =>
        left
        rw [List.append_assoc]
        exact dropWhile_append_of_head hbefore fun x hx => htext.head x (by simpa using hx)
    rw [trim]
    rcases hstart with hstart | ⟨rfl, hstart⟩
    · rw [hstart]
      exact dropEndWhile_append htext.last hafter
    · rw [hstart]
      rfl

theorem trimmed_of_trim_eq {s : List Char} (h : trim s = s) : Trimmed s :=
  (trim_eq_iff.1 h).1

theorem trim_eq_nil_iff {s : List Char} : trim s = [] ↔ ∀ c ∈ s, isBlank c = true := by
  constructor
  · intro h
    obtain ⟨-, before, after, rfl, hbefore, hafter⟩ := trim_eq_iff.1 h
    simpa [or_imp, forall_and] using ⟨hbefore, hafter⟩
  · intro h
    rw [trim, trimStart, List.dropWhile_eq_nil_iff.2 h]
    rfl

/-- Blanks at the end are trimmed, whatever stands before them. -/
theorem trim_append_blanks (s : List Char) {b : List Char} (hb : ∀ c ∈ b, isBlank c = true) :
    trim (s ++ b) = trim s := by
  rw [trim, trimStart, List.dropWhile_append]
  split
  · rename_i h
    rw [List.isEmpty_iff, List.dropWhile_eq_nil_iff] at h
    rw [List.dropWhile_eq_nil_iff.2 hb, trim_eq_nil_iff.2 h]
    rfl
  · exact dropEndWhile_append_run _ hb

theorem trim_trimEnd (s : List Char) : trim (trimEnd s) = trim s := by
  obtain ⟨b, hs, hb⟩ := exists_dropEndWhile_append isBlank s
  conv_rhs => rw [hs]
  exact (trim_append_blanks _ hb).symm

theorem isBlank_of_isBreak {c : Char} (h : isBreak c = true) : isBlank c = true := by
  rcases (by simpa [isBreak] using h : c = '\n' ∨ c = '\r') with rfl | rfl <;> decide

/-- Line breaks are trimmed up to a character that is none. -/
theorem trimBreaks_append {line terminator : List Char}
    (hline : ∀ c, line.getLast? = some c → isBreak c = false)
    (hterminator : ∀ c ∈ terminator, isBreak c = true) :
    trimBreaks (line ++ terminator) = line :=
  dropEndWhile_append hline hterminator

/-! ### Words -/

/-- A word has a character, and no blank. -/
structure IsWord (w : List Char) : Prop where
  ne_nil : w ≠ []
  notBlank : ∀ c ∈ w, isBlank c = false

variable {c : Char} {s w : List Char}

@[simp] theorem words_nil : words [] = [] := rfl

theorem words_cons_blank (hc : isBlank c = true) (s : List Char) : words (c :: s) = words s := by
  rw [words.eq_def]
  simp [hc]

theorem words_singleton (hc : isBlank c = false) : words [c] = [[c]] := by
  rw [words.eq_def]
  simp [hc]

/-- A blank ends the word of the one character before it. -/
theorem words_cons_cons_blank {d : Char} (hc : isBlank c = false) (hd : isBlank d = true)
    (s : List Char) : words (c :: d :: s) = [c] :: words (d :: s) := by
  rw [words.eq_def]
  simp [hc, hd]

theorem words_cons_cons {d : Char} {ws : List (List Char)} (hc : isBlank c = false)
    (hd : isBlank d = false) (h : words (d :: s) = w :: ws) :
    words (c :: d :: s) = (c :: w) :: ws := by
  rw [words.eq_def]
  simp [hc, hd, h]

/-- A character that is no blank begins a word, or stands before one. -/
theorem words_cons_of_not_blank (hc : isBlank c = false) (s : List Char) :
    (∀ d, s.head? = some d → isBlank d = true) ∧ words (c :: s) = [c] :: words s ∨
      ∃ w ws, words s = w :: ws ∧ words (c :: s) = (c :: w) :: ws := by
  induction s generalizing c with
  | nil => exact .inl ⟨by simp, words_singleton hc⟩
  | cons d s ih =>
    by_cases hd : isBlank d = true
    · exact .inl ⟨by simpa using hd, words_cons_cons_blank hc hd s⟩
    · have hd' : isBlank d = false := by simpa using hd
      have hds : ∃ w ws, words (d :: s) = w :: ws := by
        rcases ih hd' with ⟨-, h⟩ | ⟨w, ws, -, h⟩
        · exact ⟨_, _, h⟩
        · exact ⟨_, _, h⟩
      obtain ⟨w, ws, h⟩ := hds
      exact .inr ⟨w, ws, h, words_cons_cons hc hd' h⟩

theorem words_ne_nil (hc : isBlank c = false) (s : List Char) : words (c :: s) ≠ [] := by
  rcases words_cons_of_not_blank hc s with ⟨-, h⟩ | ⟨w, ws, -, h⟩ <;> simp [h]

/-- **A blank ends a word.** -/
theorem words_append_blank (hc : isBlank c = true) (a b : List Char) :
    words (a ++ c :: b) = words a ++ words b := by
  induction a with
  | nil => simpa using words_cons_blank hc b
  | cons x a ih =>
    rw [List.cons_append]
    by_cases hx : isBlank x = true
    · rw [words_cons_blank hx, words_cons_blank hx, ih]
    · have hx' : isBlank x = false := by simpa using hx
      cases a with
      | nil =>
        rw [List.nil_append, words_cons_cons_blank hx' hc, words_cons_blank hc, words_singleton hx']
        rfl
      | cons d a =>
        by_cases hd : isBlank d = true
        · rw [List.cons_append, words_cons_cons_blank hx' hd, words_cons_cons_blank hx' hd,
            ← List.cons_append, ih]
          rfl
        · have hd' : isBlank d = false := by simpa using hd
          obtain ⟨w, ws, hw⟩ := List.exists_cons_of_ne_nil (words_ne_nil hd' a)
          rw [hw, List.cons_append] at ih
          rw [words_cons_cons hx' hd' hw]
          exact words_cons_cons hx' hd' ih

theorem words_of_isWord (h : IsWord w) : words w = [w] := by
  obtain ⟨hne, hblank⟩ := h
  induction w with
  | nil => exact absurd rfl hne
  | cons c cs ih =>
    have hc : isBlank c = false := hblank c List.mem_cons_self
    cases cs with
    | nil => exact words_singleton hc
    | cons d ds =>
      have hd : isBlank d = false := hblank d (by simp)
      have hds := ih (by simp) fun x hx => hblank x (List.mem_cons_of_mem _ hx)
      exact words_cons_cons hc hd hds

theorem isWord_of_mem_words (h : w ∈ words s) : IsWord w := by
  induction s generalizing w with
  | nil => simp at h
  | cons c s ih =>
    by_cases hc : isBlank c = true
    · rw [words_cons_blank hc] at h
      exact ih h
    · have hc' : isBlank c = false := by simpa using hc
      rcases words_cons_of_not_blank hc' s with ⟨-, hs⟩ | ⟨v, vs, hv, hs⟩
      · rw [hs] at h
        rcases List.mem_cons.1 h with rfl | h
        · exact ⟨by simp, by simpa using hc'⟩
        · exact ih h
      · rw [hs] at h
        rcases List.mem_cons.1 h with rfl | h
        · have hw := ih (w := v) (by simp [hv])
          exact ⟨by simp, by simpa using ⟨hc', hw.notBlank⟩⟩
        · exact ih (by simp [hv, h])

end CodeTidy.Text
