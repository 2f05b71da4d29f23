import CodeTidy.Comment.Wrap
import CodeTidy.Proofs.Text.Words
import Mathlib.Algebra.GroupWithZero.Nat
import Mathlib.Data.List.Chain

/-!
# Greedy layouts

A layout cuts words, in order, into lines that fit the width unless they hold a single word
(`Layout`).  The lines that `fillLines` makes are a layout (`layout_fillLines`) in which no line
could also take the first word of the next (`tight_fillLines`).  Words that fit one line stay on
it (`fillLines_of_fits`), and the words of a joined line are read back (`words_joinWords`).
-/

namespace CodeTidy.Comment

open CodeTidy.Text

variable {width : Nat} {line ws : List Word} {w : Word} {c : Char}

/-! ### Joined words -/

theorem joinWords_cons_cons (w v : Word) (ws : List Word) :
    joinWords (w :: v :: ws) = w ++ ' ' :: joinWords (v :: ws) := by
  simp [joinWords, List.intercalate_cons_cons]

theorem joinWords_singleton (w : Word) : joinWords [w] = w := by
  simp [joinWords]

theorem length_joinWords :
    ∀ {ws : List Word}, ws ≠ [] → (joinWords ws).length + 1 = (ws.map fun w => w.length + 1).sum
  | [], h => absurd rfl h
  | [w], _ => by simp [joinWords_singleton]
  | w :: v :: ws, _ => by
    have ih := length_joinWords (List.cons_ne_nil v ws)
    rw [joinWords_cons_cons, List.map_cons, List.sum_cons, ← ih]
    simp only [List.length_append, List.length_cons]
    omega

theorem length_joinWords_concat (h : line ≠ []) (w : Word) :
    (joinWords (line ++ [w])).length = (joinWords line).length + 1 + w.length := by
  have hline := length_joinWords h
  have hall := length_joinWords (by simp : line ++ [w] ≠ [])
  rw [List.map_append, List.sum_append, ← hline] at hall
  simp only [List.map_cons, List.map_nil, List.sum_cons, List.sum_nil] at hall
  omega

theorem length_joinWords_le (h : line ≠ []) (ws : List Word) :
    (joinWords line).length ≤ (joinWords (line ++ ws)).length := by
  have hline := length_joinWords h
  have hall := length_joinWords (by simp [h] : line ++ ws ≠ [])
  rw [List.map_append, List.sum_append, ← hline] at hall
  omega

theorem head?_joinWords (hw : w ≠ []) (ws : List Word) :
    (joinWords (w :: ws)).head? = w.head? := by
  cases w with
  | nil => exact absurd rfl hw
  | cons c cs =>
    cases ws with
    | nil => rw [joinWords_singleton]
    | cons v ws => rw [joinWords_cons_cons, List.cons_append, List.head?_cons, List.head?_cons]

theorem getLast?_joinWords :
    ∀ {ws : List Word}, (∀ w ∈ ws, w ≠ []) →
      ∀ {c : Char}, (joinWords ws).getLast? = some c → ∃ w ∈ ws, w.getLast? = some c
  | [], _, c, hc => by simp [joinWords] at hc
  | [w], _, c, hc => ⟨w, List.mem_cons_self, by rwa [joinWords_singleton] at hc⟩
  | w :: v :: ws, h, c, hc => by
    have hrest : joinWords (v :: ws) ≠ [] := by
      intro hnil
      have hv : (joinWords (v :: ws)).head? = v.head? := head?_joinWords (h v (by simp)) ws
      rw [hnil] at hv
      exact h v (by simp) (List.head?_eq_none_iff.1 hv.symm)
    have hc' : (joinWords (v :: ws)).getLast? = some c := by
      rw [joinWords_cons_cons, List.append_cons, List.getLast?_append] at hc
      rwa [List.getLast?_eq_some_getLast hrest] at hc ⊢
    obtain ⟨u, hu, hlast⟩ :=
      getLast?_joinWords (fun u hu => h u (List.mem_cons_of_mem _ hu)) hc'
    exact ⟨u, List.mem_cons_of_mem _ hu, hlast⟩

theorem trimmed_joinWords (h : ∀ w ∈ ws, IsWord w) : Trimmed (joinWords ws) := by
  constructor
  · intro c hc
    cases ws with
    | nil => simp [joinWords] at hc
    | cons w ws =>
      have hw := h w List.mem_cons_self
      rw [head?_joinWords hw.ne_nil] at hc
      exact hw.notBlank c (List.mem_of_head? hc)
  · intro c hc
    obtain ⟨w, hw, hlast⟩ := getLast?_joinWords (fun w hw => (h w hw).ne_nil) hc
    exact (h w hw).notBlank c (List.mem_of_getLast? hlast)

theorem mem_joinWords (h : c ∈ joinWords ws) : c = ' ' ∨ ∃ w ∈ ws, c ∈ w := by
  induction ws with
  | nil => simp [joinWords] at h
  | cons w ws ih =>
    cases ws with
    | nil => exact .inr ⟨w, List.mem_cons_self, by rwa [joinWords_singleton] at h⟩
    | cons v ws =>
      rw [joinWords_cons_cons] at h
      rcases List.mem_append.1 h with h | h
      · exact .inr ⟨w, List.mem_cons_self, h⟩
      · rcases List.mem_cons.1 h with h | h
        · exact .inl h
        · rcases ih h with h | ⟨u, hu, h⟩
          · exact .inl h
          · exact .inr ⟨u, List.mem_cons_of_mem _ hu, h⟩

theorem noBreak_joinWords (h : ∀ w ∈ ws, IsWord w) : ∀ c ∈ joinWords ws, isBreak c = false := by
  intro c hc
  rcases mem_joinWords hc with rfl | ⟨w, hw, hmem⟩
  · decide
  · have hblank := (h w hw).notBlank c hmem
    cases hbreak : isBreak c with
    | false => rfl
    | true => rw [isBlank_of_isBreak hbreak] at hblank; exact hblank

/-- **The words of a joined line are those that were joined.** -/
theorem words_joinWords (h : ∀ w ∈ ws, IsWord w) : words (joinWords ws) = ws := by
  induction ws with
  | nil => simp [joinWords]
  | cons w ws ih =>
    have hw := words_of_isWord (h w List.mem_cons_self)
    have hws := ih fun v hv => h v (List.mem_cons_of_mem _ hv)
    cases ws with
    | nil => rw [joinWords_singleton, hw]
    | cons v ws => rw [joinWords_cons_cons, words_append_blank isBlank_space, hw, hws]; rfl

/-! ### Layouts -/

/-- The words fit the width, or are a single one. -/
def Fits (width : Nat) (line : List Word) : Prop :=
  (joinWords line).length ≤ width ∨ line.length = 1

/-- Lines that hold words in order, each of them at least one, and that fit. -/
structure Layout (width : Nat) (ws : List Word) (lines : List (List Word)) : Prop where
  flatten : lines.flatten = ws
  ne_nil : ∀ line ∈ lines, line ≠ []
  fits : ∀ line ∈ lines, Fits width line

/-- The first line is too long with the first word of the second. -/
def Crowds (width : Nat) (first second : List Word) : Prop :=
  ∀ w, second.head? = some w → width < (joinWords (first ++ [w])).length

/-- No line could also take the first word of the next. -/
def Tight (width : Nat) (lines : List (List Word)) : Prop :=
  lines.IsChain (Crowds width)

/-- What is filled begins with the line that is continued. -/
theorem exists_fillFrom_eq (width : Nat) (line : List Word) (used : Nat) (ws : List Word) :
    ∃ more rest, fillFrom width line used ws = (line ++ more) :: rest := by
  induction ws generalizing line used with
  | nil => exact ⟨[], [], by simp [fillFrom]⟩
  | cons w ws ih =>
    rw [fillFrom]
    split
    · obtain ⟨more, rest, h⟩ := ih (line ++ [w]) (used + 1 + w.length)
      exact ⟨w :: more, rest, by simpa using h⟩
    · exact ⟨[], fillFrom width [w] w.length ws, by simp⟩

theorem layout_fillFrom (hne : line ≠ []) (hfits : Fits width line) :
    Layout width (line ++ ws) (fillFrom width line (joinWords line).length ws) := by
  induction ws generalizing line with
  | nil =>
    exact ⟨flatten_fillFrom .., by simpa [fillFrom] using hne, by simpa [fillFrom] using hfits⟩
  | cons w ws ih =>
    rw [fillFrom]
    split
    · rename_i h
      rw [← length_joinWords_concat hne] at h ⊢
      rw [List.append_cons]
      exact ih (by simp) (.inl h)
    · obtain ⟨-, hwords, hlines⟩ := ih (by simp : [w] ≠ []) (.inr rfl)
      rw [joinWords_singleton] at hwords hlines
      exact ⟨by simp [flatten_fillFrom], by simpa using ⟨hne, hwords⟩,
        by simpa using ⟨hfits, hlines⟩⟩

theorem tight_fillFrom (hne : line ≠ []) :
    Tight width (fillFrom width line (joinWords line).length ws) := by
  induction ws generalizing line with
  | nil => exact List.isChain_singleton _
  | cons w ws ih =>
    rw [fillFrom]
    split
    · rw [← length_joinWords_concat hne]
      exact ih (by simp)
    · rename_i h
      have hrest := ih (by simp : [w] ≠ [])
      rw [joinWords_singleton] at hrest
      refine List.isChain_cons.2 ⟨?_, hrest⟩
      intro next hnext v hv
      obtain ⟨more, rest, hfill⟩ := exists_fillFrom_eq width [w] w.length ws
      rw [hfill] at hnext
      obtain rfl : [w] ++ more = next := by simpa using hnext
      obtain rfl : w = v := by simpa using hv
      rw [length_joinWords_concat hne]
      omega

theorem fillFrom_of_length_le (hne : line ≠ []) (h : (joinWords (line ++ ws)).length ≤ width) :
    fillFrom width line (joinWords line).length ws = [line ++ ws] := by
  induction ws generalizing line with
  | nil => simp [fillFrom]
  | cons w ws ih =>
    rw [List.append_cons] at h ⊢
    have hle := length_joinWords_le (by simp : line ++ [w] ≠ []) ws
    have hw := length_joinWords_concat hne w
    rw [fillFrom, if_pos (by omega), ← hw]
    exact ih (by simp) h

/-- **The lines that words fill are a layout of them.** -/
theorem layout_fillLines (width : Nat) (ws : List Word) : Layout width ws (fillLines width ws) := by
  cases ws with
  | nil => exact ⟨rfl, by simp [fillLines], by simp [fillLines]⟩
  | cons w ws =>
    have h : Layout width ([w] ++ ws) (fillFrom width [w] (joinWords [w]).length ws) :=
      layout_fillFrom (by simp) (.inr rfl)
    rwa [joinWords_singleton] at h

theorem isWord_of_mem_fillLines {width : Nat} {text : List Char}
    (hws : ws ∈ fillLines width (words text)) : ∀ w ∈ ws, IsWord w := by
  intro w hw
  refine isWord_of_mem_words (s := text) ?_
  rw [← (layout_fillLines width (words text)).flatten]
  exact List.mem_flatten.2 ⟨ws, hws, hw⟩

/-- **No line that words fill could also take the first word of the next.** -/
theorem tight_fillLines (width : Nat) (ws : List Word) : Tight width (fillLines width ws) := by
  cases ws with
  | nil => exact List.isChain_nil
  | cons w ws =>
    have h : Tight width (fillFrom width [w] (joinWords [w]).length ws) :=
      tight_fillFrom (by simp)
    rwa [joinWords_singleton] at h

theorem fillLines_of_fits (hne : ws ≠ []) (h : Fits width ws) : fillLines width ws = [ws] := by
  cases ws with
  | nil => exact absurd rfl hne
  | cons w ws =>
    rw [fillLines]
    rcases h with h | h
    · have hfill : fillFrom width [w] (joinWords [w]).length ws = [[w] ++ ws] :=
        fillFrom_of_length_le (by simp) h
      rwa [joinWords_singleton] at hfill
    · obtain rfl : ws = [] := by simpa using h
      rfl

end CodeTidy.Comment
