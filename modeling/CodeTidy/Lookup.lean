/-!
# Keys

What a list of keys and values has at a key: the trees of files and the members of objects are such
lists.  Of the keys of a list each is taken where it first occurs.
-/

namespace CodeTidy

/-! ### Looking up -/

/-- Values that are replaced where they stand are found replaced. -/
theorem lookup_map_snd {α β γ : Type} [BEq α] [LawfulBEq α] (f : α → β → γ) (a : α) :
    ∀ entries : List (α × β),
      (entries.map fun e => (e.1, f e.1 e.2)).lookup a = (entries.lookup a).map (f a)
  | [] => rfl
  | (b, e) :: entries => by
    rw [List.map_cons, List.lookup_cons, List.lookup_cons]
    cases h : a == b with
    | true => simp [eq_of_beq h]
    | false => exact lookup_map_snd f a entries

/-- Where no key stands twice, each leads to what stands beside it. -/
theorem lookup_of_mem_of_nodup {α β : Type} [BEq α] [LawfulBEq α] {a : α} {b : β} :
    ∀ {entries : List (α × β)}, (entries.map Prod.fst).Nodup → (a, b) ∈ entries →
      entries.lookup a = some b
  | [], _, h => by simp at h
  | (a', b') :: entries, hn, h => by
    obtain ⟨hnot, hn⟩ := List.nodup_cons.1 hn
    rw [List.lookup_cons]
    rcases List.mem_cons.1 h with he | hm
    · obtain ⟨rfl, rfl⟩ := Prod.mk.inj he
      simp
    · have hne : (a == a') = false := by
        refine beq_false_of_ne ?_
        rintro rfl
        exact hnot (List.mem_map.2 ⟨(a, b), hm, rfl⟩)
      rw [hne]
      exact lookup_of_mem_of_nodup hn hm

theorem lookup_eq_none_of_notMem {α β : Type} [BEq α] [LawfulBEq α] {a : α} :
    ∀ {entries : List (α × β)}, a ∉ entries.map Prod.fst → entries.lookup a = none
  | [], _ => rfl
  | (b, e) :: entries, h => by
    have hne : (a == b) = false := beq_false_of_ne fun hab => h (hab ▸ List.mem_cons_self)
    rw [List.lookup_cons, hne]
    exact lookup_eq_none_of_notMem fun hm => h (List.mem_cons_of_mem _ hm)

theorem notMem_of_lookup_eq_none {α β : Type} [BEq α] [LawfulBEq α] {a : α} :
    ∀ {entries : List (α × β)}, entries.lookup a = none → a ∉ entries.map Prod.fst
  | [], _ => List.not_mem_nil
  | (b, e) :: entries, h => by
    rw [List.lookup_cons] at h
    cases hab : a == b with
    | true => simp [hab] at h
    | false =>
      rw [hab] at h
      rw [List.map_cons, List.mem_cons, not_or]
      exact ⟨ne_of_beq_false hab, notMem_of_lookup_eq_none h⟩

/-- Leaving out other keys does not change what a key has. -/
theorem lookup_filter_fst {α β : Type} [BEq α] [LawfulBEq α] (p : α → Bool) {a : α}
    (hp : p a = true) :
    ∀ entries : List (α × β), (entries.filter fun e => p e.1).lookup a = entries.lookup a
  | [] => rfl
  | (b, e) :: entries => by
    have ih := lookup_filter_fst p hp entries
    rw [List.filter_cons, List.lookup_cons]
    cases hab : a == b with
    | true =>
      rw [if_pos (by simpa [← eq_of_beq hab] using hp), List.lookup_cons, hab]
    | false =>
      split
      · rw [List.lookup_cons, hab]
        exact ih
      · exact ih

/-- Where no key stands twice, the last entry of a key is the first one. -/
theorem lookup_reverse_of_nodup {α β : Type} [BEq α] [LawfulBEq α] {a : α} :
    ∀ {entries : List (α × β)}, (entries.map Prod.fst).Nodup →
      entries.reverse.lookup a = entries.lookup a
  | [], _ => rfl
  | (b, e) :: entries, hn => by
    obtain ⟨hnot, hn⟩ := List.nodup_cons.1 hn
    rw [List.reverse_cons, List.lookup_append, lookup_reverse_of_nodup hn, List.lookup_cons,
      List.lookup_cons]
    cases hab : a == b with
    | true => simp [eq_of_beq hab, lookup_eq_none_of_notMem hnot]
    | false => simp

/-! ### First occurrences -/

section firsts

variable {α : Type} [BEq α] [LawfulBEq α]

theorem filter_eraseDups (p : α → Bool) :
    ∀ l : List α, l.eraseDups.filter p = (l.filter p).eraseDups
  | [] => rfl
  | a :: l => by
    have ih := filter_eraseDups p (l.filter fun b => !b == a)
    rw [List.eraseDups_cons, List.filter_cons, ih, List.filter_filter, List.filter_cons]
    split
    · rw [List.eraseDups_cons, List.filter_filter]
      simp only [Bool.and_comm]
    · rename_i hp
      congr 1
      refine List.filter_congr fun b _ => ?_
      cases hb : p b with
      | false => rfl
      | true =>
        have hne : b ≠ a := fun e => hp (e ▸ hb)
        simpa using hne
  termination_by l => l.length
  decreasing_by exact Nat.lt_succ_of_le (List.length_filter_le _ _)

theorem nodup_eraseDups : ∀ l : List α, l.eraseDups.Nodup
  | [] => .nil
  | a :: l => by
    rw [List.eraseDups_cons]
    refine List.nodup_cons.2 ⟨?_, nodup_eraseDups _⟩
    simp [List.mem_eraseDups]
  termination_by l => l.length
  decreasing_by exact Nat.lt_succ_of_le (List.length_filter_le _ _)

end firsts

end CodeTidy
