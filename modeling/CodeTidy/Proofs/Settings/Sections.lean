import CodeTidy.Settings.Document

/-!
# One field of a section

A section is read entry by entry, and each entry touches one field only.  So what a section gives
depends on one of its values only through that field (`exists_setEntries_field`), and two values
that are read alike make sections that are read alike (`agree_record`).
-/

namespace CodeTidy.Settings

/-! ### Readings that agree -/

/-- Two readings agree: both are refused for the same reason, or what they give is related. -/
inductive Agree {α β : Type} (R : α → β → Prop) : Decoded α → Decoded β → Prop where
  | error (e : DocumentError) : Agree R (.error e) (.error e)
  | ok {a : α} {b : β} (h : R a b) : Agree R (.ok a) (.ok b)

section agree

variable {α β γ : Type} {R : α → β → Prop} (x : Decoded γ)

theorem Agree.bind {f : γ → Decoded α} {g : γ → Decoded β} (h : ∀ c, Agree R (f c) (g c)) :
    Agree R (x >>= f) (x >>= g) := by
  cases x with
  | error e => exact .error e
  | ok c => exact h c

theorem Agree.map {f : γ → α} {g : γ → β} (h : ∀ c, R (f c) (g c)) :
    Agree R (x.map f) (x.map g) := by
  cases x with
  | error e => exact .error e
  | ok c => exact .ok (h c)

end agree

/-! ### One value of a section -/

section fields

variable {σ τ α : Type} {fields : List (Field σ)} {names : List String} {decode : Toml → Decoded α}
  {store : α → σ → σ} {g : σ → σ}

/-- It makes no difference whether the section is changed before a field is set or after. -/
def Field.Commutes (f : Field σ) (g : σ → σ) : Prop :=
  ∀ value state, f.set value (g state) = (f.set value state).map g

theorem commutes_field (h : ∀ a state, store a (g state) = g (store a state)) :
    (field names decode store).Commutes g := by
  intro value state
  dsimp only [field]
  cases decode value with
  | error e => rfl
  | ok a => exact congrArg Except.ok (h a state)

/-- A change that commutes with the fields that are still to be set can be made at the end. -/
theorem setEntries_comm : ∀ {seen : List String} (state : σ) (entries : Toml.Entries),
    (∀ f ∈ fields, f.names.headD "" ∉ seen → f.Commutes g) →
    setEntries fields seen (g state) entries = (setEntries fields seen state entries).map g
  | _, _, [], _ => rfl
  | seen, state, (key, value) :: rest, h => by
    rw [setEntries, setEntries]
    cases hf : fields.find? (·.names.contains key) with
    | none => exact setEntries_comm state rest h
    | some f =>
      dsimp only
      by_cases hseen : seen.contains (f.names.headD "") = true
      · rw [if_pos hseen, if_pos hseen]
        rfl
      · rw [if_neg hseen, if_neg hseen,
          h f (List.mem_of_find?_eq_some hf) (by simpa using hseen) value state]
        cases f.set value state with
        | error e => rfl
        | ok state =>
          exact setEntries_comm state rest fun f' hf' hnot =>
            h f' hf' fun hm => hnot (List.mem_cons_of_mem _ hm)

/-- **A value is read on its own.**  What stands around an entry decides whether its value is looked
at, and what the section is apart from the field that the value is stored in. -/
theorem exists_setEntries_field {key : String}
    (hfield : fields.find? (·.names.contains key) = some (field names decode store))
    (hothers : ∀ f ∈ fields, f.names.headD "" ≠ names.headD "" → ∀ a, f.Commutes (store a))
    (after : Toml.Entries) : ∀ (seen : List String) (state : σ) (before : Toml.Entries),
      ∃ (reached : Decoded Unit) (others : Decoded σ), ∀ value,
        setEntries fields seen state (before ++ (key, value) :: after)
          = reached >>= fun _ => decode value >>= fun a => others.map (store a)
  | seen, state, [] => by
    by_cases hseen : seen.contains (names.headD "") = true
    -- a field that is set already is refused before its value is looked at
    · refine ⟨.error .malformed, .error .malformed, fun value => ?_⟩
      rw [List.nil_append, setEntries, hfield]
      dsimp only [field]
      rw [if_pos hseen]
      rfl
    · refine ⟨.ok (), setEntries fields (names.headD "" :: seen) state after, fun value => ?_⟩
      rw [List.nil_append, setEntries, hfield]
      dsimp only [field]
      rw [if_neg hseen]
      cases decode value with
      | error e => rfl
      | ok a =>
        -- from here on the field is seen, so what comes after can only set other fields
        refine setEntries_comm state after fun f hf hnot => ?_
        exact hothers f hf (fun e => hnot (e ▸ List.mem_cons_self)) a
  | seen, state, (key', value') :: before => by
    simp only [List.cons_append, setEntries]
    cases fields.find? (·.names.contains key') with
    | none => exact exists_setEntries_field hfield hothers after seen state before
    | some f =>
      dsimp only
      split
      · exact ⟨.error .malformed, .error .malformed, fun _ => rfl⟩
      · cases f.set value' state with
        | error e => exact ⟨.error e, .error e, fun _ => rfl⟩
        | ok state =>
          exact exists_setEntries_field hfield hothers after (f.names.headD "" :: seen) state before

/-- **Sections that differ in one value are read alike** when the two values are. -/
theorem agree_record {key : String} {finish : σ → Decoded τ} {R : τ → τ → Prop}
    {value value' : Toml}
    (hfield : fields.find? (·.names.contains key) = some (field names decode store))
    (hothers : ∀ f ∈ fields, f.names.headD "" ≠ names.headD "" → ∀ a, f.Commutes (store a))
    (initial : σ) (before after : Toml.Entries)
    (h : Agree (fun a a' => ∀ state, Agree R (finish (store a state)) (finish (store a' state)))
      (decode value) (decode value')) :
    Agree R (record fields initial (.table (before ++ (key, value) :: after)) >>= finish)
      (record fields initial (.table (before ++ (key, value') :: after)) >>= finish) := by
  obtain ⟨reached, others, hentries⟩ :=
    exists_setEntries_field hfield hothers after [] initial before
  show Agree R (setEntries fields [] initial _ >>= finish)
    (setEntries fields [] initial _ >>= finish)
  simp only [hentries, bind_assoc]
  refine .bind reached fun _ => ?_
  revert h
  generalize decode value = x, decode value' = x'
  rintro (e | h)
  · exact .error e
  · cases others with
    | error e => exact .error e
    | ok state => exact h state

end fields

end CodeTidy.Settings
