import CodeTidy.Json.Value
import CodeTidy.Lookup

/-!
# Members that change where they stand

`Members.mapValues` replaces the values of an object and leaves its keys and their order alone.
Setting a key that is there is such a change (`insert_eq_mapValues`), and removing keys keeps all
other members as they are (`eraseAll_eq_filter`).
-/

namespace CodeTidy.Json.Members

/-- The members with other values, each at its place and under its key. -/
def mapValues (f : String → Json → Json) (ms : Members) : Members :=
  ms.map fun m => (m.1, f m.1 m.2)

variable {ms : Members} {f g : String → Json → Json} {key : String} {value : Json}

theorem mapValues_mapValues (f g : String → Json → Json) (ms : Members) :
    (ms.mapValues f).mapValues g = ms.mapValues fun k v => g k (f k v) := by
  simp [mapValues, Function.comp_def]

theorem mem_keys_of_mem (h : (key, value) ∈ ms) : key ∈ ms.keys :=
  List.mem_map_of_mem h

/-- Where keys differ, a member is the one that its key leads to. -/
theorem get?_of_mem (hn : ms.keys.Nodup) (h : (key, value) ∈ ms) : ms.get? key = some value :=
  lookup_of_mem_of_nodup hn h

theorem mapValues_congr (hn : ms.keys.Nodup)
    (h : ∀ key value, ms.get? key = some value → f key value = g key value) :
    ms.mapValues f = ms.mapValues g :=
  List.map_congr_left fun m hm => by rw [h m.1 m.2 (get?_of_mem hn hm)]

theorem mapValues_eq_self (hn : ms.keys.Nodup)
    (h : ∀ key value, ms.get? key = some value → f key value = value) : ms.mapValues f = ms := by
  rw [mapValues_congr (g := fun _ v => v) hn h]
  simp [mapValues]

theorem mapValues_ite_eq_self {p : String → Prop} [DecidablePred p] {change : Json → Json}
    (hn : ms.keys.Nodup)
    (h : ∀ key, p key → ∀ value, ms.get? key = some value → change value = value) :
    (ms.mapValues fun k v => if p k then change v else v) = ms := by
  refine mapValues_eq_self hn fun key value hv => ?_
  split
  · rename_i hp
    exact h key hp value hv
  · rfl

/-- A key that is set keeps its place, and all other members stay. -/
theorem insert_eq_mapValues (hn : ms.keys.Nodup) (hk : ms.get? key ≠ none) (value : Json) :
    insert key value ms = ms.mapValues fun k v => if k = key then value else v := by
  induction ms with
  | nil => simp [get?] at hk
  | cons m ms ih =>
    obtain ⟨k, v⟩ := m
    obtain ⟨hm, hms⟩ := List.nodup_cons.1 hn
    rw [insert, mapValues, List.map_cons]
    by_cases e : k = key
    · subst e
      have hrest : mapValues (fun k' v => if k' = k then value else v) ms = ms := by
        refine mapValues_eq_self hms fun key' v' hv => if_neg ?_
        rintro rfl
        exact hm (mem_keys_of_mem (mem_of_get? hv))
      simp only [if_true]
      exact congrArg _ hrest.symm
    · simp only [if_neg e]
      refine congrArg _ (ih hms fun hnone => hk ?_)
      rw [get?, List.lookup_cons, beq_false_of_ne (Ne.symm e)]
      exact hnone

theorem insert_get?_self (hn : ms.keys.Nodup) (h : ms.get? key = some value) :
    insert key value ms = ms := by
  rw [insert_eq_mapValues hn (by simp [h])]
  refine mapValues_ite_eq_self hn fun key' e v hv => ?_
  rw [e, h] at hv
  exact Option.some.inj hv

/-! ### Lists of members -/

theorem get?_foldl_insert (key : String) : ∀ (l : List (String × Json)) (acc : Members),
    get? (l.foldl (fun acc m => insert m.1 m.2 acc) acc) key
      = (l.reverse.lookup key).or (acc.get? key)
  | [], acc => rfl
  | (k, v) :: l, acc => by
    rw [List.foldl_cons, get?_foldl_insert key l, List.reverse_cons, List.lookup_append,
      Option.or_assoc]
    congr 1
    by_cases hk : key = k
    · rw [hk, get?_insert_self]
      simp
    · rw [get?_insert_of_ne hk, List.lookup_cons, beq_false_of_ne hk]
      rfl

/-- Of several members with one key the last one counts. -/
theorem get?_ofList (l : List (String × Json)) (key : String) :
    (ofList l).get? key = l.reverse.lookup key := by
  rw [ofList, get?_foldl_insert]
  exact Option.or_none

/-! ### Removal -/

theorem erase_eq_filter (key : String) :
    ∀ {ms : Members}, ms.keys.Nodup → erase key ms = ms.filter fun m => m.1 != key
  | [], _ => rfl
  | (k, v) :: ms, hn => by
    obtain ⟨hk, hms⟩ := List.nodup_cons.1 hn
    rw [erase]
    split
    · rename_i e
      subst e
      rw [List.filter_cons_of_neg (by simp)]
      refine (List.filter_eq_self.2 fun m hm => bne_iff_ne.2 fun e => hk ?_).symm
      exact e ▸ mem_keys_of_mem hm
    · rename_i e
      rw [List.filter_cons_of_pos (by simpa using e), erase_eq_filter key hms]

/-- Removing keys one after the other keeps exactly the members with other keys. -/
theorem eraseAll_eq_filter :
    ∀ (keys : List String) {ms : Members}, ms.keys.Nodup →
      ms.eraseAll keys = ms.filter fun m => !keys.contains m.1
  | [], ms, _ => (List.filter_eq_self.2 (by simp)).symm
  | key :: keys, ms, hn => by
    have hn' : (Members.keys (erase key ms)).Nodup := hn.sublist ((erase_sublist key ms).map _)
    have hstep : ms.eraseAll (key :: keys) = eraseAll (erase key ms) keys := rfl
    rw [hstep, eraseAll_eq_filter keys hn', erase_eq_filter key hn, List.filter_filter]
    refine List.filter_congr fun m _ => ?_
    rw [List.contains_cons, Bool.not_or, Bool.and_comm]
    rfl

theorem get?_filter (keep : String → Bool) {key : String} (hkey : keep key = true) :
    ∀ ms : Members, get? (ms.filter fun m => keep m.1) key = ms.get? key
  | [] => rfl
  | (k, v) :: ms => by
    rw [List.filter_cons]
    cases hk : keep k with
    | true =>
      rw [if_pos rfl, get?, get?, List.lookup_cons, List.lookup_cons]
      split
      · rfl
      · exact get?_filter keep hkey ms
    | false =>
      have hne : key ≠ k := by
        rintro rfl
        exact Bool.noConfusion (hk.symm.trans hkey)
      rw [if_neg (by decide), get?_filter keep hkey ms, get?, get?, List.lookup_cons,
        beq_false_of_ne hne]

end CodeTidy.Json.Members
