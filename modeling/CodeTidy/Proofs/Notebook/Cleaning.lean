import CodeTidy.Proofs.Json.Members
import CodeTidy.Proofs.Notebook.RoundTrip

/-!
# What cleaning removes

A cell is `Tidy` when there is nothing to remove from it, and `Cell.cleared` describes member by
member what is left of any cell.  Cleaning finds exactly the cells that are not tidy
(`isDirty_eq_false_iff`) and leaves exactly what the description says (`clean_eq_cleared`).
-/

namespace CodeTidy

/-- An object without some of its keys; other values stay as they are. -/
def Json.without (keys : List String) : Json → Json
  | .object ms => .object (ms.filter fun m => !keys.contains m.1)
  | value => value

namespace Cell

/-! ### The description -/

/-- There is nothing to remove: a cell with code has no outputs and no execution count, and no
metadata has one of the keys. -/
structure Tidy (keys : List String) (c : Cell) : Prop where
  outputs : c.kind = .code → ∀ items, c.data.get? "outputs" = some (.array items) → items = []
  executionCount : c.kind = .code → ∀ value, c.data.get? "execution_count" = some value →
    value = .null
  metadata : ∀ ms : Json.Members, c.data.get? "metadata" = some (.object ms) → ∀ key ∈ keys, key ∉ ms.keys

/-- What is left of the value of a member. -/
def clearedValue (keys : List String) (code : Bool) (name : String) (value : Json) : Json :=
  if name = "metadata" then value.without keys
  else if code ∧ name = "outputs" then .array []
  else if code ∧ name = "execution_count" then .null
  else value

/-- What is left of a cell: the same members, with what is left of their values. -/
def cleared (keys : List String) (c : Cell) : Cell :=
  { c with data := c.data.mapValues (clearedValue keys c.isCode) }

/-! ### Dirty cells -/

variable {c : Cell} {keys : List String}

theorem isCode_iff : c.isCode = true ↔ c.kind = .code := by
  simp [isCode]

theorem outputCount_eq_zero_iff :
    c.outputCount = 0 ↔ ∀ items, c.data.get? "outputs" = some (.array items) → items = [] := by
  unfold outputCount
  cases c.data.get? "outputs" with
  | none => simp
  | some value => cases value <;> simp [Json.items?]

theorem executionCount_eq_none_iff :
    c.executionCount = none ↔
      ∀ value, c.data.get? "execution_count" = some value → value = .null := by
  unfold Cell.executionCount
  cases c.data.get? "execution_count" with
  | none => simp
  | some value => cases value <;> simp [Json.isNull]

theorem hasOutput_eq_false_iff :
    c.hasOutput = false ↔ c.outputCount = 0 ∧ c.executionCount = none := by
  simp [hasOutput]

theorem any_metadata_eq_false_iff :
    ((c.metadata.getD []).any fun m => keys.contains m.1) = false ↔
      ∀ ms : Json.Members, c.data.get? "metadata" = some (.object ms) → ∀ key ∈ keys, key ∉ ms.keys := by
  cases h : c.metadata with
  | none =>
    have hnone : ∀ ms : Json.Members, c.data.get? "metadata" ≠ some (.object ms) := fun ms hm => by
      simp [metadata_eq_some_iff.2 hm] at h
    simp [hnone]
  | some ms =>
    rw [metadata_eq_some_iff.1 h]
    simp only [Option.getD_some, List.any_eq_false, List.contains_iff_mem, Option.some.injEq,
      Json.object.injEq, forall_eq']
    constructor
    · intro hno key hkey hmem
      obtain ⟨m, hm, rfl⟩ := List.mem_map.1 hmem
      exact hno m hm hkey
    · intro hno m hm hkey
      exact hno m.1 hkey (List.mem_map_of_mem hm)

/-- **The cells that cleaning leaves alone are the tidy ones.** -/
theorem isDirty_eq_false_iff : c.isDirty keys = false ↔ c.Tidy keys := by
  rw [isDirty, Bool.or_eq_false_iff, Bool.and_eq_false_imp, isCode_iff, hasOutput_eq_false_iff,
    outputCount_eq_zero_iff, executionCount_eq_none_iff, any_metadata_eq_false_iff]
  constructor
  · rintro ⟨hcode, hmeta⟩
    exact ⟨fun hk => (hcode hk).1, fun hk => (hcode hk).2, hmeta⟩
  · rintro ⟨ho, he, hmeta⟩
    exact ⟨fun hk => ⟨ho hk, he hk⟩, hmeta⟩

/-! ### What is left -/

theorem Sound.nodup_keys {P : Json.Number → Prop} {d : Nat} (h : c.Sound P d) :
    c.data.keys.Nodup :=
  h.wellFormed.nodup_keys

theorem data_dropOutputs (hn : c.data.keys.Nodup)
    (ho : c.kind = .code → ∃ items, c.data.get? "outputs" = some (.array items)) :
    c.dropOutputs.data
      = c.data.mapValues fun k v => if c.isCode ∧ k = "outputs" then .array [] else v := by
  unfold dropOutputs
  split
  · rename_i hc
    obtain ⟨items, hi⟩ := ho (isCode_iff.1 hc.1)
    simp only [hc.1, true_and]
    exact Json.Members.insert_eq_mapValues hn (by simp [hi]) _
  · rename_i hc
    refine (Json.Members.mapValues_ite_eq_self hn fun key hk value hv => ?_).symm
    obtain ⟨hcode, rfl⟩ := hk
    obtain ⟨items, hi⟩ := ho (isCode_iff.1 hcode)
    have hzero : c.outputCount = 0 := by simpa [hcode] using hc
    rw [outputCount_eq_zero_iff.1 hzero items hi] at hi
    exact Option.some.inj (hi.symm.trans hv)

theorem data_dropExecutionCount (hn : c.data.keys.Nodup) :
    c.dropExecutionCount.data
      = c.data.mapValues fun k v => if c.isCode ∧ k = "execution_count" then .null else v := by
  unfold dropExecutionCount
  split
  · rename_i hc
    have hk : c.data.get? "execution_count" ≠ none := fun hnone => by
      simp [Cell.executionCount, hnone] at hc
    simp only [hc.1, true_and]
    exact Json.Members.insert_eq_mapValues hn hk _
  · rename_i hc
    refine (Json.Members.mapValues_ite_eq_self hn fun key hk value hv => ?_).symm
    obtain ⟨hcode, rfl⟩ := hk
    have hnone : c.executionCount = none := by simpa [hcode] using hc
    exact (executionCount_eq_none_iff.1 hnone value hv).symm

theorem data_stripMetadata (hn : c.data.keys.Nodup)
    (hm : ∀ ms : Json.Members, c.data.get? "metadata" = some (.object ms) → ms.keys.Nodup)
    (keys : List String) :
    (c.stripMetadata keys).data
      = c.data.mapValues fun k v => if k = "metadata" then v.without keys else v := by
  unfold stripMetadata
  split
  · rename_i hnone
    refine (Json.Members.mapValues_ite_eq_self hn fun key hk value hv => ?_).symm
    subst hk
    cases value <;> first | rfl | simp [metadata_eq_some_iff.2 hv] at hnone
  · rename_i ms hms
    have hget := metadata_eq_some_iff.1 hms
    rw [Json.Members.eraseAll_eq_filter keys (hm ms hget)]
    refine (Json.Members.insert_eq_mapValues hn (by simp [hget]) _).trans
      (Json.Members.mapValues_congr hn fun key value hv => ?_)
    split
    · rename_i hk
      rw [hk, hget] at hv
      rw [← Option.some.inj hv]
      rfl
    · rfl

/-- The three steps of cleaning leave what is described, each at its own key. -/
theorem data_clean_steps {P : Json.Number → Prop} {d : Nat} (h : c.Sound P (d + 1))
    (keys : List String) :
    ((c.dropOutputs.dropExecutionCount).stripMetadata keys).data
      = c.data.mapValues (clearedValue keys c.isCode) := by
  have h₁ := h.dropOutputs
  have h₂ := h₁.dropExecutionCount
  have hcode : c.dropOutputs.isCode = c.isCode := by rw [isCode, kind_dropOutputs, isCode]
  rw [data_stripMetadata h₂.nodup_keys fun ms hms =>
      (Json.WellFormed.of_get? h₂.wellFormed hms).nodup_keys,
    data_dropExecutionCount h₁.nodup_keys, data_dropOutputs h.nodup_keys h.valid.outputs, hcode,
    Json.Members.mapValues_mapValues, Json.Members.mapValues_mapValues]
  refine congrArg (Json.Members.mapValues · c.data) (funext fun k => funext fun v => ?_)
  unfold clearedValue
  by_cases hm : k = "metadata"
  · simp [hm]
  · by_cases ho : k = "outputs"
    · simp [ho]
    · simp [hm, ho]

theorem Tidy.cleared_eq {P : Json.Number → Prop} {d : Nat} (ht : c.Tidy keys) (h : c.Sound P d) :
    c.cleared keys = c := by
  have hdata : c.data.mapValues (clearedValue keys c.isCode) = c.data := by
    refine Json.Members.mapValues_eq_self h.nodup_keys fun key value hv => ?_
    unfold clearedValue
    split
    · rename_i hk
      subst hk
      cases value with
      | object ms =>
        have hkeep : ms.filter (fun m => !keys.contains m.1) = ms := by
          refine List.filter_eq_self.2 fun m hm => ?_
          have hnot : m.1 ∉ keys := fun hkey => ht.metadata ms hv m.1 hkey (List.mem_map_of_mem hm)
          simpa using hnot
        rw [Json.without, hkeep]
      | _ => rfl
    · split
      · rename_i hk
        obtain ⟨hcode, rfl⟩ := hk
        obtain ⟨items, hi⟩ := h.valid.outputs (isCode_iff.1 hcode)
        rw [ht.outputs (isCode_iff.1 hcode) items hi] at hi
        exact Option.some.inj (hi.symm.trans hv)
      · split
        · rename_i hk
          obtain ⟨hcode, rfl⟩ := hk
          exact (ht.executionCount (isCode_iff.1 hcode) value hv).symm
        · rfl
  rw [cleared, hdata]

/-- **Cleaning leaves of a cell what is described.** -/
theorem clean_eq_cleared {P : Json.Number → Prop} {d : Nat} (h : c.Sound P (d + 1))
    (keys : List String) : c.clean keys = c.cleared keys := by
  unfold clean
  split
  · have hkind : ((c.dropOutputs.dropExecutionCount).stripMetadata keys).kind = c.kind := by
      rw [kind_stripMetadata, kind_dropExecutionCount, kind_dropOutputs]
    have hdata := data_clean_steps h keys
    cases hc : (c.dropOutputs.dropExecutionCount).stripMetadata keys with
    | mk kind data =>
      rw [hc] at hkind hdata
      rw [cleared, ← hdata, ← hkind]
  · rename_i hd
    exact ((isDirty_eq_false_iff.1 (by simpa using hd)).cleared_eq h).symm

end Cell

namespace Notebook

variable {n : Notebook} {keys : List String}

theorem isDirty_eq_false_iff : n.isDirty keys = false ↔ ∀ c ∈ n.cells, c.Tidy keys := by
  simp only [isDirty, List.any_eq_false, Bool.not_eq_true, Cell.isDirty_eq_false_iff]

theorem clean_eq_cleared {P : Json.Number → Prop} (h : n.Sound P) (keys : List String) :
    n.clean keys = { n with cells := n.cells.map (Cell.cleared keys) } := by
  have hcells : n.cells.map (·.clean keys) = n.cells.map (Cell.cleared keys) :=
    List.map_congr_left fun c hc => Cell.clean_eq_cleared (h.cells c hc) keys
  rw [clean, hcells]

end Notebook

end CodeTidy
