import CodeTidy.Notebook
import CodeTidy.Proofs.Json.RoundTrip

/-!
# Cells that are edited

A cell is `Valid` when reading its object gives the cell, which is so of every cell that is read
(`ofJson?_eq_ok_iff`).  New sources and cleaning keep a cell valid and its object well formed
(`Sound.setSource`, `Sound.clean`), and a cleaned cell is not dirty (`isDirty_clean`).
-/

namespace CodeTidy

open CodeTidy.Text

namespace Json

theorem string?_eq_some {j : Json} {s : String} (h : j.string? = some s) : j = .string s := by
  cases j <;> simp_all [string?]

theorem items?_eq_some {j : Json} {items : List Json} (h : j.items? = some items) :
    j = .array items := by
  cases j <;> simp_all [items?]

theorem members?_eq_some {j : Json} {ms : Members} (h : j.members? = some ms) :
    j = .object ms := by
  cases j <;> simp_all [members?]

end Json

namespace Cell

/-! ### Valid cells -/

/-- The members that `ofJson?` asks for are there. -/
structure Valid (c : Cell) : Prop where
  type : ∃ name, c.data.get? "cell_type" = some (.string name) ∧ CellKind.ofName name = c.kind
  source : ∃ value, c.data.get? "source" = some value ∧ isSource value = true
  outputs : c.kind = .code → ∃ items, c.data.get? "outputs" = some (.array items)

theorem Valid.ofJson? {c : Cell} (h : c.Valid) : Cell.ofJson? c.toJson = .ok c := by
  obtain ⟨name, hn, hk⟩ := h.type
  obtain ⟨value, hs, hv⟩ := h.source
  have ho : ¬ (c.kind = .code ∧ ((c.data.get? "outputs").bind Json.items?).isNone = true) := by
    rintro ⟨hc, hi⟩
    obtain ⟨items, hi'⟩ := h.outputs hc
    simp [hi', Json.items?] at hi
  unfold Cell.ofJson?
  simp only [toJson, Json.members?, hn, hs, Json.string?, Option.bind_eq_bind, Option.bind_some, hv,
    hk, Bool.not_true, Bool.false_eq_true, if_false]
  rw [if_neg ho]

theorem ofJson?_eq_ok_iff {value : Json} {c : Cell} :
    Cell.ofJson? value = .ok c ↔ value = c.toJson ∧ c.Valid := by
  constructor
  · intro h
    unfold Cell.ofJson? at h
    split at h
    · simp at h
    · rename_i data hd
      split at h
      · simp at h
      · rename_i name hn
        split at h
        · simp at h
        · rename_i source hs
          split at h
          · simp at h
          · rename_i hv
            split at h
            · simp at h
            · rename_i ho
              obtain rfl := Except.ok.inj h
              obtain ⟨j, hj, hn⟩ := Option.bind_eq_some_iff.1 hn
              refine ⟨Json.members?_eq_some hd, ⟨name, Json.string?_eq_some hn ▸ hj, rfl⟩,
                ⟨source, hs, by simpa using hv⟩, fun hc => ?_⟩
              cases hi : data.get? "outputs" >>= Json.items? with
              | none => exact absurd ⟨hc, by rw [hi]; rfl⟩ ho
              | some items =>
                obtain ⟨j, hj, hi⟩ := Option.bind_eq_some_iff.1 hi
                exact ⟨items, Json.items?_eq_some hi ▸ hj⟩
  · rintro ⟨rfl, h⟩
    exact h.ofJson?

/-- A member that is set keeps a cell valid when it may stand there. -/
theorem Valid.insert {c : Cell} (h : c.Valid) {key : String} {value : Json}
    (hk : key ≠ "cell_type") (hs : key = "source" → isSource value = true)
    (ho : key = "outputs" → ∃ items, value = .array items) :
    Valid { c with data := c.data.insert key value } := by
  obtain ⟨name, hn, hkind⟩ := h.type
  refine ⟨⟨name, ?_, hkind⟩, ?_, fun hc => ?_⟩
  · exact (Json.Members.get?_insert_of_ne hk.symm _ _).trans hn
  · by_cases e : key = "source"
    · exact ⟨value, e ▸ Json.Members.get?_insert_self _ _ _, hs e⟩
    · obtain ⟨v, hv, hi⟩ := h.source
      exact ⟨v, (Json.Members.get?_insert_of_ne (Ne.symm e) _ _).trans hv, hi⟩
  · by_cases e : key = "outputs"
    · obtain ⟨items, rfl⟩ := ho e
      exact ⟨items, e ▸ Json.Members.get?_insert_self _ _ _⟩
    · obtain ⟨items, hi⟩ := h.outputs hc
      exact ⟨items, (Json.Members.get?_insert_of_ne (Ne.symm e) _ _).trans hi⟩

/-! ### Sound cells -/

/-- The cell is valid, and its object is well formed with room for `d` more levels. -/
structure Sound (P : Json.Number → Prop) (d : Nat) (c : Cell) : Prop where
  valid : c.Valid
  wellFormed : Json.WellFormed P (d + 1) c.toJson

variable {P : Json.Number → Prop} {d : Nat} {c : Cell}

theorem Sound.insert (h : c.Sound P d) {key : String} {value : Json} (hk : key ≠ "cell_type")
    (hs : key = "source" → isSource value = true)
    (ho : key = "outputs" → ∃ items, value = .array items) (hv : Json.WellFormed P d value) :
    Sound P d { c with data := c.data.insert key value } :=
  ⟨h.valid.insert hk hs ho, Json.WellFormed.insert h.wellFormed key hv⟩

/-- How a source is stored again. -/
def storedSource (c : Cell) (text : String) : Json :=
  match c.data.get? "source" with
  | some (.string _) => .string text
  | _ => .array ((pieces text.toList).map fun p => .string (String.ofList p))

theorem storedSource_eq (c : Cell) (text : String) :
    c.storedSource text = .string text ∨
      c.storedSource text
        = .array ((pieces text.toList).map fun p => .string (String.ofList p)) := by
  unfold storedSource
  split
  · exact .inl rfl
  · exact .inr rfl

theorem setSource_eq (c : Cell) (text : String) :
    c.setSource text = { c with data := c.data.insert "source" (c.storedSource text) } := rfl

theorem Sound.setSource (h : c.Sound P (d + 1)) (text : String) :
    (c.setSource text).Sound P (d + 1) := by
  rw [setSource_eq]
  refine h.insert (by decide) (fun _ => ?_) (fun e => absurd e (by decide)) ?_
  · rcases c.storedSource_eq text with e | e
    · rw [e]
      rfl
    · rw [e]
      simp [isSource, Json.string?]
  · rcases c.storedSource_eq text with e | e
    · rw [e]
      exact .string _
    · rw [e]
      refine .array fun j hj => ?_
      obtain ⟨p, -, rfl⟩ := List.mem_map.1 hj
      exact .string _

theorem source_setSource (c : Cell) (text : String) : (c.setSource text).source = text := by
  have hg : (c.setSource text).data.get? "source" = some (c.storedSource text) :=
    Json.Members.get?_insert_self _ _ _
  unfold source
  rw [hg]
  rcases c.storedSource_eq text with e | e
  · rw [e]
  · rw [e]
    have : (pieces text.toList).map String.ofList
        = ((pieces text.toList).map fun p => Json.string (String.ofList p)).filterMap
          Json.string? := by
      rw [List.filterMap_map, ← List.filterMap_eq_map]
      rfl
    show String.join (List.filterMap Json.string? _) = text
    rw [← this]
    refine String.toList_inj.1 ?_
    rw [String.toList_join, List.flatMap_map]
    simp [flatten_pieces]

/-! ### Cleaning -/

theorem metadata_eq_some_iff {ms : Json.Members} :
    c.metadata = some ms ↔ c.data.get? "metadata" = some (.object ms) := by
  unfold metadata
  cases h : c.data.get? "metadata" with
  | none => simp
  | some j => cases j <;> simp [Json.members?]

theorem Sound.dropOutputs (h : c.Sound P (d + 1)) : c.dropOutputs.Sound P (d + 1) := by
  unfold Cell.dropOutputs
  split
  · exact h.insert (by decide) (fun e => absurd e (by decide)) (fun _ => ⟨[], rfl⟩)
      (.array (by simp))
  · exact h

theorem Sound.dropExecutionCount (h : c.Sound P d) : c.dropExecutionCount.Sound P d := by
  unfold Cell.dropExecutionCount
  split
  · exact h.insert (by decide) (fun e => absurd e (by decide)) (fun e => absurd e (by decide)) .null
  · exact h

theorem Sound.stripMetadata (h : c.Sound P d) (keys : List String) :
    (c.stripMetadata keys).Sound P d := by
  unfold Cell.stripMetadata
  split
  · exact h
  · rename_i ms hm
    refine h.insert (by decide) (fun e => absurd e (by decide)) (fun e => absurd e (by decide)) ?_
    exact Json.WellFormed.eraseAll
      (Json.WellFormed.of_get? h.wellFormed (metadata_eq_some_iff.1 hm)) keys

theorem Sound.clean (h : c.Sound P (d + 1)) (keys : List String) :
    (c.clean keys).Sound P (d + 1) := by
  unfold Cell.clean
  split
  · exact h.dropOutputs.dropExecutionCount.stripMetadata keys
  · exact h

/-! Each step of cleaning sets one member and leaves the kind and the other members alone. -/

theorem kind_dropOutputs (c : Cell) : c.dropOutputs.kind = c.kind := by
  unfold dropOutputs
  split <;> rfl

theorem kind_dropExecutionCount (c : Cell) : c.dropExecutionCount.kind = c.kind := by
  unfold dropExecutionCount
  split <;> rfl

theorem kind_stripMetadata (keys : List String) (c : Cell) :
    (c.stripMetadata keys).kind = c.kind := by
  unfold stripMetadata
  split <;> rfl

theorem get?_dropExecutionCount {key : String} (hk : key ≠ "execution_count") (c : Cell) :
    c.dropExecutionCount.data.get? key = c.data.get? key := by
  unfold dropExecutionCount
  split
  · exact Json.Members.get?_insert_of_ne hk _ _
  · rfl

theorem get?_stripMetadata {key : String} (hk : key ≠ "metadata") (keys : List String) (c : Cell) :
    (c.stripMetadata keys).data.get? key = c.data.get? key := by
  unfold stripMetadata
  split
  · rfl
  · exact Json.Members.get?_insert_of_ne hk _ _

theorem outputCount_dropOutputs (hc : c.isCode = true) : c.dropOutputs.outputCount = 0 := by
  unfold dropOutputs
  split
  · rw [outputCount, Json.Members.get?_insert_self]
    rfl
  · rename_i h
    simpa [hc] using h

theorem executionCount_dropExecutionCount (hc : c.isCode = true) :
    c.dropExecutionCount.executionCount = none := by
  unfold dropExecutionCount
  split
  · rw [executionCount, Json.Members.get?_insert_self]
    rfl
  · rename_i h
    simpa [hc] using h

theorem outputCount_congr {c c' : Cell} (h : c.data.get? "outputs" = c'.data.get? "outputs") :
    c.outputCount = c'.outputCount := by
  rw [outputCount, outputCount, h]

theorem executionCount_congr {c c' : Cell}
    (h : c.data.get? "execution_count" = c'.data.get? "execution_count") :
    c.executionCount = c'.executionCount := by
  rw [executionCount, executionCount, h]

theorem any_metadata_stripMetadata (h : c.Sound P d) (keys : List String) :
    (((c.stripMetadata keys).metadata.getD []).any fun m => keys.contains m.1) = false := by
  unfold stripMetadata
  split
  · rename_i hm
    rw [hm]
    rfl
  · rename_i ms hm
    have hn : (Json.Members.keys ms).Nodup :=
      (Json.WellFormed.of_get? h.wellFormed (metadata_eq_some_iff.1 hm)).nodup_keys
    have hg : (Cell.metadata { c with data := c.data.insert "metadata" (.object (ms.eraseAll keys)) })
        = some (ms.eraseAll keys) :=
      metadata_eq_some_iff.2 (Json.Members.get?_insert_self _ _ _)
    rw [hg]
    refine List.any_eq_false.2 fun m hm hk => ?_
    exact Json.Members.notMem_keys_eraseAll hn (List.contains_iff_mem.1 hk)
      (List.mem_map_of_mem hm)

theorem isDirty_clean (h : c.Sound P (d + 1)) (keys : List String) :
    (c.clean keys).isDirty keys = false := by
  unfold clean
  split
  · have hs := any_metadata_stripMetadata h.dropOutputs.dropExecutionCount keys
    have hkind : ((c.dropOutputs.dropExecutionCount).stripMetadata keys).isCode = c.isCode := by
      rw [isCode, kind_stripMetadata, kind_dropExecutionCount, kind_dropOutputs, isCode]
    rw [isDirty, hs, hkind, Bool.or_false]
    cases hc : c.isCode with
    | false => rfl
    | true =>
      have hd : c.dropOutputs.isCode = true := by rw [isCode, kind_dropOutputs]; exact hc
      have ho : ((c.dropOutputs.dropExecutionCount).stripMetadata keys).outputCount = 0 := by
        rw [← outputCount_dropOutputs hc]
        exact outputCount_congr ((get?_stripMetadata (by decide) _ _).trans
          (get?_dropExecutionCount (by decide) _))
      have he : ((c.dropOutputs.dropExecutionCount).stripMetadata keys).executionCount = none := by
        rw [← executionCount_dropExecutionCount hd]
        exact executionCount_congr (get?_stripMetadata (by decide) _ _)
      rw [hasOutput, ho, he]
      rfl
  · rename_i h
    simpa using h

/-! ### Cells up to their floats -/

/-- The cell with the floats of its members replaced by zero. -/
def mask (c : Cell) : Cell :=
  { c with data := c.data.map Json.maskMember }

theorem maskFloats_toJson (c : Cell) : c.toJson.maskFloats = c.mask.toJson :=
  Json.maskFloats_object c.data

theorem get?_mask (key : String) (c : Cell) :
    c.mask.data.get? key = (c.data.get? key).map Json.maskFloats :=
  Json.get?_map_maskMember key c.data

theorem source_mask (c : Cell) : c.mask.source = c.source := by
  unfold source
  rw [get?_mask]
  match c.data.get? "source" with
  | none => rfl
  | some (.string t) => rw [Option.map_some, Json.maskFloats] <;> simp
  | some (.array lines) =>
    rw [Option.map_some, Json.maskFloats]
    have hf : Json.string? ∘ Json.maskFloats = Json.string? := funext Json.string?_maskFloats
    dsimp only
    rw [List.filterMap_map, hf]
  | some .null => rw [Option.map_some, Json.maskFloats] <;> simp
  | some (.bool b) => rw [Option.map_some, Json.maskFloats] <;> simp
  | some (.number (.int v)) => rw [Option.map_some, Json.maskFloats] <;> simp
  | some (.number (.float b x)) => rw [Option.map_some, Json.maskFloats]
  | some (.object ms) => rw [Option.map_some, Json.maskFloats_object]

theorem outputCount_mask (c : Cell) : c.mask.outputCount = c.outputCount := by
  unfold outputCount
  rw [get?_mask]
  cases c.data.get? "outputs" with
  | none => rfl
  | some j =>
    simp only [Option.map_some, Option.bind_eq_bind, Option.bind_some, Json.items?_maskFloats]
    cases j.items? <;> simp

theorem isSome_executionCount_mask (c : Cell) :
    c.mask.executionCount.isSome = c.executionCount.isSome := by
  unfold executionCount
  rw [get?_mask]
  cases c.data.get? "execution_count" with
  | none => rfl
  | some j =>
    simp only [Option.map_some, Option.filter_some, Json.isNull_maskFloats]
    split <;> rfl

theorem metadata_mask (c : Cell) : c.mask.metadata = c.metadata.map (List.map Json.maskMember) := by
  unfold metadata
  rw [get?_mask]
  cases c.data.get? "metadata" with
  | none => rfl
  | some j =>
    simp only [Option.map_some, Option.bind_eq_bind, Option.bind_some, Json.members?_maskFloats]

theorem isDirty_mask (keys : List String) (c : Cell) : c.mask.isDirty keys = c.isDirty keys := by
  have hm : ((c.mask.metadata.getD []).any fun m => keys.contains m.1)
      = ((c.metadata.getD []).any fun m => keys.contains m.1) := by
    rw [metadata_mask]
    cases c.metadata with
    | none => rfl
    | some ms =>
      show (ms.map Json.maskMember).any _ = ms.any _
      rw [List.any_map]
      rfl
  rw [isDirty, isDirty, hm, hasOutput, hasOutput, outputCount_mask, isSome_executionCount_mask]
  rfl

theorem Valid.mask_eq {c c' : Cell} (h : c.Valid) (h' : c'.Valid)
    (e : c.toJson.maskFloats = c'.toJson.maskFloats) : c.mask = c'.mask := by
  rw [maskFloats_toJson, maskFloats_toJson] at e
  have hdata : c.mask.data = c'.mask.data := by simpa [toJson] using e
  obtain ⟨name, hn, hk⟩ := h.type
  obtain ⟨name', hn', hk'⟩ := h'.type
  have hg := get?_mask "cell_type" c
  rw [hdata, get?_mask, hn, hn'] at hg
  have hname : name' = name := by simpa [Json.maskFloats] using hg
  have hkind : c.kind = c'.kind := by rw [← hk, ← hk', hname]
  unfold mask at hdata ⊢
  rw [hkind]
  exact congrArg _ hdata

theorem map_mask_eq :
    ∀ {cs cs' : List Cell}, (∀ c ∈ cs, c.Valid) → (∀ c ∈ cs', c.Valid) →
      cs.map (fun c => c.toJson.maskFloats) = cs'.map (fun c => c.toJson.maskFloats) →
      cs.map mask = cs'.map mask
  | [], [], _, _, _ => rfl
  | [], _ :: _, _, _, e => by simp at e
  | _ :: _, [], _, _, e => by simp at e
  | c :: cs, c' :: cs', h, h', e => by
    obtain ⟨hc, hcs⟩ := List.forall_mem_cons.1 h
    obtain ⟨hc', hcs'⟩ := List.forall_mem_cons.1 h'
    obtain ⟨e, es⟩ := List.cons.inj e
    rw [List.map_cons, List.map_cons, hc.mask_eq hc' e, map_mask_eq hcs hcs' es]

end Cell

end CodeTidy
