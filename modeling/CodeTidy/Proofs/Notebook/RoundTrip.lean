import CodeTidy.Proofs.Json.Members
import CodeTidy.Proofs.Notebook.Cells
import Mathlib.Control.Monad.Basic
import Mathlib.Tactic.ByContra

/-!
# Notebooks survive being stored

A notebook that is read is `Sound`, and edits keep it sound (`Sound.editAll`).  The text of a
sound notebook without floats is read as the same document with the same cells
(`parse_render`), so any sequence of edits can be stored and read back
(`render_editAll_survives`).  With floats, the cells that are read back differ in floats only
(`mask_cells_of_parse_render`).
-/

namespace CodeTidy

namespace Notebook

/-! ### Sound notebooks -/

/-- The document nests at most 127 containers, numbers satisfy `P`, and every cell is valid. -/
structure Sound (P : Json.Number → Prop) (n : Notebook) : Prop where
  root : Json.WellFormed P (Json.maxDepth - 1) (.object n.root)
  cells : ∀ c ∈ n.cells, c.Sound P (Json.maxDepth - 4)

/-- No number in the notebook is a float. -/
structure Integral (n : Notebook) : Prop where
  root : (Json.object n.root).Integral
  cells : ∀ c ∈ n.cells, c.toJson.Integral

variable {P Q : Json.Number → Prop} {n m : Notebook}

theorem Sound.wellFormed (h : n.Sound P) : Json.WellFormed P (Json.maxDepth - 1) n.toJson := by
  refine Json.WellFormed.insert h.root "cells" (.array fun j hj => ?_)
  obtain ⟨c, hc, rfl⟩ := List.mem_map.1 hj
  exact (h.cells c hc).wellFormed.mono (by decide)

theorem Sound.and_isInt (h : n.Sound P) (hi : n.Integral) :
    n.Sound fun k => P k ∧ k.IsInt :=
  ⟨hi.root.wellFormed h.root, fun c hc =>
    ⟨(h.cells c hc).valid, (hi.cells c hc).wellFormed (h.cells c hc).wellFormed⟩⟩

theorem Sound.integral (h : n.Sound P) (hP : ∀ k, P k → k.IsInt) : n.Integral :=
  ⟨h.root.integral hP, fun c hc => (h.cells c hc).wellFormed.integral hP⟩

theorem cellsOf_map_toJson :
    ∀ {cells : List Cell} (index : Nat), (∀ c ∈ cells, c.Valid) →
      cellsOf index (cells.map Cell.toJson) = .ok cells
  | [], _, _ => rfl
  | c :: cells, index, h => by
    obtain ⟨hc, hcs⟩ := List.forall_mem_cons.1 h
    rw [List.map_cons, cellsOf, hc.ofJson?]
    dsimp only
    rw [cellsOf_map_toJson (index + 1) hcs]
    rfl

theorem eq_map_of_cellsOf {values : List Json} {cells : List Cell} {index : Nat}
    (h : cellsOf index values = .ok cells) :
    values = cells.map Cell.toJson ∧ ∀ c ∈ cells, c.Valid := by
  induction values generalizing cells index with
  | nil =>
    obtain rfl := Except.ok.inj h
    simp
  | cons value values ih =>
    rw [cellsOf] at h
    split at h
    · simp at h
    · rename_i cell hv
      obtain ⟨hvalue, hcell⟩ := Cell.ofJson?_eq_ok_iff.1 hv
      obtain ⟨cells', h', rfl⟩ := map_eq_ok.1 h
      obtain ⟨hvalues, hcells⟩ := ih h'
      exact ⟨by rw [hvalue, hvalues, List.map_cons], List.forall_mem_cons.2 ⟨hcell, hcells⟩⟩

theorem ofJson_eq_ok {document : Json} (h : ofJson document = .ok n) :
    ∃ root : Json.Members, document = .object root ∧
      root.get? "cells" = some (.array (n.cells.map Cell.toJson)) ∧
      n.root = root.insert "cells" .null ∧ ∀ c ∈ n.cells, c.Valid := by
  unfold ofJson at h
  split at h
  · simp at h
  · rename_i root hr
    split at h
    · simp at h
    · rename_i values hvalues
      obtain ⟨cells, hc, rfl⟩ := map_eq_ok.1 h
      obtain ⟨rfl, hvalid⟩ := eq_map_of_cellsOf hc
      obtain ⟨j, hj, hi⟩ := Option.bind_eq_some_iff.1 hvalues
      exact ⟨root, Json.members?_eq_some hr, Json.items?_eq_some hi ▸ hj, rfl, hvalid⟩

theorem sound_of_parse {text : List Char} (h : parse text = .ok n) :
    n.Sound Json.Number.Fits := by
  unfold parse at h
  split at h
  · obtain rfl := Except.ok.inj h
    exact ⟨.object (by simp [empty, Json.Members.keys]) (by simp [empty]), by simp [empty]⟩
  · split at h
    · simp at h
    · rename_i document hd
      have hw := Json.wellFormed_of_parse hd
      obtain ⟨root, rfl, hcells, hroot, hvalid⟩ := ofJson_eq_ok h
      refine ⟨?_, fun c hc => ⟨hvalid c hc, ?_⟩⟩
      · rw [hroot]
        exact Json.WellFormed.insert hw "cells" .null
      · have ha := Json.WellFormed.of_get? hw hcells
        exact Json.WellFormed.of_mem_items ha (List.mem_map_of_mem hc)

/-! ### Reading a stored notebook -/

/-- The notebook with a place for its cells among the members of its document. -/
def marked (n : Notebook) : Notebook :=
  { n with root := n.root.insert "cells" .null }

theorem toJson_marked (n : Notebook) : n.marked.toJson = n.toJson := by
  rw [toJson, marked, Json.Members.insert_insert]
  rfl

theorem render_marked (n : Notebook) : n.marked.render = n.render := by
  rw [render, toJson_marked, render]

theorem ofJson_toJson (h : n.Sound P) : ofJson n.toJson = .ok n.marked := by
  have hc : cellsOf 0 (n.cells.map Cell.toJson) = .ok n.cells :=
    cellsOf_map_toJson 0 fun c hc => (h.cells c hc).valid
  unfold ofJson toJson
  simp only [Json.members?, Json.Members.get?_insert_self, Option.bind_eq_bind, Option.bind_some,
    Json.items?, hc]
  rw [Json.Members.insert_insert]
  rfl

theorem render_toList_not_blank (n : Notebook) : n.render.toList.all Text.isBlank = false := by
  refine List.all_eq_false.2 ⟨'{', ?_, by decide⟩
  rw [render, Json.pretty, String.toList_append, String.toList_ofList, toJson]
  refine List.mem_append_left _ ?_
  cases n.root.insert "cells" (.array (n.cells.map Cell.toJson)) with
  | nil =>
    rw [Json.prettyAt]
    exact List.mem_cons_self
  | cons m ms =>
    rw [Json.prettyAt]
    exact List.mem_cons_self

theorem parse_of_json {text : List Char} (hb : text.all Text.isBlank = false) :
    parse text = match Json.parse text with
      | .error fault => .error (.json fault text)
      | .ok document => ofJson document := by
  unfold parse
  exact if_neg (by simp [hb])

theorem json_parse_render (h : n.Sound Json.Number.Fits) (hi : n.Integral) :
    Json.parse n.render.toList = .ok n.toJson :=
  Json.parse_pretty h.wellFormed ((h.and_isInt hi).wellFormed.integral fun _ hk => hk.2) 1

/-- **A stored notebook without floats is read as the same document with the same cells.** -/
theorem parse_render (h : n.Sound Json.Number.Fits) (hi : n.Integral) :
    parse n.render.toList = .ok n.marked := by
  rw [parse_of_json n.render_toList_not_blank, json_parse_render h hi]
  exact ofJson_toJson h

/-- **The cells that are read back differ in floats only**, if anything is read back. -/
theorem mask_cells_of_parse_render (h : n.Sound Json.Number.Fits)
    (hp : parse n.render.toList = .ok m) : m.cells.map Cell.mask = n.cells.map Cell.mask := by
  rw [parse_of_json n.render_toList_not_blank] at hp
  split at hp
  · simp at hp
  · rename_i document hd
    obtain ⟨root, rfl, hcells, -, hvalid⟩ := ofJson_eq_ok hp
    have hroot := Json.maskFloats_of_parse_pretty h.wellFormed hd
    rw [toJson, Json.maskFloats_object, Json.maskFloats_object, Json.object.injEq] at hroot
    have hg := congrArg (Json.Members.get? · "cells") hroot
    rw [Json.get?_map_maskMember, Json.get?_map_maskMember, hcells,
      Json.Members.get?_insert_self] at hg
    refine Cell.map_mask_eq hvalid (fun c hc => (h.cells c hc).valid) ?_
    simpa [Json.maskFloats, Function.comp_def] using hg

/-! ### Texts of a notebook -/

/-- The text spells the document of the notebook and is read as the notebook. -/
structure Written (n : Notebook) (text : String) : Prop where
  json : Json.parse text.toList = .ok n.toJson
  parse : Notebook.parse text.toList = .ok n

/-- What is not blank is read as the document of the notebook, and the root marks the place of the
cells. -/
theorem json_of_parse {text : List Char} (hb : text.all Text.isBlank = false)
    (h : parse text = .ok n) :
    Json.parse text = .ok n.toJson ∧ n.root.insert "cells" .null = n.root := by
  rw [parse_of_json hb] at h
  split at h
  · simp at h
  · rename_i document hd
    obtain ⟨root, rfl, hcells, hroot, -⟩ := ofJson_eq_ok h
    have hn := (Json.wellFormed_of_parse hd).nodup_keys
    constructor
    · rw [hd, toJson, hroot, Json.Members.insert_insert, Json.Members.insert_get?_self hn hcells]
    · rw [hroot, Json.Members.insert_insert]

/-- A notebook that has cells is written in the text from which it is read, and its root marks
their place. -/
theorem written_of_parse {text : String} (h : parse text.toList = .ok n) (hc : n.cells ≠ []) :
    n.Written text ∧ n.root.insert "cells" .null = n.root := by
  have hb : text.toList.all Text.isBlank = false := by
    by_contra hb
    rw [Bool.not_eq_false] at hb
    rw [parse, if_pos hb] at h
    exact hc (congrArg cells (Except.ok.inj h)).symm
  obtain ⟨hjson, hroot⟩ := json_of_parse hb h
  exact ⟨⟨hjson, h⟩, hroot⟩

/-- Other cells are written in the text that is stored with them. -/
theorem written_render {text : String} (h : parse text.toList = .ok n) (hc : n.cells ≠ [])
    (hroot : m.root = n.root) (hs : m.Sound Json.Number.Fits) (hi : m.Integral) :
    m.Written m.render := by
  refine ⟨json_parse_render hs hi, (parse_render hs hi).trans (congrArg _ ?_)⟩
  rw [marked, hroot, (written_of_parse h hc).2, ← hroot]

/-! ### Edits -/

/-- A change to a notebook. -/
inductive Edit where
  /-- Cleans every cell. -/
  | clean (keys : List String)
  /-- Cleans the cell at a place, if there is one. -/
  | cleanCell (index : Nat) (keys : List String)
  /-- Replaces the source of the cell at a place, if there is one. -/
  | setSource (index : Nat) (text : String)

def edit (n : Notebook) : Edit → Notebook
  | .clean keys => n.clean keys
  | .cleanCell index keys => { n with cells := n.cells.modify index (·.clean keys) }
  | .setSource index text => { n with cells := n.cells.modify index (·.setSource text) }

/-- The notebook after changes, one after the other. -/
def editAll (n : Notebook) (edits : List Edit) : Notebook :=
  edits.foldl edit n

theorem forall_mem_modify {α : Type} {p : α → Prop} {f : α → α} (hf : ∀ a, p a → p (f a)) :
    ∀ {l : List α} (index : Nat), (∀ a ∈ l, p a) → ∀ a ∈ l.modify index f, p a
  | [], index, h => by simp
  | a :: l, 0, h => by
    obtain ⟨ha, hl⟩ := List.forall_mem_cons.1 h
    exact List.forall_mem_cons.2 ⟨hf a ha, hl⟩
  | a :: l, index + 1, h => by
    obtain ⟨ha, hl⟩ := List.forall_mem_cons.1 h
    exact List.forall_mem_cons.2 ⟨ha, forall_mem_modify hf index hl⟩

theorem Sound.clean (h : n.Sound P) (keys : List String) : (n.clean keys).Sound P := by
  refine ⟨h.root, fun c hc => ?_⟩
  obtain ⟨c, hc', rfl⟩ := List.mem_map.1 hc
  exact (h.cells c hc').clean keys

theorem Sound.edit (h : n.Sound P) (e : Edit) : (n.edit e).Sound P := by
  cases e with
  | clean keys => exact h.clean keys
  | cleanCell index keys =>
    exact ⟨h.root, forall_mem_modify (fun c hc => hc.clean keys) index h.cells⟩
  | setSource index text =>
    exact ⟨h.root, forall_mem_modify (fun c hc => hc.setSource text) index h.cells⟩

/-- Whatever the edits, a sound notebook stays sound. -/
theorem Sound.editAll (h : n.Sound P) (edits : List Edit) : (n.editAll edits).Sound P := by
  induction edits generalizing n with
  | nil => exact h
  | cons e edits ih => exact ih (h.edit e)

theorem Integral.editAll (hi : n.Integral) (h : n.Sound P) (edits : List Edit) :
    (n.editAll edits).Integral :=
  ((h.and_isInt hi).editAll edits).integral fun _ hk => hk.2

/-- **Whatever the edits, the stored text of a notebook without floats is a notebook again**: the
same document, members in their order, with the same cells, and its text is the same. -/
theorem render_editAll_survives {text : List Char} (h : parse text = .ok n) (hi : n.Integral)
    (edits : List Edit) :
    ∃ m, parse (n.editAll edits).render.toList = .ok m ∧
      m.toJson = (n.editAll edits).toJson ∧ m.cells = (n.editAll edits).cells ∧
      m.render = (n.editAll edits).render := by
  have hs := sound_of_parse h
  exact ⟨(n.editAll edits).marked, parse_render (hs.editAll edits) (hi.editAll hs edits),
    toJson_marked _, rfl, render_marked _⟩

/-- A text with its members out of order, one of them twice. -/
def sampleText : String :=
  "\x7b\"nbformat\": 3, \"cells\": [\x7b\"source\": [\"a\\n\", \"\\u00e9\"], \"outputs\": [[null], 1], "
    ++ "\"cell_type\": \"code\", \"metadata\": \x7b\"k\": 18446744073709551615\x7d\x7d, "
    ++ "\x7b\"cell_type\": \"raw\", \"source\": \"\"\x7d], \"nbformat\": -4\x7d"

/-- What is read of `sampleText`. -/
def sample : Notebook :=
  ⟨[("nbformat", .number (.int (-4))), ("cells", .null)],
    [⟨.code, [("source", .array [.string "a\n", .string "é"]),
      ("outputs", .array [.array [.null], .number (.int 1)]), ("cell_type", .string "code"),
      ("metadata", .object [("k", .number (.int 18446744073709551615))])]⟩,
     ⟨.raw, [("cell_type", .string "raw"), ("source", .string "")]⟩]⟩

theorem integral_sample : sample.Integral := by
  constructor <;> simp [sample, Cell.toJson, Json.integral_object_iff, Json.integral_array_iff,
    Json.Integral.null, Json.Integral.int, Json.Integral.string, -Prod.forall]

theorem parse_sampleText : parse sampleText.toList = .ok sample := by
  decide +kernel

theorem render_sample_survives :
    parse sampleText.toList = .ok sample ∧ sample.Integral ∧
      ∃ m, parse (sample.editAll [.setSource 0 "b", .cleanCell 1 [], .clean ["k"]]).render.toList
          = .ok m ∧
        m.toJson = (sample.editAll [.setSource 0 "b", .cleanCell 1 [], .clean ["k"]]).toJson ∧
        m.cells = (sample.editAll [.setSource 0 "b", .cleanCell 1 [], .clean ["k"]]).cells ∧
        m.render = (sample.editAll [.setSource 0 "b", .cleanCell 1 [], .clean ["k"]]).render :=
  ⟨parse_sampleText, integral_sample, render_editAll_survives parse_sampleText integral_sample _⟩

end Notebook

end CodeTidy
