import CodeTidy.Proofs.Json.Spelling
import CodeTidy.Proofs.Notebook.Cleaning

/-!
# What an edit may change

`Notebook.Owns n e p` says that the edit `e` of `n` may change what stands in the document where the
route `p` leads: the source of a cell, the outputs and the execution count of a cell with code, and
the stripped keys of the metadata of a cell.  Whatever the edits, a number elsewhere stays where it
stands (`keeps_editAll`).
-/

namespace CodeTidy

namespace Json

/-! ### Numbers that stay -/

/-- Numbers stay where they stand, except behind the routes that are owned. -/
def Keeps (owned : Route → Prop) (before after : Json) : Prop :=
  ∀ (p : Route) (n : Number), ¬ owned p → before.at? p = some (.number n) →
    after.at? p = some (.number n)

variable {owned owned' : Route → Prop} {j j' j'' : Json}

theorem Keeps.refl (owned : Route → Prop) (j : Json) : Keeps owned j j :=
  fun _ _ _ h => h

theorem Keeps.trans (h : Keeps owned j j') (h' : Keeps owned j' j'') : Keeps owned j j'' :=
  fun p n hp hn => h' p n hp (h p n hp hn)

theorem Keeps.mono (h : Keeps owned j j') (ho : ∀ p, owned p → owned' p) : Keeps owned' j j' :=
  fun p n hp => h p n (mt (ho p) hp)

/-- Numbers stay in what is no number itself, if each part is owned or keeps its numbers. -/
theorem keeps_of_parts (hnumber : ∀ n, j ≠ .number n)
    (hparts : ∀ step v, j.part? step = some v → (∀ p, owned (step :: p)) ∨
      ∃ v', j'.part? step = some v' ∧ Keeps (fun p => owned (step :: p)) v v') :
    Keeps owned j j' := by
  rintro (_ | ⟨step, p⟩) n hp hn
  · exact absurd (Option.some.inj hn) (hnumber n)
  · obtain ⟨v, hv, hn⟩ := Option.bind_eq_some_iff.1 hn
    rcases hparts step v hv with howned | ⟨v', hv', hkeeps⟩
    · exact absurd (howned p) hp
    · rw [at?, hv']
      exact hkeeps p n hp hn

theorem keeps_object {ms ms' : Members}
    (h : ∀ key v, ms.get? key = some v → (∀ p, owned (.key key :: p)) ∨
      ∃ v', ms'.get? key = some v' ∧ Keeps (fun p => owned (.key key :: p)) v v') :
    Keeps owned (.object ms) (.object ms') := by
  refine keeps_of_parts (by simp) ?_
  rintro (key | _) v hv
  · exact h key v hv
  · simp [part?] at hv

theorem keeps_array {items items' : List Json}
    (h : ∀ (i : Nat) v, items[i]? = some v → (∀ p, owned (.index i :: p)) ∨
      ∃ v', items'[i]? = some v' ∧ Keeps (fun p => owned (.index i :: p)) v v') :
    Keeps owned (.array items) (.array items') := by
  refine keeps_of_parts (by simp) ?_
  rintro (_ | i) v hv
  · simp [part?] at hv
  · exact h i v hv

theorem keeps_insert {ms : Members} {key : String} {value : Json}
    (h : ∀ v, ms.get? key = some v → (∀ p, owned (.key key :: p)) ∨
      Keeps (fun p => owned (.key key :: p)) v value) :
    Keeps owned (.object ms) (.object (ms.insert key value)) := by
  refine keeps_object fun key' v hv => ?_
  by_cases hk : key' = key
  · subst hk
    exact (h v hv).imp_right fun hkeeps => ⟨value, Members.get?_insert_self _ _ _, hkeeps⟩
  · exact .inr ⟨v, (Members.get?_insert_of_ne hk _ _).trans hv, .refl _ _⟩

theorem keeps_without {keys : List String} (h : ∀ key ∈ keys, ∀ p, owned (.key key :: p))
    (j : Json) : Keeps owned j (j.without keys) := by
  cases j with
  | object ms =>
    refine keeps_object fun key v hv => ?_
    by_cases hk : key ∈ keys
    · exact .inl (h key hk)
    · refine .inr ⟨v, ?_, .refl _ _⟩
      rw [← hv]
      exact Members.get?_filter (fun k => !keys.contains k) (by simpa using hk) ms
  | _ => exact .refl _ _

end Json

open Json (Route Keeps)

/-! ### Cells -/

namespace Cell

/-- What cleaning may change in a cell. -/
inductive Cleans (keys : List String) (code : Bool) : Route → Prop where
  | outputs (hc : code = true) (p : Route) : Cleans keys code (.key "outputs" :: p)
  | executionCount (hc : code = true) (p : Route) : Cleans keys code (.key "execution_count" :: p)
  | metadata {key : String} (hk : key ∈ keys) (p : Route) :
      Cleans keys code (.key "metadata" :: .key key :: p)

/-- What replacing the source may change in a cell. -/
inductive Replaces : Route → Prop where
  | source (p : Route) : Replaces (.key "source" :: p)

theorem keeps_setSource (c : Cell) (text : String) :
    Keeps Replaces c.toJson (c.setSource text).toJson :=
  Json.keeps_insert fun _ _ => .inl .source

/-- Each member is left, or it may be changed. -/
theorem keeps_clearedValue (keys : List String) (code : Bool) (name : String) (value : Json) :
    (∀ p, Cleans keys code (.key name :: p)) ∨
      Keeps (fun p => Cleans keys code (.key name :: p)) value (clearedValue keys code name value) := by
  unfold clearedValue
  split_ifs with hm ho he
  · subst hm
    exact .inr (Json.keeps_without (fun key hk p => .metadata hk p) value)
  · obtain ⟨hc, rfl⟩ := ho
    exact .inl (.outputs hc)
  · obtain ⟨hc, rfl⟩ := he
    exact .inl (.executionCount hc)
  · exact .inr (.refl _ _)

theorem keeps_clean {P : Json.Number → Prop} {d : Nat} {c : Cell} (h : c.Sound P (d + 1))
    (keys : List String) : Keeps (Cleans keys c.isCode) c.toJson (c.clean keys).toJson := by
  rw [clean_eq_cleared h]
  refine Json.keeps_object fun name value hv => ?_
  refine (keeps_clearedValue keys c.isCode name value).imp_right fun hkeeps => ?_
  refine ⟨_, ?_, hkeeps⟩
  rw [cleared, Json.Members.get?, Json.Members.mapValues, lookup_map_snd, ← Json.Members.get?, hv]
  rfl

theorem isCode_clean {P : Json.Number → Prop} {d : Nat} {c : Cell} (h : c.Sound P (d + 1))
    (keys : List String) : (c.clean keys).isCode = c.isCode := by
  rw [clean_eq_cleared h]
  rfl

end Cell

/-! ### Notebooks -/

namespace Notebook

/-- What an edit may change in the document of a notebook. -/
inductive Owns (n : Notebook) : Edit → Route → Prop where
  | clean {keys : List String} {i : Nat} {c : Cell} {p : Route} (hc : n.cells[i]? = some c)
      (hp : Cell.Cleans keys c.isCode p) : Owns n (.clean keys) (.key "cells" :: .index i :: p)
  | cleanCell {keys : List String} {i : Nat} {c : Cell} {p : Route} (hc : n.cells[i]? = some c)
      (hp : Cell.Cleans keys c.isCode p) :
      Owns n (.cleanCell i keys) (.key "cells" :: .index i :: p)
  | setSource {i : Nat} {text : String} {p : Route} (hp : Cell.Replaces p) :
      Owns n (.setSource i text) (.key "cells" :: .index i :: p)

variable {n m : Notebook} {owned : Route → Prop}

/-- No edit owns anything but parts of cells. -/
theorem not_owns_of_ne {key : String} (hkey : key ≠ "cells") (e : Edit) (p : Route) :
    ¬ n.Owns e (.key key :: p) := by
  have hcells : ∀ {q : Route}, n.Owns e q → q.head? = some (.key "cells") := by
    intro q ho
    cases ho <;> rfl
  intro ho
  have hhead := hcells ho
  simp only [List.head?_cons, Option.some.injEq, Json.Step.key.injEq] at hhead
  exact hkey hhead

/-- Numbers stay where the members of the document stay and the cells keep their numbers. -/
theorem keeps_toJson (hroot : m.root = n.root)
    (hcells : ∀ i c, n.cells[i]? = some c → ∃ c', m.cells[i]? = some c' ∧
      Keeps (fun p => owned (.key "cells" :: .index i :: p)) c.toJson c'.toJson) :
    Keeps owned n.toJson m.toJson := by
  have hinsert := Json.Members.insert_insert "cells" (.array (m.cells.map Cell.toJson))
    (.array (n.cells.map Cell.toJson)) n.root
  rw [toJson, toJson, hroot, ← hinsert]
  refine Json.keeps_insert fun v hv => .inr ?_
  obtain rfl := Option.some.inj ((Json.Members.get?_insert_self _ _ _).symm.trans hv)
  refine Json.keeps_array fun i v hv => .inr ?_
  rw [List.getElem?_map, Option.map_eq_some_iff] at hv
  obtain ⟨c, hc, rfl⟩ := hv
  obtain ⟨c', hc', hkeeps⟩ := hcells i c hc
  exact ⟨c'.toJson, by rw [List.getElem?_map, hc', Option.map_some], hkeeps⟩

variable {P : Json.Number → Prop}

theorem keeps_edit (h : n.Sound P) (e : Edit) : Keeps (n.Owns e) n.toJson (n.edit e).toJson := by
  cases e with
  | clean keys =>
    refine keeps_toJson rfl fun i c hc => ⟨c.clean keys, ?_, ?_⟩
    · rw [edit, clean, List.getElem?_map, hc, Option.map_some]
    · exact (Cell.keeps_clean (h.cells c (List.mem_of_getElem? hc)) keys).mono fun p => .clean hc
  | cleanCell index keys =>
    refine keeps_toJson rfl fun i c hc => ?_
    rw [edit, List.getElem?_modify, hc]
    by_cases hi : index = i
    · subst hi
      refine ⟨c.clean keys, by simp, ?_⟩
      exact (Cell.keeps_clean (h.cells c (List.mem_of_getElem? hc)) keys).mono fun p => .cleanCell hc
    · exact ⟨c, by simp [hi], .refl _ _⟩
  | setSource index text =>
    refine keeps_toJson rfl fun i c hc => ?_
    rw [edit, List.getElem?_modify, hc]
    by_cases hi : index = i
    · subst hi
      exact ⟨c.setSource text, by simp, (c.keeps_setSource text).mono fun p => .setSource⟩
    · exact ⟨c, by simp [hi], .refl _ _⟩

theorem isCode_edit (h : n.Sound P) (e : Edit) {i : Nat} {c' : Cell}
    (hc' : (n.edit e).cells[i]? = some c') :
    ∃ c, n.cells[i]? = some c ∧ c'.isCode = c.isCode := by
  have hmodify : ∀ (index : Nat) (f : Cell → Cell), (∀ c ∈ n.cells, (f c).isCode = c.isCode) →
      (n.cells.modify index f)[i]? = some c' →
      ∃ c, n.cells[i]? = some c ∧ c'.isCode = c.isCode := by
    intro index f hf hi
    rw [List.getElem?_modify] at hi
    obtain ⟨c, hc, rfl⟩ := Option.map_eq_some_iff.1 hi
    refine ⟨c, hc, ?_⟩
    split
    · exact hf c (List.mem_of_getElem? hc)
    · rfl
  cases e with
  | clean keys =>
    rw [edit, clean, List.getElem?_map] at hc'
    obtain ⟨c, hc, rfl⟩ := Option.map_eq_some_iff.1 hc'
    exact ⟨c, hc, Cell.isCode_clean (h.cells c (List.mem_of_getElem? hc)) keys⟩
  | cleanCell index keys =>
    exact hmodify index _ (fun c hc => Cell.isCode_clean (h.cells c hc) keys) hc'
  | setSource index text => exact hmodify index (·.setSource text) (fun _ _ => rfl) hc'

/-- What an edit owns does not depend on the edits before it. -/
theorem owns_of_edit (h : n.Sound P) {e e' : Edit} {p : Route} (ho : (n.edit e).Owns e' p) :
    n.Owns e' p := by
  cases ho with
  | clean hc hp =>
    obtain ⟨c, hc', hcode⟩ := isCode_edit h e hc
    exact .clean hc' (hcode ▸ hp)
  | cleanCell hc hp =>
    obtain ⟨c, hc', hcode⟩ := isCode_edit h e hc
    exact .cleanCell hc' (hcode ▸ hp)
  | setSource hp => exact .setSource hp

/-- **Whatever the edits, the numbers that none of them owns stay where they stand.** -/
theorem keeps_editAll (h : n.Sound P) (edits : List Edit) :
    Keeps (fun p => ∃ e ∈ edits, n.Owns e p) n.toJson (n.editAll edits).toJson := by
  induction edits generalizing n with
  | nil => exact .refl _ _
  | cons e edits ih =>
    refine Keeps.trans ((keeps_edit h e).mono fun p hp => ?_)
      ((ih (h.edit e)).mono fun p ⟨e', he', hp⟩ => ?_)
    · exact ⟨e, List.mem_cons_self, hp⟩
    · exact ⟨e', List.mem_cons_of_mem _ he', owns_of_edit h hp⟩

end Notebook

end CodeTidy
