import CodeTidy.Proofs.Json.Grammar
import CodeTidy.Proofs.Json.Unambiguous
import CodeTidy.Proofs.Notebook.Ownership
import Mathlib.Tactic.NormNum

/-!
# The integers of a stored notebook

A notebook is read from a document and stored as one.  Whatever the edits between, where none of
them may change the document, an integer literal is stored as a literal of the same value exactly
when it `Survives` (`integers_stored`): an integer that does not fit 64 bits is read as a float, and
stored with the shortest digits of that float.  Both documents are determined by their texts
(`Json.Document.unique`).
-/

namespace CodeTidy

namespace Json

theorem BeginsValue.isBlank {c : Char} (h : BeginsValue c) : Text.isBlank c = false := by
  have hnames : ∀ c ∈ ['n', 't', 'f', '-', '"', '[', '{'], Text.isBlank c = false := by
    simp [Text.isBlank]
  refine h.elim (fun hc => ?_) (hnames c)
  obtain ⟨hlow, hhigh⟩ := Char.isDigit_iff_toNat.1 hc
  have hzero : '0'.toNat = 48 := rfl
  have hnine : '9'.toNat = 57 := rfl
  simp only [Text.isBlank, Bool.or_eq_false_iff, Bool.and_eq_false_iff, decide_eq_false_iff_not,
    beq_eq_false_iff_ne]
  omega

theorem Document.not_blank {t : Spelling} {text : List Char} (h : Document t text) :
    text.all Text.isBlank = false := by
  obtain ⟨hb, hw, hb'⟩ := h
  obtain ⟨c, cs, rfl, hc⟩ := head_value hw
  exact List.all_eq_false.2 ⟨c, by simp, by simp [hc.isBlank]⟩

end Json

namespace Notebook

variable {n : Notebook} {text : List Char}

theorem exists_document (h : parse text = .ok n) (hb : text.all Text.isBlank = false) :
    ∃ t, Json.Document t text :=
  Json.exists_document (json_of_parse hb h).1

/-- **A text that is a notebook and not blank is a document, a notebook is stored as a document, and
every integer literal that no edit owns is stored as a literal at its place, with the same value
exactly when it survives.** -/
theorem integers_stored (h : parse text = .ok n) (edits : List Edit) :
    (text.all Text.isBlank = false → ∃ t, Json.Document t text) ∧
      (∃ t', Json.Document t' (n.editAll edits).render.toList) ∧
        ∀ t t', Json.Document t text → Json.Document t' (n.editAll edits).render.toList →
          ∀ (p : Json.Route) (negative : Bool) (m : Nat), (∀ e ∈ edits, ¬ n.Owns e p) →
            t.at? p = some (.number (.integer negative m)) →
              ∃ l : Json.Literal, t'.at? p = some (.number l) ∧
                (l.value = (Json.Literal.integer negative m).value ↔
                  Json.Survives negative m) := by
  have hs := sound_of_parse h
  have hw := (hs.editAll edits).wellFormed
  have hstored := Json.document_pretty hw 1
  refine ⟨exists_document h, ⟨_, hstored⟩, fun t t' hdoc hdoc' p negative m hp ht => ?_⟩
  obtain rfl := hstored.unique hdoc'
  have hjson := (json_of_parse hdoc.not_blank h).1
  obtain ⟨k, hk, hread⟩ := Json.agrees_of_parse hdoc hjson p negative m ht
  have hkept := keeps_editAll hs edits p k (by simpa using hp) hk
  exact ⟨k.literal, Json.at?_spelling_number hw hkept, Json.value_literal_iff hread⟩

/-! ### An integer in the metadata -/

/-- A document with an integer in its metadata. -/
def identified (id : Int) : Json :=
  .object [("cells", .array [.object [("cell_type", .string "raw"), ("source", .string "x")]]),
    ("metadata", .object [("id", .number (.int id))])]

/-- The text of such a document, from the digits of the integer. -/
def identifiedText (digits : String) : String :=
  "\x7b\n\"cells\": [\n\x7b\n\"cell_type\": \"raw\",\n\"source\": \"x\"\n\x7d\n],\n"
    ++ "\"metadata\": \x7b\n\"id\": " ++ digits ++ "\n\x7d\n\x7d\n"

def identifiedBy (id : Json.Number) : Notebook :=
  ⟨[("cells", .null), ("metadata", .object [("id", .number id)])],
    [⟨.raw, [("cell_type", .string "raw"), ("source", .string "x")]⟩]⟩

/-- Where the integer stands. -/
def idRoute : Json.Route :=
  [.key "metadata", .key "id"]

theorem wellFormed_identified (id : Int) :
    Json.WellFormed (fun _ => True) 3 (identified id) := by
  have hcell : Json.WellFormed (fun _ => True) 1
      (.object [("cell_type", .string "raw"), ("source", .string "x")]) :=
    .object (by decide) (by simp [Json.WellFormed.string])
  have hmetadata : Json.WellFormed (fun _ => True) 2 (.object [("id", .number (.int id))]) :=
    .object (by simp [Json.Members.keys]) (by simp [Json.WellFormed.number])
  refine .object (by simp [Json.Members.keys]) fun m hm => ?_
  rcases List.mem_cons.1 hm with rfl | hm
  · exact .array fun j hj => List.mem_singleton.1 hj ▸ hcell
  · exact List.mem_singleton.1 hm ▸ hmetadata

theorem document_identified {id : Int} {digits : String}
    (h : (identified id).pretty 0 ++ "\n" = identifiedText digits) :
    Json.Document (identified id).spelling (identifiedText digits).toList :=
  h ▸ Json.document_pretty (wellFormed_identified id) 0

theorem at?_identified (id : Int) :
    (identified id).spelling.at? idRoute = some (.number (Json.Number.literal (.int id))) :=
  Json.at?_spelling_number (wellFormed_identified id) rfl

theorem not_owns_idRoute (n : Notebook) (e : Edit) : ¬ n.Owns e idRoute :=
  not_owns_of_ne (by decide) e _

/-- The greatest integer of 64 bits is stored. -/
theorem integers_stored_greatest :
    ∃ n t', parse (identifiedText "18446744073709551615").toList = .ok n ∧
      Json.Document t' (n.editAll [.setSource 0 "y"]).render.toList ∧
      ∃ l : Json.Literal, t'.at? idRoute = some (.number l) ∧ l.value = 18446744073709551615 := by
  have h : parse (identifiedText "18446744073709551615").toList
      = .ok (identifiedBy (.int 18446744073709551615)) := rfl
  have htext : (identified 18446744073709551615).pretty 0 ++ "\n"
      = identifiedText "18446744073709551615" := by decide +kernel
  obtain ⟨-, ⟨t', ht'⟩, hkept⟩ := integers_stored h [.setSource 0 "y"]
  obtain ⟨l, hl, hvalue⟩ := hkept _ t' (document_identified htext) ht' idRoute false
    18446744073709551615 (fun e _ => not_owns_idRoute _ e) (at?_identified _)
  refine ⟨_, t', h, ht', l, hl, ?_⟩
  rw [hvalue.2 (.inl (by decide)), Json.Literal.value_integer]
  rfl

/-- **The next integer is stored as another one**, `1.8446744073709552e+19`. -/
theorem integer_replaced :
    ∃ n t t', parse (identifiedText "18446744073709551616").toList = .ok n ∧
      Json.Document t (identifiedText "18446744073709551616").toList ∧
      t.at? idRoute = some (.number (.integer false 18446744073709551616)) ∧
      (∀ e ∈ [Edit.setSource 0 "y"], ¬ n.Owns e idRoute) ∧
      Json.Document t' (n.editAll [.setSource 0 "y"]).render.toList ∧
      ∃ l : Json.Literal, t'.at? idRoute = some (.number l) ∧ l.value = 18446744073709552000 ∧
        l.value ≠ (Json.Literal.integer false 18446744073709551616).value := by
  have h : parse (identifiedText "18446744073709551616").toList
      = .ok (identifiedBy (.float false ⟨4503599627370496, 12⟩)) := rfl
  have htext : (identified 18446744073709551616).pretty 0 ++ "\n"
      = identifiedText "18446744073709551616" := by decide +kernel
  have hw := ((sound_of_parse h).editAll [.setSource 0 "y"]).wellFormed
  have hvalue : (Json.Number.literal (.float false ⟨4503599627370496, 12⟩)).value
      = 18446744073709552000 := by
    have hshortest : Binary64.shortest ⟨4503599627370496, 12⟩ = ⟨18446744073709552, 3⟩ := by
      decide +kernel
    rw [Json.Number.value_float, Json.printedValue, hshortest]
    norm_num [Binary64.isZero, Json.decimalValue, signed]
  refine ⟨_, _, _, h, document_identified htext, at?_identified _, fun e _ => not_owns_idRoute _ e,
    Json.document_pretty hw 1, _, Json.at?_spelling_number hw rfl, hvalue, ?_⟩
  rw [hvalue, Json.Literal.value_integer]
  norm_num [signed]

end Notebook

end CodeTidy
