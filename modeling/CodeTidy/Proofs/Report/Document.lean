import CodeTidy.Proofs.Json.Spelling
import CodeTidy.Proofs.Report.Rendering

/-!
# The document of a report

A report has a document exactly when every path in it is a text (`Report.jsonText?_eq_none_iff`).  The
document is then one in the grammar of JSON, and it describes the report: its outcomes are listed one
by one, in their order, each with all that is in it (`Report.exists_document`).
-/

namespace CodeTidy

/-! ### Paths -/

/-- The bytes of the path are those of a text. -/
def Path.IsText (p : Path) : Prop :=
  ∃ text : String, Utf8.encode text = p.bytes

theorem Path.isText_iff {p : Path} : p.IsText ↔ (Utf8.decode? p.bytes).isSome = true := by
  rw [Option.isSome_iff_exists]
  constructor
  · rintro ⟨text, h⟩
    exact ⟨text, h ▸ Utf8.decode?_encode text⟩
  · rintro ⟨text, h⟩
    exact ⟨text, Utf8.encode_of_decode? h⟩

/-! ### Entries -/

/-- The entry says all that a diagnostic says. -/
structure Json.Locates (entry : Json) (d : Diagnostic) : Prop where
  exists_members : ∃ members : Json.Members, entry = .object members ∧
    members.get? "line" = some (Json.nat d.line) ∧
    members.get? "column" = some (Json.nat d.column) ∧
    members.get? "cell" = d.cell.map Json.nat ∧
    members.get? "code" = some (.string d.code) ∧
    members.get? "message" = some (.string d.message)

/-- The entry says all that an outcome says, with the path as a text.  There is no message where the
outcome has none, and no list of diagnostics where it has none. -/
structure Json.Records (entry : Json) (o : Outcome) : Prop where
  exists_members : ∃ (members : Json.Members) (path : String) (diagnostics : List Json),
    entry = .object members ∧
    Utf8.encode path = o.path.bytes ∧
    members.get? "path" = some (.string path) ∧
    members.get? "operation" = some (.string o.operation) ∧
    members.get? "status" = some (.string o.status.name) ∧
    members.get? "message" = o.message.map .string ∧
    List.Forall₂ Json.Locates diagnostics o.diagnostics ∧
    members.get? "diagnostics" = if diagnostics = [] then none else some (.array diagnostics)

/-- The document says all that a report says: it lists the operations and the outcomes, each in their
order. -/
structure Json.Describes (document : Json) (r : Report) : Prop where
  exists_members : ∃ (members : Json.Members) (operations outcomes : List Json),
    document = .object members ∧
    members.get? "mode" = some (.string r.mode.name) ∧
    members.get? "exit_code" = some (Json.nat r.exitCode) ∧
    members.get? "operations" = some (.array operations) ∧
    List.Forall₂ Json.Lists operations r.summaries ∧
    members.get? "outcomes" = some (.array outcomes) ∧
    List.Forall₂ Json.Records outcomes r.outcomes

variable {d : Diagnostic} {o : Outcome} {r : Report} {entry document : Json} {text : String}

theorem Diagnostic.locates_toJson (d : Diagnostic) : d.toJson.Locates d := by
  refine ⟨_, rfl, rfl, rfl, ?_, ?_, ?_⟩
  all_goals cases d.cell <;> rfl

theorem Outcome.records_of_toJson? (h : o.toJson? = some entry) : entry.Records o := by
  obtain ⟨path, hpath, rfl⟩ := Option.map_eq_some_iff.1 h
  have hdiagnostics : List.Forall₂ Json.Locates (o.diagnostics.map Diagnostic.toJson) o.diagnostics :=
    List.forall₂_map_left_iff.2 (List.forall₂_same.2 fun d _ => d.locates_toJson)
  refine ⟨_, path, _, rfl, Utf8.encode_of_decode? hpath, rfl, rfl, rfl, ?_, hdiagnostics, ?_⟩
  · cases o.message <;> cases o.diagnostics <;> rfl
  · cases o.message <;> cases o.diagnostics <;> rfl

/-- The entries of a document, if it has them all, are those of the outcomes one by one. -/
theorem forall₂_of_mapM_toJson? : ∀ {os : List Outcome} {entries : List Json},
    os.mapM Outcome.toJson? = some entries →
      List.Forall₂ (fun entry o => o.toJson? = some entry) entries os
  | [], entries, h => by
    obtain rfl := Option.some.inj h
    exact .nil
  | o :: os, entries, h => by
    rw [List.mapM_cons] at h
    obtain ⟨entry, hentry, h⟩ := Option.bind_eq_some_iff.1 h
    obtain ⟨entries', hentries, h⟩ := Option.bind_eq_some_iff.1 h
    obtain rfl := Option.some.inj h
    exact .cons hentry (forall₂_of_mapM_toJson? hentries)

theorem Report.describes_of_toJson? (h : r.toJson? = some document) : document.Describes r := by
  obtain ⟨entries, hentries, rfl⟩ := Option.map_eq_some_iff.1 h
  have houtcomes : List.Forall₂ Json.Records entries r.outcomes :=
    (forall₂_of_mapM_toJson? hentries).imp fun _ _ h => Outcome.records_of_toJson? h
  refine ⟨_, _, entries, rfl, rfl, rfl, rfl, List.forall₂_map_left_iff.2 ?_, rfl, houtcomes⟩
  exact List.forall₂_same.2 fun x _ => Tally.lists_toJson x.1 x.2

/-! ### The text of a document -/

/-- No object of the value has a key twice, and at most `depth` containers are nested.  Any number may
stand in it. -/
abbrev Json.Nested (depth : Nat) (j : Json) : Prop :=
  j.WellFormed (fun _ => True) depth

/-- What holds of the member for a value that may be absent holds where it is absent. -/
theorem forall_mem_optional {α : Type} {P : String × Json → Prop} {x : Option α}
    {f : α → String × Json} (h : ∀ a, P (f a)) : ∀ m ∈ x.elim [] fun a => [f a], P m := by
  cases x with
  | none => simp
  | some a => simpa using h a

theorem Diagnostic.nested_toJson (d : Diagnostic) : d.toJson.Nested 1 := by
  refine .object ?_ ?_
  · cases d.cell <;> simp [Json.Members.keys]
  · simp only [List.forall_mem_append, List.forall_mem_cons]
    refine ⟨⟨⟨.number trivial, .number trivial, by simp⟩, ?_⟩, .string _, .string _, by simp⟩
    exact forall_mem_optional fun _ => .number trivial

theorem Outcome.nested_of_toJson? (h : o.toJson? = some entry) : entry.Nested 3 := by
  obtain ⟨path, -, rfl⟩ := Option.map_eq_some_iff.1 h
  refine .object ?_ ?_
  · cases o.message <;> cases o.diagnostics <;> simp [Json.Members.keys]
  · simp only [List.forall_mem_append, List.forall_mem_cons]
    refine ⟨⟨⟨.string _, .string _, .string _, by simp⟩, ?_⟩, fun m hm => ?_⟩
    · exact forall_mem_optional fun _ => .string _
    · split at hm
      · cases hm
      · obtain rfl := List.mem_singleton.1 hm
        refine .array fun j hj => ?_
        obtain ⟨d, -, rfl⟩ := List.mem_map.1 hj
        exact d.nested_toJson

theorem Tally.nested_toJson (name : String) (t : Tally) : (t.toJson name).Nested 1 := by
  refine .object (by simp [Json.Members.keys]) ?_
  simp only [List.forall_mem_cons]
  exact ⟨.string _, .number trivial, .number trivial, .number trivial, .number trivial,
    .number trivial, by simp⟩

namespace Report

theorem nested_of_toJson? (h : r.toJson? = some document) : document.Nested 5 := by
  obtain ⟨entries, hentries, rfl⟩ := Option.map_eq_some_iff.1 h
  have houtcomes : ∀ entry ∈ entries, entry.Nested 3 :=
    ((List.forall₂_and_left _ _).1 ((forall₂_of_mapM_toJson? hentries).imp fun entry o ho =>
      And.intro (Outcome.nested_of_toJson? ho) ho)).1
  refine .object (by simp [Json.Members.keys]) ?_
  simp only [List.forall_mem_cons]
  refine ⟨.string _, .number trivial, .array fun j hj => ?_, .array houtcomes, by simp⟩
  obtain ⟨x, -, rfl⟩ := List.mem_map.1 hj
  exact (Tally.nested_toJson x.1 x.2).mono (by omega)

/-- **A report has no document exactly when one of its paths is no text.** -/
theorem jsonText?_eq_none_iff : r.jsonText? = none ↔ ∃ o ∈ r.outcomes, ¬ o.path.IsText := by
  have hsome : r.toJson?.isSome = true ↔ ∀ o ∈ r.outcomes, o.path.IsText := by
    simp only [isSome_toJson?, Path.isText_iff]
  rw [jsonText?, Option.map_eq_none_iff, ← Option.not_isSome_iff_eq_none, hsome]
  simp only [not_forall, exists_prop]

/-- **The text of a report is a document that describes it.** -/
theorem exists_document (h : r.jsonText? = some text) :
    ∃ document : Json, Json.Document document.spelling (text ++ "\n").toList ∧
      document.Describes r := by
  obtain ⟨document, hdocument, rfl⟩ := Option.map_eq_some_iff.1 h
  exact ⟨document, Json.document_pretty (nested_of_toJson? hdocument) 2,
    describes_of_toJson? hdocument⟩

end Report

end CodeTidy
