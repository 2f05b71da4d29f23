import CodeTidy.Lookup
import CodeTidy.Settings.Document
import Mathlib.Data.List.Basic

/-!
# Keys without effect

A section passes over the entries that are no field of it (`Settings.setEntries_editSection`), and
an entry that its field refuses makes the whole section fail (`Settings.refused_setEntries`).
Which keys are reported is decided by a list that is kept by hand (`Settings.knownKeys`).  The list
has exactly what the fields of the sections answer to (`Settings.knownKeys_eq`), so the keys that
are reported are exactly those without effect: they can be edited at will, and no other key can
(`Config.unknownKeys_exact`).
-/

namespace CodeTidy

/-! ### Editing the sections of a document -/

namespace Toml

/-- Applies a function to a value that is a table. -/
def mapTable (f : Entries → Entries) : Toml → Toml
  | .table entries => .table (f entries)
  | value => value

theorem table?_mapTable (f : Entries → Entries) (value : Toml) :
    (value.mapTable f).table? = value.table?.map f := by
  cases value <;> rfl

namespace Entries

/-- Applies functions to the tables among the entries, each by its key. -/
def mapTables (f : String → Entries → Entries) (entries : Entries) : Entries :=
  entries.map fun e => (e.1, e.2.mapTable (f e.1))

/-- Removes or replaces the values of some keys of a section. -/
def editSection (keys : List (String × String)) (edit : String × String → Option Toml)
    (name : String) (entries : Entries) : Entries :=
  entries.filterMap fun e =>
    if (name, e.1) ∈ keys then (edit (name, e.1)).map fun value => (e.1, value) else some e

/-- The document in which some keys of the sections are edited: each is removed, or gets another
value. -/
def edited (keys : List (String × String)) (edit : String × String → Option Toml)
    (document : Entries) : Entries :=
  document.mapTables fun name tool =>
    if name = "tool" then tool.mapTables (editSection keys edit) else tool

def tableAt (entries : Entries) (name : String) : Option Entries :=
  entries.lookup name >>= table?

theorem tableAt_mapTables (f : String → Entries → Entries) (name : String) (entries : Entries) :
    (entries.mapTables f).tableAt name = (entries.tableAt name).map (f name) := by
  have hlookup : (entries.mapTables f).lookup name
      = (entries.lookup name).map (mapTable (f name)) :=
    lookup_map_snd (fun name (value : Toml) => value.mapTable (f name)) name entries
  rw [tableAt, tableAt, hlookup]
  cases entries.lookup name with
  | none => rfl
  | some value => exact table?_mapTable (f name) value

/-- The keys of the section of a name. -/
def keysIn (document : Entries) (name : String) : List String :=
  (((document.tableAt "tool").getD []).tableAt name |>.getD []).map Prod.fst

theorem exists_of_mem_keysIn {document : Entries} {name key : String}
    (h : key ∈ document.keysIn name) : ∃ tool entries, document.tableAt "tool" = some tool ∧
      tool.tableAt name = some entries ∧ key ∈ entries.map Prod.fst := by
  unfold keysIn at h
  cases htool : document.tableAt "tool" with
  | none =>
    rw [htool] at h
    exact absurd h List.not_mem_nil
  | some tool =>
    rw [htool, Option.getD_some] at h
    cases hentries : tool.tableAt name with
    | none =>
      rw [hentries] at h
      exact absurd h List.not_mem_nil
    | some entries => exact ⟨tool, entries, rfl, hentries, by rwa [hentries] at h⟩

/-- An edit keeps the keys that get another value, and those that it is not about. -/
theorem keysIn_edited (keys : List (String × String)) (edit : String × String → Option Toml)
    (document : Entries) (name : String) : (document.edited keys edit).keysIn name
      = (document.keysIn name).filter fun key =>
          (name, key) ∈ keys → (edit (name, key)).isSome := by
  have hsection (entries : Entries) : (entries.editSection keys edit name).map Prod.fst
      = (entries.map Prod.fst).filter fun key =>
          (name, key) ∈ keys → (edit (name, key)).isSome := by
    rw [editSection, List.map_filterMap, List.filter_map, ← List.filterMap_eq_filter,
      List.map_filterMap]
    refine List.filterMap_congr fun e _ => ?_
    by_cases hkey : (name, e.1) ∈ keys
    · cases hedit : edit (name, e.1) <;> simp [hkey, hedit, Option.guard]
    · simp [hkey, Option.guard]
  unfold keysIn edited
  rw [tableAt_mapTables]
  cases document.tableAt "tool" with
  | none => rfl
  | some tool =>
    rw [Option.map_some, Option.getD_some, Option.getD_some, if_pos rfl, tableAt_mapTables]
    cases tool.tableAt name with
    | none => rfl
    | some entries => exact hsection entries

end Entries

end Toml

namespace Settings

open Toml (Entries)
open Toml.Entries

variable {σ : Type} {fields : List (Field σ)} {keys : List (String × String)}
  {edit : String × String → Option Toml} {name : String}

/-! ### Entries that are passed over -/

def namesOf (fields : List (Field σ)) : List String :=
  fields.flatMap (·.names)

theorem find?_eq_none_iff {key : String} :
    fields.find? (·.names.contains key) = none ↔ key ∉ namesOf fields := by
  simp [namesOf]

theorem names_of_find? {key : String} {f : Field σ}
    (h : fields.find? (·.names.contains key) = some f) : f ∈ fields ∧ key ∈ f.names :=
  ⟨List.mem_of_find?_eq_some h, by simpa using List.find?_some h⟩

/-- Entries that are no fields can be edited at will. -/
theorem setEntries_editSection (h : ∀ key, (name, key) ∈ keys → key ∉ namesOf fields) :
    ∀ (seen : List String) (state : σ) (entries : Entries),
      setEntries fields seen state (entries.editSection keys edit name)
        = setEntries fields seen state entries
  | _, _, [] => rfl
  | seen, state, (key, value) :: rest => by
    have ih := fun seen state => setEntries_editSection h seen state rest
    by_cases hkey : (name, key) ∈ keys
    · have hnone := find?_eq_none_iff.2 (h key hkey)
      rw [setEntries, hnone, editSection, List.filterMap_cons, if_pos hkey]
      cases edit (name, key) with
      | none => exact ih seen state
      | some value' =>
        refine Eq.trans ?_ (ih seen state)
        rw [Option.map_some, setEntries, hnone]
        rfl
    · rw [editSection, List.filterMap_cons, if_neg hkey, setEntries, setEntries]
      cases fields.find? (·.names.contains key) with
      | none => exact ih seen state
      | some f =>
        dsimp only
        split
        · rfl
        · cases f.set value state with
          | error e => rfl
          | ok state => exact ih _ state

/-- Tables that their fields read alike make no difference. -/
theorem setEntries_mapTables {g : String → Entries → Entries}
    (h : ∀ f ∈ fields, ∀ key ∈ f.names, ∀ entries state,
      f.set (.table (g key entries)) state = f.set (.table entries) state) :
    ∀ (seen : List String) (state : σ) (entries : Entries),
      setEntries fields seen state (entries.mapTables g) = setEntries fields seen state entries
  | _, _, [] => rfl
  | seen, state, (key, value) :: rest => by
    have ih := fun seen state => setEntries_mapTables h seen state rest
    rw [mapTables, List.map_cons, setEntries, setEntries]
    cases hf : fields.find? (·.names.contains key) with
    | none => exact ih seen state
    | some f =>
      obtain ⟨hmem, hkey⟩ := names_of_find? hf
      have hset : f.set (value.mapTable (g key)) state = f.set value state := by
        cases value with
        | table entries => exact h f hmem key hkey entries state
        | _ => rfl
      dsimp only
      rw [hset]
      split
      · rfl
      · cases f.set value state with
        | error e => rfl
        | ok state => exact ih _ state

/-! ### Entries that are refused -/

/-- A reading gives nothing. -/
def Refused {α : Type} (x : Decoded α) : Prop :=
  ∃ e, x = .error e

theorem Refused.bind {α β : Type} {x : Decoded α} (h : Refused x) (f : α → Decoded β) :
    Refused (x >>= f) := by
  obtain ⟨e, rfl⟩ := h
  exact ⟨e, rfl⟩

theorem Refused.map {α β : Type} {x : Decoded α} (h : Refused x) (f : α → β) :
    Refused (x.map f) := by
  obtain ⟨e, rfl⟩ := h
  exact ⟨e, rfl⟩

/-- One entry that its field refuses is enough, whatever stands around it. -/
theorem refused_setEntries {key : String} {value : Toml} (hkey : key ∈ namesOf fields)
    (h : ∀ f ∈ fields, key ∈ f.names → ∀ state, Refused (f.set value state)) :
    ∀ (seen : List String) (state : σ) {entries : Entries}, (key, value) ∈ entries →
      Refused (setEntries fields seen state entries)
  | seen, state, (key', value') :: rest, hm => by
    have ih := fun seen state => @refused_setEntries key value hkey h seen state rest
    rw [setEntries]
    cases hf : fields.find? (·.names.contains key') with
    | none =>
      rcases List.mem_cons.1 hm with he | hm
      · obtain ⟨rfl, rfl⟩ := Prod.mk.inj he
        exact absurd hkey (find?_eq_none_iff.1 hf)
      · exact ih seen state hm
    | some f =>
      obtain ⟨hmem, hnames⟩ := names_of_find? hf
      dsimp only
      split
      · exact ⟨_, rfl⟩
      · cases hset : f.set value' state with
        | error e => exact ⟨e, rfl⟩
        | ok state' =>
          rcases List.mem_cons.1 hm with he | hm
          · obtain ⟨rfl, rfl⟩ := Prod.mk.inj he
            obtain ⟨e, herror⟩ := h f hmem hnames state
            rw [herror] at hset
            nomatch hset
          · exact ih _ state' hm

/-! ### The sections -/

/-- The keys that the fields of a section answer to. -/
def fieldNames : String → List String
  | "colint" => namesOf generalFields
  | "isort" => namesOf isortFields
  | "black" => namesOf blackFields
  | "flake8" => namesOf flake8Fields
  | _ => []

/-- **The list of known keys has exactly what the fields answer to.** -/
theorem knownKeys_eq (name : String) : knownKeys name = fieldNames name := by
  unfold knownKeys
  split
  case h_5 =>
    unfold fieldNames
    split <;> first | rfl | contradiction
  all_goals rfl

/-- The tables of a section are read by its fields, none of which takes a float, and then
finished. -/
inductive ReadByFields (name : String) (f : Field Sections) : Prop where
  | intro {τ υ : Type} (fields : List (Field τ)) (initial : τ) (finish : τ → Decoded υ)
      (store : υ → Sections → Sections)
      (names : namesOf fields = fieldNames name)
      (floats : ∀ field ∈ fields, ∀ literal state,
        field.set (.float literal) state = .error .malformed)
      (set : ∀ entries state, f.set (.table entries) state
        = (setEntries fields [] initial entries >>= finish).map (store · state))

theorem readByFields {f : Field Sections} (hf : f ∈ sectionFields) (hname : name ∈ f.names) :
    ReadByFields name f := by
  have hbind : ∀ {τ : Type} (x : Decoded τ), x >>= .ok = x := bind_pure
  simp only [sectionFields, List.mem_cons, List.not_mem_nil, or_false] at hf
  rcases hf with rfl | rfl | rfl | rfl <;> obtain rfl := List.mem_singleton.1 hname
  · refine .intro generalFields {} .ok (fun v s => { s with general := v }) rfl ?_ fun _ _ => ?_
    · simp [generalFields, field, strings, boolean, natural, tools, Toml.fields?, Except.map]
    · rw [hbind]
      rfl
  · refine .intro isortFields {} .ok (fun v s => { s with isort := v }) rfl ?_ fun _ _ => ?_
    · simp [isortFields, field, string, Except.map]
    · rw [hbind]
      rfl
  · refine .intro blackFields {} finishBlack (fun v s => { s with black := v }) rfl ?_
      fun _ _ => rfl
    simp [blackFields, field, natural, oneOrMany, strings, boolean, Except.map]
  · refine .intro flake8Fields {} finishFlake8 (fun v s => { s with flake8 := v }) rfl ?_
      fun _ _ => rfl
    simp [flake8Fields, field, integer, oneOrMany, strings, fileIgnores, Toml.fields?, Except.map]

/-! ### Documents -/

variable {document : Entries}

theorem sections_table : sections (.table document)
    = setEntries [⟨["tool"], fun value _ => record sectionFields {} value⟩] [] {} document :=
  rfl

/-- Keys that no field answers to have no effect. -/
theorem sections_edited (h : ∀ name key, (name, key) ∈ keys → key ∉ fieldNames name) :
    sections (.table (document.edited keys edit)) = sections (.table document) := by
  rw [sections_table, sections_table, edited]
  refine setEntries_mapTables (fun f hf key hkey tool _ => ?_) _ _ document
  obtain rfl := List.mem_singleton.1 hf
  obtain rfl := List.mem_singleton.1 hkey
  rw [if_pos rfl]
  refine setEntries_mapTables (fun f hf name hname entries state => ?_) _ _ tool
  obtain ⟨fields, initial, finish, store, hnames, -, hset⟩ := readByFields hf hname
  have hskip := fun key hkey => hnames ▸ h name key hkey
  rw [hset, hset, setEntries_editSection hskip]

theorem mem_of_tableAt {entries table : Entries} (h : entries.tableAt name = some table) :
    (name, .table table) ∈ entries := by
  obtain ⟨value, hvalue, htable⟩ := Option.bind_eq_some_iff.1 h
  obtain ⟨before, after, rfl, -⟩ := List.lookup_eq_some_iff.1 hvalue
  cases value <;> cases htable
  simp

theorem mem_mapTables {g : String → Entries → Entries} {entries table : Entries}
    (h : (name, .table table) ∈ entries) : (name, .table (g name table)) ∈ entries.mapTables g :=
  List.mem_map.2 ⟨_, h, rfl⟩

/-- The sections that are checked are those that are read. -/
theorem checkedSections_eq : checkedSections = namesOf sectionFields :=
  rfl

/-- A float is refused wherever a field is looked for. -/
theorem refused_edited {key literal : String} (hname : name ∈ checkedSections)
    (hkey : key ∈ document.keysIn name) (hfield : key ∈ fieldNames name)
    (hedit : edit (name, key) = some (.float literal)) (hkeys : (name, key) ∈ keys) :
    Refused (sections (.table (document.edited keys edit))) := by
  obtain ⟨tool, entries, htool, hentries, hm⟩ := exists_of_mem_keysIn hkey
  obtain ⟨⟨key, value⟩, hvalue, rfl⟩ := List.mem_map.1 hm
  have hfloat : (key, .float literal) ∈ entries.editSection keys edit name :=
    List.mem_filterMap.2 ⟨_, hvalue, by rw [if_pos hkeys, hedit]; rfl⟩
  have hentries := mem_mapTables (g := editSection keys edit) (mem_of_tableAt hentries)
  have htool := mem_mapTables (g := fun name tool =>
    if name = "tool" then tool.mapTables (editSection keys edit) else tool) (mem_of_tableAt htool)
  rw [if_pos rfl] at htool
  -- the float makes its section fail, the section makes the table of sections fail, and so on
  refine refused_setEntries (List.mem_singleton_self _) (fun f hf _ _ => ?_) _ _ htool
  obtain rfl := List.mem_singleton.1 hf
  refine refused_setEntries (checkedSections_eq ▸ hname) (fun f hf hnames state => ?_) _ _ hentries
  obtain ⟨fields, initial, finish, store, hnames, hfloats, hset⟩ := readByFields hf hnames
  rw [hset]
  refine ((refused_setEntries (hnames ▸ hfield) (fun f hf _ state => ?_) _ _ hfloat).bind _).map _
  exact ⟨_, hfloats f hf literal state⟩

end Settings

namespace Config

open Toml (Entries)
open Toml.Entries Settings

variable {document : Entries}

/-! ### The keys that are reported -/

/-- The keys that are reported are those of the sections that no field answers to. -/
theorem unknownKeysOf_eq (document : Entries) : unknownKeysOf document
    = checkedSections.flatMap fun name =>
        ((document.keysIn name).filter (· ∉ fieldNames name)).map ((name, ·)) := by
  have hunknown (tool : Entries) (name : String) : unknownIn tool name
      = ((((tool.tableAt name).getD []).map Prod.fst).filter (· ∉ fieldNames name)).map
          ((name, ·)) := by
    unfold unknownIn
    rw [← tableAt]
    cases tool.tableAt name with
    | none => rfl
    | some entries => simp [knownKeys_eq, List.filter_map, Function.comp_def]
  unfold unknownKeysOf keysIn
  rw [← tableAt]
  cases document.tableAt "tool" with
  | none => simp [tableAt]
  | some tool => exact List.flatMap_congr fun name _ => hunknown tool name

theorem mem_unknownKeysOf {name key : String} : (name, key) ∈ unknownKeysOf document ↔
    name ∈ checkedSections ∧ key ∈ document.keysIn name ∧ key ∉ fieldNames name := by
  rw [unknownKeysOf_eq]
  simp

/-- Of the keys that are reported, those are reported again that are kept with another value. -/
theorem unknownKeysOf_edited (edit : String × String → Option Toml) :
    unknownKeysOf (document.edited (unknownKeysOf document) edit)
      = (unknownKeysOf document).filter fun key => (edit key).isSome := by
  rw [unknownKeysOf_eq (document.edited _ edit)]
  conv_rhs => rw [unknownKeysOf_eq]
  rw [List.filter_flatMap]
  refine List.flatMap_congr fun name hname => ?_
  rw [keysIn_edited, List.filter_map, List.filter_filter, List.filter_filter]
  congr 1
  refine List.filter_congr fun key hkey => ?_
  by_cases hfield : key ∈ fieldNames name
  · simp [hfield]
  · have hreported := mem_unknownKeysOf.2 ⟨hname, hkey, hfield⟩
    simp [hfield, hreported]

/-! ### What a document gives -/

/-- A document, and every text that is read as this document, gives the settings. -/
def Gives (document : Entries) (config : Config) : Prop :=
  ofDocument document = .ok config ∧
    ∀ text : String, Toml.parse? text.toList = some document → ofToml text = .ok config

theorem ofToml_of_parse? {text : String} (h : Toml.parse? text.toList = some document) :
    ofToml text = ofDocument document := by
  unfold ofToml
  rw [h]

theorem ofDocument_eq_ok_iff {config : Config} : ofDocument document = .ok config ↔
    sections (.table document) = .ok config.toSections ∧
      config.unknownKeys = unknownKeysOf document := by
  unfold ofDocument
  cases sections (.table document) with
  | error e => simp [Except.map]
  | ok sections =>
    cases config
    simp [Except.map, eq_comm]

/-- **The keys that are reported are exactly those without effect.**  When a text gives settings,
the keys that it reports as unknown can be removed from its document, or be given any other values,
and the settings stay the same; what is reported then is what has been kept.  Every other key of a
section is the name of a field, and it is read: with a float there, the document gives no settings.
A key that is the name of no field is reported. -/
theorem unknownKeys_exact {text : String} {config : Config} (h : ofToml text = .ok config) :
    ∃ document, Toml.parse? text.toList = some document ∧
      (∀ edit : String × String → Option Toml, ∃ config',
        Gives (document.edited config.unknownKeys edit) config' ∧
        config'.toSections = config.toSections ∧
        config'.unknownKeys = config.unknownKeys.filter fun key => (edit key).isSome) ∧
      ∀ name ∈ ["colint", "isort", "black", "flake8"], ∀ key ∈ document.keysIn name,
        ((name, key) ∈ config.unknownKeys ↔ key ∉ fieldNames name) ∧
        ((name, key) ∉ config.unknownKeys → ∀ literal, Refused
          (ofDocument (document.edited [(name, key)] fun _ => some (.float literal)))) := by
  cases hparse : Toml.parse? text.toList with
  | none => simp [ofToml, hparse] at h
  | some document =>
    rw [ofToml_of_parse? hparse, ofDocument_eq_ok_iff] at h
    obtain ⟨hsections, hreported⟩ := h
    rw [hreported]
    have hnofield : ∀ name key, (name, key) ∈ unknownKeysOf document → key ∉ fieldNames name :=
      fun _ _ hkey => (mem_unknownKeysOf.1 hkey).2.2
    refine ⟨document, rfl, fun edit => ?_, fun name hname key hkey => ?_⟩
    · let config' : Config :=
        ⟨config.toSections, (unknownKeysOf document).filter fun key => (edit key).isSome⟩
      have hgives : ofDocument (document.edited (unknownKeysOf document) edit) = .ok config' :=
        ofDocument_eq_ok_iff.2
          ⟨(sections_edited hnofield).trans hsections, (unknownKeysOf_edited edit).symm⟩
      exact ⟨config', ⟨hgives, fun _ hp => (ofToml_of_parse? hp).trans hgives⟩, rfl, rfl⟩
    · have hiff : (name, key) ∈ unknownKeysOf document ↔ key ∉ fieldNames name :=
        ⟨hnofield name key, fun hnot => mem_unknownKeysOf.2 ⟨hname, hkey, hnot⟩⟩
      -- a key that is not reported is the name of a field, and no field takes a float
      refine ⟨hiff, fun hnot literal => ?_⟩
      have hfield : key ∈ fieldNames name := not_not.1 fun hn => hnot (hiff.2 hn)
      exact (refused_edited hname hkey hfield rfl (List.mem_singleton_self _)).map _

/-- A text with two misspelled keys. -/
def misspelled : String :=
  "[tool.colint]\nexlude = [\"build\"]\n[tool.black]\nline-lenght = 100\nline_length = 120\n"

/-- Without the misspelled keys the settings are the same, and nothing is reported. -/
theorem unknownKeys_exact_misspelled :
    ∃ (config : Config) (document : Entries) (config' : Config),
      ofToml misspelled = .ok config ∧
      config.unknownKeys = [("colint", "exlude"), ("black", "line-lenght")] ∧
      Gives (document.edited config.unknownKeys fun _ => none) config' ∧
      config'.toSections = { black := { lineLength := 120 } } ∧ config'.unknownKeys = [] := by
  have h : ofToml misspelled = .ok ⟨{ black := { lineLength := 120 } },
      [("colint", "exlude"), ("black", "line-lenght")]⟩ := by
    decide +kernel
  obtain ⟨document, -, hedit, -⟩ := unknownKeys_exact h
  obtain ⟨config', hgives, hsame, hunknown⟩ := hedit fun _ => none
  exact ⟨_, document, config', h, rfl, hgives, hsame, hunknown⟩

end Config

end CodeTidy
