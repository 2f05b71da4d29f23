import CodeTidy.Operation.StyleCheck
import CodeTidy.Proofs.Results
import CodeTidy.Proofs.Settings.Sections
import CodeTidy.Proofs.Text.Splitting
import CodeTidy.Proofs.Text.Utf8

/-!
# Codes that are ignored

A code is ignored when it begins with a prefix that applies (`Flake8Settings.ignores_iff`).  The
prefixes are written as an array or as one string with commas, and for the same entries both give
the same answers as long as no entry is blank and, in a table of files, none is padded
(`Settings.ignore_spellings`).  In an array a blank entry is the empty prefix, which every code
begins with (`Settings.blank_ignores_all`).
-/

namespace CodeTidy

open CodeTidy.Text

/-! ### Prefixes -/

theorem startsWith_iff {s lead : String} : startsWith s lead = true ↔ lead.toList <+: s.toList :=
  List.isPrefixOf_iff_prefix

namespace Flake8Settings

variable {settings : Flake8Settings} {path : Path} {code name : String}

/-- A prefix of codes is ignored in a file: everywhere, or in the files of its name. -/
def Applies (settings : Flake8Settings) (path : Path) (lead : String) : Prop :=
  lead ∈ settings.extendIgnore ∨ ∃ name, path.fileName? = some (Utf8.encode name) ∧
    lead ∈ settings.perFileIgnores.codesFor name

/-- **A code is ignored exactly when it begins with a prefix that applies.** -/
theorem ignores_iff : settings.ignores path code = true ↔
    ∃ lead, settings.Applies path lead ∧ lead.toList <+: code.toList := by
  -- a file name is looked up as text, so only a name that is text has prefixes of its own
  have hname : ∀ name, path.fileName? >>= Utf8.decode? = some name ↔
      path.fileName? = some (Utf8.encode name) := by
    intro name
    rw [Option.bind_eq_bind, Option.bind_eq_some_iff]
    constructor
    · rintro ⟨bytes, hbytes, hdecode⟩
      rw [hbytes, Utf8.encode_of_decode? hdecode]
    · exact fun h => ⟨_, h, Utf8.decode?_encode name⟩
  simp only [Applies, ← hname, ← startsWith_iff]
  unfold ignores
  dsimp only
  rw [List.any_eq_true]
  cases path.fileName? >>= Utf8.decode? with
  | none => simp
  | some name => simp

variable (settings path code)

/-- The prefixes that are ignored everywhere, apart from those that are ignored by file. -/
theorem ignores_extendIgnore (leads : List String) :
    { settings with extendIgnore := leads }.ignores path code = true ↔
      { settings with extendIgnore := [] }.ignores path code = true ∨
        ∃ lead ∈ leads, lead.toList <+: code.toList := by
  simp only [ignores_iff, Applies, List.not_mem_nil, false_or, or_and_right, exists_or]
  exact or_comm

variable {path}

/-- The prefixes that are ignored in a file, apart from those that are ignored everywhere. -/
theorem ignores_perFileIgnores (files : FileIgnores)
    (hname : path.fileName? = some (Utf8.encode name)) :
    { settings with perFileIgnores := files }.ignores path code = true ↔
      { settings with perFileIgnores := [] }.ignores path code = true ∨
        ∃ lead ∈ files.codesFor name, lead.toList <+: code.toList := by
  have hcodes : ∀ {files : FileIgnores} {lead : String},
      (∃ name, path.fileName? = some (Utf8.encode name) ∧ lead ∈ files.codesFor name) ↔
        lead ∈ files.codesFor name := by
    intro files lead
    constructor
    · rintro ⟨name', hname', hlead⟩
      rw [hname, Option.some_inj] at hname'
      rwa [encode_injective hname']
    · exact fun h => ⟨name, hname, h⟩
  simp only [ignores_iff, Applies, hcodes, or_and_right, exists_or]
  simp [FileIgnores.codesFor]

theorem ignores_perFileIgnores_congr {files files' : FileIgnores}
    (h : ∀ name, path.fileName? = some (Utf8.encode name) →
      files.codesFor name = files'.codesFor name) :
    { settings with perFileIgnores := files }.ignores path code
      = { settings with perFileIgnores := files' }.ignores path code := by
  rw [Bool.eq_iff_iff, ignores_iff, ignores_iff]
  refine exists_congr fun lead => and_congr_left' (or_congr_right (exists_congr fun name => ?_))
  exact and_congr_right fun hname => by rw [h name hname]

end Flake8Settings

namespace FileIgnores

variable {before after : FileIgnores} {file name : String} {codes : List String}

theorem codesFor_append_self (h : file ∉ before.map Prod.fst) :
    codesFor (before ++ (file, codes) :: after) file = codes := by
  have hnone : before.lookup file = none := by
    refine List.lookup_eq_none_iff.2 fun e he => ?_
    have hne : file ≠ e.1 := fun hf => h (List.mem_map.2 ⟨e, he, hf.symm⟩)
    exact bne_iff_ne.2 hne
  rw [codesFor, List.lookup_append, hnone, List.lookup_cons_self]
  rfl

theorem codesFor_append_of_ne (h : name ≠ file) :
    codesFor (before ++ (file, codes) :: after) name = codesFor (before ++ after) name := by
  rw [codesFor, codesFor, List.lookup_append, List.lookup_append, List.lookup_cons,
    beq_false_of_ne h]

end FileIgnores

namespace Settings

/-! ### Spellings of a list of codes -/

def listed (entries : List String) : Toml :=
  .array (entries.map .string)

def joined (entries : List String) : Toml :=
  .string (",".intercalate entries)

/-- There are only blanks in an entry, if anything. -/
def Blank (entry : String) : Prop :=
  ∀ c ∈ entry.toList, isBlank c = true

instance (entry : String) : Decidable (Blank entry) :=
  decidable_of_iff (entry.toList.all isBlank = true) List.all_eq_true

/-- A code begins with one of the entries, trimmed; a blank entry covers nothing. -/
def Covers (entries : List String) (code : String) : Prop :=
  ∃ e ∈ entries, ¬ Blank e ∧ (trimString e).toList <+: code.toList

theorem toList_trimString (s : String) : (trimString s).toList = trim s.toList :=
  String.toList_ofList

theorem mapM_string : ∀ entries : List String, (entries.map Toml.string).mapM string = .ok entries
  | [] => rfl
  | e :: entries => by
    rw [List.map_cons, List.mapM_cons, mapM_string entries]
    rfl

theorem oneOrMany_listed (entries : List String) :
    oneOrMany (listed entries) = .ok (.many entries) := by
  rw [listed, oneOrMany, strings, mapM_string]
  · rfl
  · simp

variable {entries : List String}

/-- **Joined codes are found again**, trimmed and without the blank ones. -/
theorem mem_splitCodes_intercalate (hcomma : ∀ e ∈ entries, ',' ∉ e.toList) {lead : String} :
    lead ∈ splitCodes (",".intercalate entries).toList ↔
      ∃ e ∈ entries, ¬ Blank e ∧ trimString e = lead := by
  cases entries with
  | nil =>
    have hnone : splitCodes (",".intercalate []).toList = [] := by decide
    rw [hnone]
    simp
  | cons e entries =>
    have hparts : splitAtEach ',' (",".intercalate (e :: entries)).toList
        = (e :: entries).map String.toList := by
      rw [String.toList_intercalate]
      rw [splitAtEach_eq_splitOn]
      exact List.splitOn_intercalate ',' (by simpa using hcomma) (by simp)
    rw [splitCodes, hparts]
    simp only [List.mem_map, List.mem_filter, Blank, ← trim_eq_nil_iff]
    constructor
    · rintro ⟨_, ⟨⟨_, ⟨e, he, rfl⟩, rfl⟩, hne⟩, rfl⟩
      exact ⟨e, he, by simpa using hne, rfl⟩
    · rintro ⟨e, he, hne, rfl⟩
      exact ⟨_, ⟨⟨_, ⟨e, he, rfl⟩, rfl⟩, by simpa using hne⟩, rfl⟩

theorem exists_mem_splitCodes_iff (hcomma : ∀ e ∈ entries, ',' ∉ e.toList) {code : String} :
    (∃ lead ∈ splitCodes (",".intercalate entries).toList, lead.toList <+: code.toList) ↔
      Covers entries code := by
  simp only [mem_splitCodes_intercalate hcomma, Covers]
  constructor
  · rintro ⟨_, ⟨e, he, hne, rfl⟩, hlead⟩
    exact ⟨e, he, hne, hlead⟩
  · rintro ⟨e, he, hne, hlead⟩
    exact ⟨_, ⟨e, he, hne, rfl⟩, hlead⟩

/-- Among trimmed entries a blank one is the empty prefix, which covers every code. -/
theorem exists_mem_map_trimString_iff {code : String} :
    (∃ lead ∈ entries.map trimString, lead.toList <+: code.toList) ↔
      Covers entries code ∨ ∃ e ∈ entries, Blank e := by
  constructor
  · rintro ⟨_, hlead, hcode⟩
    obtain ⟨e, he, rfl⟩ := List.mem_map.1 hlead
    by_cases hblank : Blank e
    · exact .inr ⟨e, he, hblank⟩
    · exact .inl ⟨e, he, hblank, hcode⟩
  · rintro (⟨e, he, -, hcode⟩ | ⟨e, he, hblank⟩)
    · exact ⟨_, List.mem_map_of_mem he, hcode⟩
    · refine ⟨_, List.mem_map_of_mem he, ?_⟩
      rw [toList_trimString, trim_eq_nil_iff.2 hblank]
      exact List.nil_prefix

theorem covers_iff_of_trimmed (htrimmed : ∀ e ∈ entries, ¬ Blank e ∧ Trimmed e.toList)
    {code : String} : Covers entries code ↔ ∃ e ∈ entries, e.toList <+: code.toList := by
  have htrim : ∀ e ∈ entries, (trimString e).toList = e.toList := by
    intro e he
    rw [toList_trimString]
    exact trim_eq_iff.2 ⟨(htrimmed e he).2, [], [], by simp, by simp, by simp⟩
  constructor
  · rintro ⟨e, he, -, hcode⟩
    rw [htrim e he] at hcode
    exact ⟨e, he, hcode⟩
  · rintro ⟨e, he, hcode⟩
    rw [← htrim e he] at hcode
    exact ⟨e, he, (htrimmed e he).1, hcode⟩

/-! ### Sections that differ in one list -/

/-- An entry of a table of files, read. -/
def fileEntry (e : String × Toml) : Decoded (String × OneOrMany) :=
  (oneOrMany e.2).map fun codes => (e.1, codes)

theorem map_fst_of_mapM_fileEntry : ∀ {entries : Toml.Entries} {read : List (String × OneOrMany)},
    entries.mapM fileEntry = .ok read → read.map Prod.fst = entries.map Prod.fst
  | [], _, h => by
    rw [← Except.ok.inj h]
    rfl
  | (file, value) :: rest, read, h => by
    rw [List.mapM_cons] at h
    obtain ⟨first, hfirst, h⟩ := bind_eq_ok.1 h
    obtain ⟨others, hothers, h⟩ := bind_eq_ok.1 h
    obtain ⟨codes, -, rfl⟩ := map_eq_ok.1 hfirst
    rw [← Except.ok.inj h, List.map_cons, List.map_cons, map_fst_of_mapM_fileEntry hothers]

theorem fileIgnores_table (front rest : Toml.Entries) (file : String) {value : Toml}
    {codes : OneOrMany} (hcodes : oneOrMany value = .ok codes) :
    fileIgnores (.table (front ++ (file, value) :: rest))
      = front.mapM fileEntry >>= fun a => (rest.mapM fileEntry).map fun b =>
          .table (a ++ (file, codes) :: b) := by
  show Except.map _ (List.mapM fileEntry _) = _
  rw [List.mapM_append, List.mapM_cons, fileEntry, hcodes]
  cases front.mapM fileEntry with
  | error e => rfl
  | ok a => cases rest.mapM fileEntry <;> rfl

section sections

variable {R : Flake8Settings → Flake8Settings → Prop} {key : String} {value value' : Toml}
  {codes codes' : OneOrMany} (hcodes : oneOrMany value = .ok codes)
  (hcodes' : oneOrMany value' = .ok codes') (before after : Toml.Entries)

include hcodes hcodes'

theorem agree_extendIgnore (hkey : key ∈ ["extend-ignore", "extend_ignore"])
    (hR : ∀ settings : Flake8Settings, R { settings with extendIgnore := extendIgnore (some codes) }
      { settings with extendIgnore := extendIgnore (some codes') }) :
    Agree R (flake8 (.table (before ++ (key, value) :: after)))
      (flake8 (.table (before ++ (key, value') :: after))) := by
  have hfield : flake8Fields.find? (·.names.contains key)
      = some (field ["extend-ignore", "extend_ignore"] oneOrMany fun codes s =>
          { s with extendIgnore := some codes }) := by
    simp only [List.mem_cons, List.not_mem_nil, or_false] at hkey
    obtain rfl | rfl := hkey <;> rfl
  refine agree_record hfield (fun f hf hne codes => ?_) {} before after ?_
  · simp only [flake8Fields, List.mem_cons, List.not_mem_nil, or_false] at hf
    obtain rfl | rfl | rfl := hf
    · exact commutes_field fun _ _ => rfl
    · exact absurd rfl hne
    · exact commutes_field fun _ _ => rfl
  · rw [hcodes, hcodes']
    exact .ok fun raw => .map _ fun files => hR ⟨raw.maxComplexity, [], files⟩

theorem agree_perFileIgnores (hkey : key ∈ ["per-file-ignores", "per_file_ignores"])
    (front rest : Toml.Entries) (file : String)
    (hR : ∀ (settings : Flake8Settings) (a b : FileIgnores), a.map Prod.fst = front.map Prod.fst →
      R { settings with perFileIgnores := a ++ (file, codesOf codes) :: b }
        { settings with perFileIgnores := a ++ (file, codesOf codes') :: b }) :
    Agree R (flake8 (.table (before ++ (key, .table (front ++ (file, value) :: rest)) :: after)))
      (flake8 (.table (before ++ (key, .table (front ++ (file, value') :: rest)) :: after))) := by
  have hfield : flake8Fields.find? (·.names.contains key)
      = some (field ["per-file-ignores", "per_file_ignores"] fileIgnores fun files s =>
          { s with perFileIgnores := some files }) := by
    simp only [List.mem_cons, List.not_mem_nil, or_false] at hkey
    obtain rfl | rfl := hkey <;> rfl
  refine agree_record hfield (fun f hf hne codes => ?_) {} before after ?_
  · simp only [flake8Fields, List.mem_cons, List.not_mem_nil, or_false] at hf
    obtain rfl | rfl | rfl := hf
    · exact commutes_field fun _ _ => rfl
    · exact commutes_field fun _ _ => rfl
    · exact absurd rfl hne
  · rw [fileIgnores_table front rest file hcodes, fileIgnores_table front rest file hcodes']
    cases hfront : front.mapM fileEntry with
    | error e => exact .error e
    | ok a =>
      cases rest.mapM fileEntry with
      | error e => exact .error e
      | ok b =>
        refine .ok fun raw => .ok ?_
        rw [List.map_append, List.map_append]
        refine hR ⟨raw.maxComplexity, extendIgnore raw.extendIgnore, []⟩ _ _ ?_
        rw [← map_fst_of_mapM_fileEntry hfront, List.map_map]
        rfl

end sections

/-! ### The same answers -/

/-- What an array and a string of the same entries ignore when they stand for all files. -/
structure AlikeEverywhere (entries : List String) (array string : Flake8Settings) : Prop where
  ofString : ∀ path code, string.ignores path code = true ↔
    { string with extendIgnore := [] }.ignores path code = true ∨ Covers entries code
  /-- A blank entry of the array ignores everything. -/
  ofArray : ∀ path code, array.ignores path code = true ↔
    string.ignores path code = true ∨ ∃ e ∈ entries, Blank e
  agree : (∀ e ∈ entries, ¬ Blank e) →
    ∀ path code, array.ignores path code = string.ignores path code

/-- What an array and a string of the same entries ignore when they stand for one file. -/
structure AlikeInFile (entries : List String) (file : String) (array string : Flake8Settings) :
    Prop where
  elsewhere : ∀ path code, path.fileName? ≠ some (Utf8.encode file) →
    array.ignores path code = string.ignores path code
  ofString : ∀ path code, path.fileName? = some (Utf8.encode file) →
    (string.ignores path code = true ↔
      { string with perFileIgnores := [] }.ignores path code = true ∨ Covers entries code)
  /-- The entries of the array are prefixes as they are, with the blanks in them. -/
  ofArray : ∀ path code, path.fileName? = some (Utf8.encode file) →
    (array.ignores path code = true ↔
      { string with perFileIgnores := [] }.ignores path code = true ∨
        ∃ e ∈ entries, e.toList <+: code.toList)
  agree : (∀ e ∈ entries, ¬ Blank e ∧ Trimmed e.toList) →
    ∀ path code, array.ignores path code = string.ignores path code

theorem alikeEverywhere (hcomma : ∀ e ∈ entries, ',' ∉ e.toList) (settings : Flake8Settings) :
    AlikeEverywhere entries { settings with extendIgnore := extendIgnore (some (.many entries)) }
      { settings with extendIgnore := extendIgnore (some (.one (",".intercalate entries))) } := by
  have hstring := fun path code => (settings.ignores_extendIgnore path code _).trans
    (or_congr_right (exists_mem_splitCodes_iff hcomma))
  have harray := fun path code => (settings.ignores_extendIgnore path code _).trans
    ((or_congr_right exists_mem_map_trimString_iff).trans
      (or_assoc.symm.trans (or_congr_left (hstring path code).symm)))
  refine ⟨hstring, harray, fun hblank path code => Bool.eq_iff_iff.2 ?_⟩
  refine (harray path code).trans (or_iff_left ?_)
  rintro ⟨e, he, h⟩
  exact hblank e he h

theorem alikeInFile (hcomma : ∀ e ∈ entries, ',' ∉ e.toList) (settings : Flake8Settings)
    {file : String} {a : FileIgnores} (hfile : file ∉ a.map Prod.fst) (b : FileIgnores) :
    AlikeInFile entries file
      { settings with perFileIgnores := a ++ (file, codesOf (.many entries)) :: b }
      { settings with
        perFileIgnores := a ++ (file, codesOf (.one (",".intercalate entries))) :: b } := by
  have hread : ∀ codes path code, path.fileName? = some (Utf8.encode file) →
      ({ settings with perFileIgnores := a ++ (file, codes) :: b }.ignores path code = true ↔
        { settings with perFileIgnores := [] }.ignores path code = true ∨
          ∃ lead ∈ codes, lead.toList <+: code.toList) := by
    intro codes path code hname
    have h := settings.ignores_perFileIgnores code (a ++ (file, codes) :: b) hname
    rwa [FileIgnores.codesFor_append_self hfile] at h
  have helsewhere : ∀ codes codes' path code, path.fileName? ≠ some (Utf8.encode file) →
      { settings with perFileIgnores := a ++ (file, codes) :: b }.ignores path code
        = { settings with perFileIgnores := a ++ (file, codes') :: b }.ignores path code := by
    intro codes codes' path code hname
    refine settings.ignores_perFileIgnores_congr code fun name h => ?_
    have hne : name ≠ file := by
      rintro rfl
      exact hname h
    rw [FileIgnores.codesFor_append_of_ne hne, FileIgnores.codesFor_append_of_ne hne]
  have hstring := fun path code hname => (hread _ path code hname).trans
    (or_congr_right (exists_mem_splitCodes_iff hcomma))
  refine ⟨helsewhere _ _, hstring, hread entries, fun htrimmed path code => ?_⟩
  by_cases hname : path.fileName? = some (Utf8.encode file)
  · rw [Bool.eq_iff_iff]
    exact (hread entries path code hname).trans
      ((or_congr_right (covers_iff_of_trimmed htrimmed).symm).trans (hstring path code hname).symm)
  · exact helsewhere _ _ path code hname

/-- **Spellings of a list of codes.**  An array and a string of the same entries are read or refused
alike, wherever they stand in a section.  The string ignores the codes that its entries cover, so
that a blank entry ignores nothing.  Read as codes that are ignored everywhere, the array ignores
the same as long as no entry is blank; for one file in a table, as long as no entry is blank or has
blanks at its ends. -/
theorem ignore_spellings (hcomma : ∀ e ∈ entries, ',' ∉ e.toList) (before after : Toml.Entries) :
    (∀ key ∈ ["extend-ignore", "extend_ignore"],
      Agree (AlikeEverywhere entries)
        (flake8 (.table (before ++ (key, listed entries) :: after)))
        (flake8 (.table (before ++ (key, joined entries) :: after)))) ∧
    ∀ key ∈ ["per-file-ignores", "per_file_ignores"],
      ∀ (front rest : Toml.Entries) (file : String), file ∉ front.map Prod.fst →
        Agree (AlikeInFile entries file)
          (flake8 (.table (before ++
            (key, .table (front ++ (file, listed entries) :: rest)) :: after)))
          (flake8 (.table (before ++
            (key, .table (front ++ (file, joined entries) :: rest)) :: after))) := by
  constructor
  · intro key hkey
    exact agree_extendIgnore (oneOrMany_listed entries) rfl before after hkey
      (alikeEverywhere hcomma)
  · intro key hkey front rest file hfile
    refine agree_perFileIgnores (oneOrMany_listed entries) rfl before after hkey front rest file ?_
    intro settings a b hnames
    exact alikeInFile hcomma settings (hnames ▸ hfile) b

/-- Padded entries, as an array and as a string. -/
theorem ignore_spellings_sample :
    ∃ array string,
      flake8 (.table [("extend-ignore", listed ["E501", " W6 "])]) = .ok array ∧
      flake8 (.table [("extend-ignore", joined ["E501", " W6 "])]) = .ok string ∧
      ∀ path code, array.ignores path code = string.ignores path code := by
  have hcomma : ∀ e ∈ ["E501", " W6 "], ',' ∉ e.toList := by decide
  have hblank : ∀ e ∈ ["E501", " W6 "], ¬ Blank e := by decide
  have h := (ignore_spellings hcomma [] []).1 "extend-ignore" (by simp)
  have harray : flake8 (.table [("extend-ignore", listed ["E501", " W6 "])])
      = .ok { extendIgnore := ["E501", "W6"] } := rfl
  have hstring : flake8 (.table [("extend-ignore", joined ["E501", " W6 "])])
      = .ok { extendIgnore := ["E501", "W6"] } := rfl
  refine ⟨_, _, harray, hstring, ?_⟩
  rw [List.nil_append, List.nil_append, harray, hstring] at h
  cases h with
  | ok h => exact h.agree hblank

/-- A blank entry of an array ignores every code, in all files or in one, while in a string it
ignores none. -/
theorem blank_ignores_all :
    ∃ array string array' string',
      flake8 (.table [("extend-ignore", listed [""])]) = .ok array ∧
      flake8 (.table [("extend-ignore", joined [""])]) = .ok string ∧
      flake8 (.table [("per-file-ignores", .table [("a.py", listed [""])])]) = .ok array' ∧
      flake8 (.table [("per-file-ignores", .table [("a.py", joined [""])])]) = .ok string' ∧
      array.ignores (.ofString "a.py") "E501" = true ∧
      string.ignores (.ofString "a.py") "E501" = false ∧
      array'.ignores (.ofString "a.py") "E501" = true ∧
      string'.ignores (.ofString "a.py") "E501" = false := by
  refine ⟨{ extendIgnore := [""] }, {}, { perFileIgnores := [("a.py", [""])] },
    { perFileIgnores := [("a.py", [])] }, ?_, ?_, ?_, ?_, ?_, ?_, ?_, ?_⟩ <;> rfl

end Settings

end CodeTidy
