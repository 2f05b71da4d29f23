import CodeTidy.Proofs.Settings.Nearest
import CodeTidy.Proofs.Settings.UnknownKeys
import CodeTidy.Proofs.Text.Words
import CodeTidy.Proofs.Toml.Reading
import CodeTidy.Proofs.Toml.Statements
import Mathlib.Data.List.Infix

/-!
# The section of a project file

A project file counts when its text has the mark of the section somewhere.  The section itself is a
table of the document, however it is written (`HasSection`).  A statement that begins with the mark,
and goes on with no further character of the name, is a header of the section or of something in it
(`exists_header`).  So the two agree where the mark is written for headers only, and some header of
the section is written with it; they part where the section is spelled in another way, or where the
mark stands in a comment, in a string or in the name of another section (`project_file_test`).
-/

namespace CodeTidy

open Text
open Toml (isBareChar readHeader? readKey? readPart? readStatement? skipSpaces)

variable {s rest : List Char}

/-! ### Headers -/

def sectionPath : List String :=
  ["tool", "colint"]

/-- A text goes on with no character of a name without quotes. -/
def EndsName (rest : List Char) : Prop :=
  rest.head?.all (!isBareChar ·) = true

instance (rest : List Char) : Decidable (EndsName rest) :=
  inferInstanceAs (Decidable (_ = true))

theorem readPart?_bare (word : List Char) (hword : word ≠ []) (hbare : word.all isBareChar = true)
    (hrest : EndsName rest) : readPart? (word ++ rest) = some (String.ofList word, rest) := by
  rw [List.all_eq_true] at hbare
  have hend : ∀ c, rest.head? = some c → isBareChar c = false := by
    intro c hc
    simpa [EndsName, hc] using hrest
  have htake := takeWhile_append_of_head hbare hend
  have hdrop := dropWhile_append_of_head hbare hend
  obtain ⟨c, cs, rfl⟩ := List.exists_cons_of_ne_nil hword
  have hc := hbare c List.mem_cons_self
  unfold readPart?
  split
  case h_5 =>
    rw [htake, hdrop]
    rfl
  -- any other part begins with a quote, which is no character of a word
  all_goals
    rename_i heq
    exact absurd ((List.cons.inj heq).1 ▸ hc) (by decide)

/-- A key that begins with the name of the section leads to the section or into it. -/
theorem prefix_of_readKey? {fuel : Nat} {key : List String × String}
    {r : List Char} (hrest : EndsName rest)
    (h : readKey? (fuel + 2) ("tool.colint".toList ++ rest) = some (key, r)) :
    sectionPath <+: key.1 ++ [key.2] := by
  have htool : readPart? (skipSpaces ("tool.colint".toList ++ rest))
      = some ("tool", '.' :: ("colint".toList ++ rest)) :=
    readPart?_bare "tool".toList (by decide) (by decide) rfl
  have hcolint : readPart? (skipSpaces ("colint".toList ++ rest)) = some ("colint", rest) :=
    readPart?_bare "colint".toList (by decide) (by decide) hrest
  rw [readKey?, htool] at h
  have h : (readKey? (fuel + 1) ("colint".toList ++ rest)).bind
      (fun x => some (("tool" :: x.1.1, x.1.2), x.2)) = some (key, r) := h
  obtain ⟨⟨⟨path, last⟩, r'⟩, hkey, h⟩ := Option.bind_eq_some_iff.1 h
  obtain ⟨rfl, -⟩ := Prod.mk.inj (Option.some.inj h)
  refine List.cons_prefix_cons.2 ⟨rfl, ?_⟩
  rw [readKey?, hcolint] at hkey
  simp only [Option.bind_eq_bind, Option.bind_some] at hkey
  split at hkey
  · obtain ⟨⟨⟨path', last'⟩, r''⟩, -, hkey⟩ := Option.bind_eq_some_iff.1 hkey
    obtain ⟨hkey, -⟩ := Prod.mk.inj (Option.some.inj hkey)
    obtain ⟨rfl, rfl⟩ := Prod.mk.inj hkey
    exact List.cons_prefix_cons.2 ⟨rfl, List.nil_prefix⟩
  · obtain ⟨hkey, -⟩ := Prod.mk.inj (Option.some.inj hkey)
    obtain ⟨rfl, rfl⟩ := Prod.mk.inj hkey
    exact List.prefix_rfl

/-- A text begins with the mark, and the name in it ends there. -/
def BeginsSection (s : List Char) : Prop :=
  sectionMark.toList <+: s ∧ EndsName (s.drop sectionMark.toList.length)

instance (s : List Char) : Decidable (BeginsSection s) :=
  inferInstanceAs (Decidable (_ ∧ _))

/-- Whatever begins with the mark, perhaps after one more bracket, is a header that leads to the
section or into it. -/
theorem exists_header {statement : Toml.Statement} {r : List Char} (hs : BeginsSection s)
    (h : readStatement? s = some (statement, r) ∨ readStatement? ('[' :: s) = some (statement, r)) :
    ∃ path key, sectionPath <+: path ++ [key] ∧
      (statement = .table path key ∨ statement = .element path key) := by
  obtain ⟨⟨rest, rfl⟩, hrest⟩ := hs
  rw [List.drop_left] at hrest
  have hheader {close : List Char} {key : List String × String} {r : List Char}
      (h : readHeader? close ("tool.colint".toList ++ rest) = some (key, r)) :
      sectionPath <+: key.1 ++ [key.2] := by
    obtain ⟨⟨key', r'⟩, hkey, h⟩ := Option.bind_eq_some_iff.1 h
    have hbegin := prefix_of_readKey? hrest hkey
    dsimp only at h
    split at h
    · obtain ⟨rfl, -⟩ := Prod.mk.inj (Option.some.inj h)
      exact hbegin
    · nomatch h
  rcases h with h | h
  · obtain ⟨⟨key, r'⟩, hkey, h⟩ := Option.bind_eq_some_iff.1 h
    obtain ⟨r'', -, h⟩ := Option.bind_eq_some_iff.1 h
    obtain ⟨rfl, -⟩ := Prod.mk.inj (Option.some.inj h)
    exact ⟨key.1, key.2, hheader hkey, .inl rfl⟩
  · obtain ⟨⟨key, r'⟩, hkey, h⟩ := Option.bind_eq_some_iff.1 h
    obtain ⟨r'', -, h⟩ := Option.bind_eq_some_iff.1 h
    obtain ⟨rfl, -⟩ := Prod.mk.inj (Option.some.inj h)
    exact ⟨key.1, key.2, hheader hkey, .inr rfl⟩

/-! ### The section -/

/-- The document has the section: a table of its name among the tables of the tools. -/
def HasSection (document : Toml.Entries) : Prop :=
  ∃ tool entries, document.tableAt "tool" = some tool ∧ tool.tableAt "colint" = some entries

instance (document : Toml.Entries) : Decidable (HasSection document) :=
  decidable_of_iff ((document.tableAt "tool" >>= (·.tableAt "colint")).isSome = true) <| by
    simp [HasSection, Option.isSome_iff_exists, Option.bind_eq_some_iff, exists_comm]

theorem hasSection_iff {document : Toml.Entries} : HasSection document ↔
    ∃ entries, Toml.get? sectionPath (.table document) = some (.table entries) := by
  have hget (entries : Toml.Entries) (key : String) (table : Toml.Entries) :
      entries.tableAt key = some table ↔ entries.lookup key = some (.table table) := by
    unfold Toml.Entries.tableAt
    cases entries.lookup key with
    | none => simp
    | some value => cases value <;> simp [Toml.table?]
  unfold HasSection sectionPath
  simp only [hget, Toml.get?]
  constructor
  · rintro ⟨tool, entries, htool, hentries⟩
    exact ⟨entries, by rw [htool, Option.bind_some, Toml.get?, hentries]; rfl⟩
  · rintro ⟨entries, h⟩
    obtain ⟨tool, htool, h⟩ := Option.bind_eq_some_iff.1 h
    cases tool with
    | table tool =>
      obtain ⟨value, hvalue, h⟩ := Option.bind_eq_some_iff.1 h
      obtain rfl := Option.some.inj h
      exact ⟨tool, entries, htool, hvalue⟩
    | _ => simp [Toml.get?] at h

/-- A statement is a header that begins with the mark here, perhaps after one more bracket. -/
def IsHeaderAt (s : List Char) (e : List Char × Toml.Statement) : Prop :=
  BeginsSection s ∧ (e.1 = s ∨ e.1 = '[' :: s)

instance (s : List Char) (e : List Char × Toml.Statement) : Decidable (IsHeaderAt s e) :=
  inferInstanceAs (Decidable (_ ∧ _))

/-- The mark stands nowhere but at the headers of the section, and what makes the section there has
such a header too.  The statements are `located` with the text that begins with them. -/
structure Conventional (text : List Char) (located : List (List Char × Toml.Statement)) : Prop where
  headers : ∀ s ∈ text.tails, sectionMark.toList <+: s → ∃ e ∈ located, IsHeaderAt s e
  marked : (∃ statement ∈ Toml.absolute [] (located.map Prod.snd), statement.Makes sectionPath) →
    ∃ s, ∃ e ∈ located, IsHeaderAt s e
  single : ∀ statement ∈ Toml.absolute [] (located.map Prod.snd), ¬ statement.Arrays sectionPath

theorem Conventional.infix_iff {text : List Char} {located : List (List Char × Toml.Statement)}
    (h : Conventional text located) (hlocated : Toml.located? text = some located) :
    sectionMark.toList <:+: text ↔
      ∃ statement ∈ Toml.absolute [] (located.map Prod.snd), statement.Makes sectionPath := by
  constructor
  · intro hinfix
    obtain ⟨s, hbegin, hsuffix⟩ := List.infix_iff_prefix_suffix.1 hinfix
    obtain ⟨e, he, hbegins, hs⟩ := h.headers s ((List.mem_tails _ _).2 hsuffix) hbegin
    obtain ⟨rest, hread⟩ := (Toml.read_of_mem_located hlocated he).2
    obtain ⟨path, key, hpath, hstatement⟩ := exists_header hbegins
      (hs.imp (fun hs => hs ▸ hread) fun hs => hs ▸ hread)
    have hmem : e.2 ∈ Toml.absolute [] (located.map Prod.snd) :=
      Toml.mem_absolute (by rcases hstatement with h | h <;> simp [h])
        (List.mem_map.2 ⟨e, he, rfl⟩)
    refine ⟨e.2, hmem, ?_⟩
    rcases hstatement with htable | helement
    · exact htable ▸ .table hpath
    · -- the array is something in the section, because it is not the section itself
      rw [helement]
      refine .element (Toml.Statement.prefix_of_prefix_target hpath fun heq => ?_)
      exact h.single _ hmem (helement ▸ .element (heq ▸ List.prefix_rfl))
  · intro hmakes
    obtain ⟨s, e, he, ⟨hbegin, -⟩, hs⟩ := h.marked hmakes
    have hsuffix : s <:+ e.1 := hs.elim (fun hs => hs ▸ List.suffix_rfl)
      fun hs => hs ▸ List.suffix_cons _ _
    exact hbegin.isInfix.trans
      (hsuffix.trans (Toml.read_of_mem_located hlocated he).1).isInfix

/-- **The test of a project file and its document.**  A project file that is read counts exactly when
the mark stands somewhere in its text.  Its document has the section exactly when a statement makes
it and no statement has an array of tables in its place.  The two agree for a conventional text. -/
theorem project_file_test {t : FileTree} {l : Location} {text : String} {document : Toml.Entries}
    {content : Bytes} {executable : Bool}
    (hfile : t.stat [] (l.pathOf projectFileName) = .ok (.file content executable))
    (hread : t.readText [] (l.pathOf projectFileName) = .ok text)
    (hdocument : Toml.parse? text.toList = some document) :
    ∃ located, Toml.located? text.toList = some located ∧
      (holdsSettings t l projectFileName = true ↔ sectionMark.toList <:+: text.toList) ∧
      (HasSection document ↔
        (∃ statement ∈ Toml.absolute [] (located.map Prod.snd), statement.Makes sectionPath) ∧
          ∀ statement ∈ Toml.absolute [] (located.map Prod.snd), ¬ statement.Arrays sectionPath) ∧
      (Conventional text.toList located →
        (holdsSettings t l projectFileName = true ↔ HasSection document)) := by
  obtain ⟨located, nodes, hlocated, hbuild, rfl⟩ := Toml.parse?_eq_some_iff.1 hdocument
  have htest : holdsSettings t l projectFileName = true ↔
      sectionMark.toList <:+: text.toList := by
    rw [holdsSettings_iff (by decide)]
    constructor
    · intro h
      obtain ⟨text', htext', hmarked⟩ := h.marked rfl
      rw [hread] at htext'
      exact Except.ok.inj htext' ▸ hmarked
    · exact fun h => ⟨by decide, ⟨content, executable, hfile⟩, fun _ => ⟨text, hread, h⟩⟩
  have hsection := hasSection_iff.trans
    (Toml.get?_toEntries_iff (p := sectionPath) (by decide) hbuild)
  refine ⟨located, hlocated, htest, hsection, fun h => ?_⟩
  rw [htest, hsection, h.infix_iff hlocated, and_iff_left h.single]

/-- A directory with nothing but a project file. -/
def projectTree (text : String) : FileTree :=
  ⟨[([Utf8.encode projectFileName], .file (Utf8.encode text) false)], .single (by decide) _⟩

/-- A text with a header of the section. -/
def plainProject : String :=
  "[build]\n[tool.colint]\ntimeout = 3\n"

theorem project_file_test_plain :
    ∃ document, Toml.parse? plainProject.toList = some document ∧
      (holdsSettings (projectTree plainProject) [] projectFileName = true ↔
        HasSection document) := by
  have hparsed : (Toml.parse? plainProject.toList).isSome = true := by decide +kernel
  obtain ⟨document, hdocument⟩ := Option.isSome_iff_exists.1 hparsed
  obtain ⟨located, hlocated, -, -, hagree⟩ :=
    project_file_test (t := projectTree plainProject) (l := []) rfl rfl hdocument
  obtain ⟨located', hlocated', hheaders, ⟨e, he, hbegins⟩, hsingle⟩ :
      ∃ located ∈ Toml.located? plainProject.toList,
        (∀ s ∈ plainProject.toList.tails, sectionMark.toList <+: s →
          ∃ e ∈ located, IsHeaderAt s e) ∧
        (∃ e ∈ located, BeginsSection e.1) ∧
        ∀ statement ∈ Toml.absolute [] (located.map Prod.snd), ¬ statement.Arrays sectionPath := by
    decide +kernel
  obtain rfl := Option.some.inj (hlocated'.symm.trans hlocated)
  have hconventional : Conventional plainProject.toList located' :=
    ⟨hheaders, fun _ => ⟨e.1, e, he, hbegins, .inl rfl⟩, hsingle⟩
  exact ⟨document, hdocument, hagree hconventional⟩

/-- The section by a dotted key is missed, and a section whose name only begins alike is taken for
it. -/
theorem project_file_test_misled :
    ((Toml.parse? "tool.colint.timeout = 3\n".toList).any (HasSection ·) = true ∧
      holdsSettings (projectTree "tool.colint.timeout = 3\n") [] projectFileName = false) ∧
    ((Toml.parse? "[tool.colintx]\ny = 1\n".toList).any (¬ HasSection ·) = true ∧
      holdsSettings (projectTree "[tool.colintx]\ny = 1\n") [] projectFileName = true) := by
  refine ⟨⟨by decide +kernel, by decide +kernel⟩, by decide +kernel, by decide +kernel⟩

end CodeTidy
