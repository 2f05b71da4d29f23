import CodeTidy.Proofs.Discovery.Targets
import CodeTidy.Proofs.Glob.Literal
import CodeTidy.Proofs.Results
import CodeTidy.Proofs.Text.Words

/-!
# Exactly what is discovered

Without ignore files it is the names on the way to a file that decide: none of the directories
below the root may have an ignored name, and no exclude entry may match (`Discoverer.Listed`).  An
entry without metacharacters matches what it names and what is below that (`excludes_literal_iff`).
Discovery gives these files as far as the filter accepts them, in order and each once
(`Discoverer.discover_exact`).
-/

namespace CodeTidy

/-! ### Names between slashes -/

namespace IgnoreRules

theorem relative_append : ∀ {above below : Location}, above ≠ [] → below ≠ [] →
    relative (above ++ below) = relative above ++ Path.slash :: relative below
  | [], _, hne, _ => absurd rfl hne
  | [name], below, _, hne => by
    rw [relative, relative, relative, List.singleton_append, List.intercalate_cons_of_ne_nil hne,
      List.intercalate_singleton, List.append_assoc, List.singleton_append]
  | name :: next :: above, below, _, hne => by
    have ih := relative_append (List.cons_ne_nil next above) hne
    rw [relative] at ih
    rw [List.cons_append, relative, List.cons_append, List.intercalate_cons_cons,
      ← List.cons_append, ih, relative.eq_def (name :: next :: above), List.intercalate_cons_cons,
      List.append_assoc, List.append_assoc, List.append_assoc, relative]

/-- **What goes on after names and a slash is below these names**, and nothing else is. -/
theorem relative_iff_prefix {names : Location} (hnames : ∀ name ∈ names, IsName name) {b : Bytes}
    (hb : b ≠ []) :
    (relative names = b ∨ ∃ rest, relative names = b ++ Path.slash :: rest) ↔
      ∃ above, relative above = b ∧ above <+: names := by
  constructor
  · rintro (h | ⟨rest, h⟩)
    · exact ⟨names, h, List.prefix_rfl⟩
    · have hne : names ≠ [] := by
        rintro rfl
        exact List.append_ne_nil_of_left_ne_nil hb _ h.symm
      -- there are no slashes in names, so splitting at slashes gives the names back
      have hsplit := congrArg (List.splitOn Path.slash) h
      rw [relative, List.splitOn_intercalate _ (fun name hn => (hnames name hn).notMem) hne,
        List.splitOn_append_cons_self] at hsplit
      exact ⟨b.splitOn Path.slash, List.intercalate_splitOn Path.slash, _, hsplit.symm⟩
  · rintro ⟨above, rfl, below, rfl⟩
    have habove : above ≠ [] := by
      rintro rfl
      exact hb rfl
    by_cases hbelow : below = []
    · exact .inl (by rw [hbelow, List.append_nil])
    · exact .inr ⟨_, relative_append habove hbelow⟩

theorem isIgnored_nil (l : Location) (isDir : Bool) : isIgnored [] l isDir = false := by
  have hverdict : ∀ kind steps, kindVerdict? [] kind isDir l steps = none := by
    intro kind steps
    induction steps with
    | zero => rfl
    | succ steps ih =>
      rw [kindVerdict?, ih]
      rfl
  simp [isIgnored, hverdict, IgnoreKind.all]

end IgnoreRules

/-! ### Exclude entries -/

/-- An exclude entry, expanded, matches the path of names below the root. -/
def Excludes (entry : String) (names : Location) : Prop :=
  ∃ pattern ∈ expandPattern entry,
    Glob.Matches excludeOptions pattern.toList (IgnoreRules.relative names)

/-- What an exclude entry names: slashes at its end say nothing. -/
def namedBy (entry : String) : String :=
  String.ofList (Text.dropEndWhile (· == '/') entry.toList)

theorem mem_parsePatterns {g : Glob} : ∀ {patterns : List String} {globs : List Glob},
    parsePatterns patterns = .ok globs →
      (g ∈ globs ↔ ∃ p ∈ patterns, Glob.parse excludeOptions p.toList = .ok g)
  | [], globs, h => by
    obtain rfl := Except.ok.inj h
    simp
  | p :: ps, globs, h => by
    rw [parsePatterns] at h
    cases hp : Glob.parse excludeOptions p.toList with
    | error e => simp [hp] at h
    | ok first =>
      simp only [hp] at h
      cases hps : parsePatterns ps with
      | error e => simp [hps, Except.map] at h
      | ok rest =>
        rw [hps] at h
        obtain rfl := Except.ok.inj h
        rw [List.mem_cons, mem_parsePatterns hps]
        simp [hp, eq_comm]

/-- **An entry without metacharacters excludes what it names and what is below that**, and so not
what merely begins like it. -/
theorem excludes_literal_iff {entry : String} (hentry : Glob.IsLiteral entry.toList)
    (hne : namedBy entry ≠ "") {names : Location} (hnames : ∀ name ∈ names, IsName name) :
    Excludes entry names ↔
      ∃ above, IgnoreRules.relative above = Utf8.encode (namedBy entry) ∧ above <+: names := by
  have hplain : ¬ (entry.toList.any fun c => c == '*' || c == '?' || c == '[') = true := by
    intro h
    obtain ⟨c, hc, hmeta⟩ := List.any_eq_true.1 h
    refine hentry c hc ?_
    simp only [Bool.or_eq_true, beq_iff_eq] at hmeta
    obtain (rfl | rfl) | rfl := hmeta <;> decide
  have hbase : Glob.IsLiteral (Text.dropEndWhile (· == '/') entry.toList) := by
    obtain ⟨slashes, hslashes, -⟩ := Text.exists_dropEndWhile_append (· == '/') entry.toList
    intro c hc
    exact hentry c (hslashes ▸ List.mem_append_left _ hc)
  rw [← IgnoreRules.relative_iff_prefix hnames (Utf8.encode_ne_nil hne)]
  unfold Excludes expandPattern
  rw [if_neg hplain]
  simp only [List.mem_cons, List.not_mem_nil, or_false, exists_eq_or_imp, exists_eq_left,
    String.toList_ofList]
  exact or_congr (Glob.matches_literal_iff hbase) (Glob.matches_below_iff hbase)

namespace Discoverer

variable {d : Discoverer} {t : FileTree} {cwd base names : Location} {root p : Path}
  {filter : FileFilter} {exclude : List String}

/-! ### What is below the root -/

/-- What is listed below a root without ignore files: a file that no entry excludes, and that is in
no directory of an ignored name, whatever its own name is. -/
structure Listed (exclude : List String) (t : FileTree) (base names : Location) : Prop where
  ne_nil : names ≠ []
  file : ∃ content executable, t.get? (base ++ names) = some (.file content executable)
  entered : ∀ name ∈ names.dropLast, name ∉ ignoredDirectories.map Utf8.encode
  kept : ∀ entry ∈ exclude, ¬ Excludes entry names

theorem enters_take_iff {i : Nat} (h : i < names.length) :
    enters [] base (names.take (i + 1)) = true ↔
      names[i] ∉ ignoredDirectories.map Utf8.encode := by
  have hlast : (names.take (i + 1)).getLast? = some names[i] := by
    rw [List.getLast?_take, if_neg (Nat.succ_ne_zero i), Nat.add_sub_cancel,
      List.getElem?_eq_getElem h]
    rfl
  rw [enters, hlast, IgnoreRules.isIgnored_nil]
  simp

/-- A walk without ignore files turns back at ignored names only. -/
theorem reaches_nil_iff :
    reaches [] base names = true ↔
      ∀ name ∈ names.dropLast, name ∉ ignoredDirectories.map Utf8.encode := by
  -- the directories on the way are the beginnings of the names, neither empty nor all of them
  have hrange : (List.range names.length).drop 1
      = (List.range names.dropLast.length).map (· + 1) := by
    rw [List.length_dropLast]
    cases names.length with
    | zero => rfl
    | succ n =>
      rw [List.range_succ_eq_map]
      rfl
  have hlt : ∀ {i}, i < names.dropLast.length → i < names.length := fun {i} hi => by
    rw [List.length_dropLast] at hi
    omega
  rw [reaches, IgnoreRules.isIgnored_nil, Bool.not_false, Bool.and_true, hrange, List.all_map,
    List.all_eq_true]
  simp only [List.mem_range, Function.comp_apply]
  constructor
  · intro h name hname
    obtain ⟨i, hi, rfl⟩ := List.getElem_of_mem hname
    rw [List.getElem_dropLast]
    exact (enters_take_iff (hlt hi)).1 (h i hi)
  · intro h i hi
    rw [enters_take_iff (hlt hi), ← List.getElem_dropLast hi]
    exact h _ (List.getElem_mem hi)

theorem isExcluded_iff (hd : ofPatterns exclude false = .ok d) :
    d.isExcluded names = true ↔ ∃ entry ∈ exclude, Excludes entry names := by
  obtain ⟨globs, hglobs, rfl⟩ := map_eq_ok.1 hd
  rw [isExcluded, List.any_eq_true]
  simp only [mem_parsePatterns hglobs, List.mem_flatMap, Excludes, Glob.Matches]
  constructor
  · rintro ⟨g, ⟨pattern, ⟨entry, he, hp⟩, hg⟩, hmatch⟩
    exact ⟨entry, he, pattern, hp, g, hg, hmatch⟩
  · rintro ⟨entry, he, pattern, hp, g, hg, hmatch⟩
    exact ⟨g, ⟨pattern, ⟨entry, he, hp⟩, hg⟩, hmatch⟩

theorem namesBelow?_file (base : Location) (hne : names ≠ []) (content : Bytes)
    (executable : Bool) :
    namesBelow? base (base ++ names, .file content executable) = some names := by
  have hlength : 0 < names.length := List.length_pos_iff.2 hne
  simp [namesBelow?, hlength]

theorem mem_candidates_iff (hd : ofPatterns exclude false = .ok d) :
    p ∈ d.candidates t root base ↔
      ∃ names, Listed exclude t base names ∧ p = names.foldl Path.join root := by
  have hrules : d.rulesFor t = [] := by
    obtain ⟨globs, -, rfl⟩ := map_eq_ok.1 hd
    rfl
  have hpasses : ∀ names, (reaches [] base names && !d.isExcluded names) = true ↔
      (∀ name ∈ names.dropLast, name ∉ ignoredDirectories.map Utf8.encode) ∧
        ∀ entry ∈ exclude, ¬ Excludes entry names := by
    intro names
    rw [Bool.and_eq_true, reaches_nil_iff, Bool.not_eq_true', ← Bool.not_eq_true, isExcluded_iff hd]
    simp only [not_exists, not_and]
  rw [candidates, hrules, List.mem_map]
  constructor
  · rintro ⟨names, hnames, rfl⟩
    obtain ⟨hbelow, hpass⟩ := List.mem_filter.1 hnames
    obtain ⟨entered, kept⟩ := (hpasses names).1 hpass
    obtain ⟨⟨k, e⟩, he, hnames⟩ := List.mem_filterMap.1 hbelow
    obtain ⟨hne, rfl, content, executable, rfl⟩ := namesBelow?_eq_some hnames
    exact ⟨names, ⟨hne, ⟨content, executable, FileTree.get?_of_mem he⟩, entered, kept⟩, rfl⟩
  · rintro ⟨names, h, rfl⟩
    obtain ⟨content, executable, hfile⟩ := h.file
    have hmem := FileTree.mem_of_get? (List.append_ne_nil_of_right_ne_nil base h.ne_nil) hfile
    refine ⟨names, List.mem_filter.2 ⟨?_, (hpasses names).2 ⟨h.entered, h.kept⟩⟩, rfl⟩
    exact List.mem_filterMap.2 ⟨_, hmem, namesBelow?_file base h.ne_nil content executable⟩

/-- **Discovery is exact.**  Without ignore files it gives the files below a directory that the
filter accepts, in strictly increasing order, apart from those in directories of ignored names and
those that an exclude entry matches.  An entry without metacharacters matches what it names and what
is below that, and so nothing that merely begins like it. -/
theorem discover_exact (hd : ofPatterns exclude false = .ok d)
    (hroot : t.resolve cwd root = .ok base) (hdir : t.get? base = some .dir)
    (filter : FileFilter) :
    (∃ paths, d.discover t cwd root filter = .ok paths ∧ paths.Pairwise Path.Precedes ∧
      ∀ p, p ∈ paths ↔ (∃ names, Listed exclude t base names ∧ p = names.foldl Path.join root) ∧
        filter.accepts t cwd p = true) ∧
    ∀ entry, Glob.IsLiteral entry.toList → namedBy entry ≠ "" →
      ∀ names : Location, (∀ name ∈ names, IsName name) →
        (Excludes entry names ↔
          ∃ above, IgnoreRules.relative above = Utf8.encode (namedBy entry) ∧ above <+: names) := by
  have hdiscover := discover_eq_filesBelow hroot hdir d filter
  refine ⟨⟨_, hdiscover, pairwise_discover hdiscover, fun p => ?_⟩,
    fun entry hentry hne names hnames => excludes_literal_iff hentry hne hnames⟩
  rw [mem_filesBelow_iff, mem_candidates_iff hd]

/-! A directory that is excluded beside a file that is named like it, a directory with an ignored
name, and a file with one. -/

def mixedTree : FileTree :=
  ⟨[([Utf8.encode "build"], .dir),
    ([Utf8.encode "build", Utf8.encode "b.py"], .file [] false),
    ([Utf8.encode "build2"], .file [] false),
    ([Utf8.encode "venv"], .dir),
    ([Utf8.encode "venv", Utf8.encode "v.py"], .file [] false),
    ([Utf8.encode "src"], .dir),
    ([Utf8.encode "src", Utf8.encode "env"], .file [] false),
    ([Utf8.encode "src", Utf8.encode "image"], .file [0] false)], by decide⟩

theorem discover_exact_mixed :
    ∃ d, ofPatterns ["build/"] false = .ok d ∧
      d.discover mixedTree [] (.ofString ".") .text
        = .ok [.ofString "./build2", .ofString "./src/env"] ∧
      (∃ names, Listed ["build/"] mixedTree [] names ∧
        Path.ofString "./src/env" = names.foldl Path.join (.ofString ".")) ∧
      ¬ ∃ names, Listed ["build/"] mixedTree [] names ∧
        Path.ofString "./build/b.py" = names.foldl Path.join (.ofString ".") := by
  have hd : ofPatterns ["build/"] false
      = .ok ⟨[⟨"build".toList.map .literal, false⟩,
          ⟨"build".toList.map .literal ++ [.anyBelow], false⟩], false⟩ := rfl
  have hroot : mixedTree.resolve [] (.ofString ".") = .ok [] := by
    rfl
  obtain ⟨⟨paths, hpaths, -, hmem⟩, -⟩ :=
    discover_exact hd hroot rfl .text
  have hlisted : paths = [.ofString "./build2", .ofString "./src/env"] := by
    refine Except.ok.inj (hpaths.symm.trans (discover_eq_of_perm hroot rfl ?_ ?_))
    · decide
    · decide +kernel
  refine ⟨_, hd, hlisted ▸ hpaths, ((hmem _).1 (by simp [hlisted])).1, fun h => ?_⟩
  have hin := (hmem (.ofString "./build/b.py")).2 ⟨h, rfl⟩
  rw [hlisted] at hin
  exact absurd hin (by decide)

end Discoverer

end CodeTidy
