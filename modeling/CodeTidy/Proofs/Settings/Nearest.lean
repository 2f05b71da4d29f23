import CodeTidy.Proofs.Host.Absolute
import CodeTidy.Settings.Search

/-!
# The nearest settings file

A search looks into a directory, the one above it, and so on, up to the top of a repository or the
root of the tree, and into a hundred directories at most (`IsLast`).  It gives the strongest
candidate of the first directory that has one (`Nearest`, `nearest_settings`).  What the search finds
under the names that it asks for decides the result, so nothing else does, and nothing above the last
directory.
-/

namespace CodeTidy

variable {t t' : FileTree} {l : Location} {i k n : Nat} {name : String} {r r' : Option Path}
  {boundary : Location → Prop}

/-! ### Directories above a location -/

/-- The directory so many steps above. -/
def Location.above (l : Location) (i : Nat) : Location :=
  l.take (l.length - i)

@[simp]
theorem Location.above_zero (l : Location) : l.above 0 = l := by
  simp [above]

theorem Location.above_dropLast (l : Location) (i : Nat) :
    Location.above l.dropLast i = l.above (i + 1) := by
  rw [above, above, List.length_dropLast, List.dropLast_eq_take, List.take_take]
  congr 1
  omega

/-- The last of the directories that are searched, at most `k` of them, counted from the first one
upwards: the first boundary, the root, or the last that there is still time for. -/
structure IsLast (boundary : Location → Prop) (k : Nat) (l : Location) (n : Nat) : Prop where
  within : n ≤ l.length
  bounded : n < k
  passed : ∀ i < n, ¬ boundary (l.above i)
  stops : boundary (l.above n) ∨ n = l.length ∨ n + 1 = k

theorem IsLast.unique {m : Nat} (h : IsLast boundary k l n) (h' : IsLast boundary k l m) :
    n = m := by
  have hle : ∀ {n m}, IsLast boundary k l n → IsLast boundary k l m → ¬ n < m := by
    intro n m h h' hlt
    rcases h.stops with hb | hroot | hk
    · exact h'.passed n hlt hb
    · exact absurd h'.within (by omega)
    · exact absurd h'.bounded (by omega)
  exact Nat.le_antisymm (Nat.not_lt.1 (hle h' h)) (Nat.not_lt.1 (hle h h'))

theorem IsLast.succ (hb : ¬ boundary l) (hl : l ≠ []) (h : IsLast boundary k l.dropLast n) :
    IsLast boundary (k + 1) l (n + 1) where
  within := by
    have hw := h.within
    have hpos := List.length_pos_iff.2 hl
    rw [List.length_dropLast] at hw
    omega
  bounded := Nat.succ_lt_succ h.bounded
  passed := by
    intro i hi
    cases i with
    | zero => rwa [Location.above_zero]
    | succ i =>
      rw [← Location.above_dropLast]
      exact h.passed i (Nat.lt_of_succ_lt_succ hi)
  stops := by
    rw [← Location.above_dropLast]
    have hpos := List.length_pos_iff.2 hl
    rcases h.stops with hb | hroot | hk
    · exact .inl hb
    · refine .inr (.inl ?_)
      rw [List.length_dropLast] at hroot
      omega
    · exact .inr (.inr (congrArg (· + 1) hk))

theorem exists_isLast (boundary : Location → Prop) :
    ∀ {k : Nat} (l : Location), 0 < k → ∃ n, IsLast boundary k l n
  | 0, _, h => absurd h (Nat.lt_irrefl 0)
  | k + 1, l, _ => by
    by_cases hstop : boundary l ∨ l = [] ∨ k = 0
    · refine ⟨0, Nat.zero_le _, Nat.succ_pos k, by simp, ?_⟩
      rw [Location.above_zero]
      rcases hstop with hb | rfl | rfl
      · exact .inl hb
      · exact .inr (.inl rfl)
      · exact .inr (.inr rfl)
    · simp only [not_or] at hstop
      obtain ⟨hb, hl, hk⟩ := hstop
      obtain ⟨n, h⟩ := exists_isLast boundary l.dropLast (Nat.pos_of_ne_zero hk)
      exact ⟨n + 1, h.succ hb hl⟩

/-- Where a search goes on, its last directory is that of the search from the directory above. -/
theorem IsLast.exists_pred (h : IsLast boundary (k + 2) l n) (hb : ¬ boundary l) (hl : l ≠ []) :
    ∃ m, n = m + 1 ∧ IsLast boundary (k + 1) l.dropLast m := by
  obtain ⟨m, hm⟩ := exists_isLast boundary l.dropLast (Nat.succ_pos k)
  exact ⟨m, h.unique (hm.succ hb hl), hm⟩

/-! ### Candidates -/

/-- The path of a name in a directory. -/
def Location.pathOf (l : Location) (name : String) : Path :=
  (l ++ [Utf8.encode name]).toPath

/-- A settings file under a name in a directory: what is found there is a file, and the project file
is text that mentions the section. -/
structure IsCandidate (t : FileTree) (l : Location) (name : String) : Prop where
  listed : name ∈ settingsFileNames
  file : ∃ content executable, t.stat [] (l.pathOf name) = .ok (.file content executable)
  marked : name = projectFileName →
    ∃ text, t.readText [] (l.pathOf name) = .ok text ∧ sectionMark.toList <:+: text.toList

/-- The candidate of a directory that comes first in the order of names. -/
def IsStrongest (t : FileTree) (l : Location) (name : String) : Prop :=
  IsCandidate t l name ∧ ∃ stronger weaker, settingsFileNames = stronger ++ name :: weaker ∧
    ∀ other ∈ stronger, ¬ IsCandidate t l other

theorem occursIn_iff {part : List Char} : ∀ {s : List Char}, occursIn part s = true ↔ part <:+: s
  | [] => by simp [occursIn]
  | c :: cs => by
    rw [occursIn, Bool.or_eq_true, List.isPrefixOf_iff_prefix, occursIn_iff, List.infix_cons_iff]

theorem holdsSettings_iff (hname : name ∈ settingsFileNames) :
    holdsSettings t l name = true ↔ IsCandidate t l name := by
  have hmarked : (t.readText [] (l.pathOf name)).toOption.any
        (fun text => occursIn sectionMark.toList text.toList) = true ↔
      ∃ text, t.readText [] (l.pathOf name) = .ok text ∧ sectionMark.toList <:+: text.toList := by
    cases t.readText [] (l.pathOf name) with
    | error e => simp [Except.toOption]
    | ok text => simp [Except.toOption, occursIn_iff]
  have hproject : (name != projectFileName) = true ↔ name ≠ projectFileName := by simp
  have heq : holdsSettings t l name = (t.isFile [] (l.pathOf name)
      && (name != projectFileName || (t.readText [] (l.pathOf name)).toOption.any
        fun text => occursIn sectionMark.toList text.toList)) := by
    unfold holdsSettings
    dsimp only
    rw [← Location.pathOf]
    cases t.readText [] (l.pathOf name) <;> rfl
  rw [heq, Bool.and_eq_true, Bool.or_eq_true, FileTree.isFile_iff, hmarked, hproject]
  constructor
  · rintro ⟨hf, hm⟩
    exact ⟨hname, hf, fun e => hm.resolve_left fun hne => hne e⟩
  · intro h
    exact ⟨h.file, Decidable.or_iff_not_imp_left.2 fun hne => h.marked (Decidable.not_not.1 hne)⟩

theorem settingsIn?_eq_some_iff {p : Path} :
    settingsIn? t l = some p ↔ ∃ name, IsStrongest t l name ∧ p = l.pathOf name := by
  rw [settingsIn?, Option.map_eq_some_iff]
  constructor
  · rintro ⟨name, hfind, rfl⟩
    obtain ⟨hholds, stronger, weaker, hnames, hothers⟩ := List.find?_eq_some_iff_append.1 hfind
    have hmem : ∀ {other}, other ∈ stronger ++ name :: weaker → other ∈ settingsFileNames :=
      fun h => hnames ▸ h
    refine ⟨name, ⟨(holdsSettings_iff (hmem (by simp))).1 hholds, stronger, weaker, hnames,
      fun other ho h => ?_⟩, rfl⟩
    have hnot := hothers other ho
    rw [(holdsSettings_iff (hmem (List.mem_append_left _ ho))).2 h] at hnot
    exact absurd hnot (by decide)
  · rintro ⟨name, ⟨h, stronger, weaker, hnames, hothers⟩, rfl⟩
    refine ⟨name, List.find?_eq_some_iff_append.2
      ⟨(holdsSettings_iff h.listed).2 h, stronger, weaker, hnames, fun other ho => ?_⟩, rfl⟩
    have hlisted : other ∈ settingsFileNames := hnames ▸ List.mem_append_left _ ho
    rw [Bool.not_eq_true', ← Bool.not_eq_true, holdsSettings_iff hlisted]
    exact hothers other ho

theorem settingsIn?_eq_none_iff :
    settingsIn? t l = none ↔ ∀ name, ¬ IsCandidate t l name := by
  rw [settingsIn?, Option.map_eq_none_iff, List.find?_eq_none]
  constructor
  · intro h name hc
    exact h name hc.listed ((holdsSettings_iff hc.listed).2 hc)
  · intro h name hn hholds
    exact h name ((holdsSettings_iff hn).1 hholds)

/-! ### The search -/

/-- What a search over a directory and those above it, `n` of them, gives: the strongest candidate
of the first that has one. -/
inductive Nearest (t : FileTree) (l : Location) (n : Nat) : Option Path → Prop
  | found {i : Nat} {name : String} (within : i ≤ n) (strongest : IsStrongest t (l.above i) name)
      (nearest : ∀ j < i, ∀ other, ¬ IsCandidate t (l.above j) other) :
      Nearest t l n (some ((l.above i).pathOf name))
  | missing (nowhere : ∀ i ≤ n, ∀ name, ¬ IsCandidate t (l.above i) name) : Nearest t l n none

theorem Nearest.succ (hnone : ∀ name, ¬ IsCandidate t l name) (h : Nearest t l.dropLast n r) :
    Nearest t l (n + 1) r := by
  cases h with
  | @found i name within strongest nearest =>
    rw [Location.above_dropLast] at strongest ⊢
    refine .found (Nat.succ_le_succ within) strongest fun j hj => ?_
    cases j with
    | zero => rwa [Location.above_zero]
    | succ j =>
      rw [← Location.above_dropLast]
      exact nearest j (Nat.lt_of_succ_lt_succ hj)
  | missing nowhere =>
    refine .missing fun i hi => ?_
    cases i with
    | zero => rwa [Location.above_zero]
    | succ i =>
      rw [← Location.above_dropLast]
      exact nowhere i (Nat.le_of_succ_le_succ hi)

theorem nearest_searchUpward :
    ∀ {k n : Nat} {l : Location}, IsLast (fun d => isRepositoryRoot t d = true) k l n →
      Nearest t l n (searchUpward t k l)
  | 0, _, _, h => absurd h.bounded (Nat.not_lt_zero _)
  | k + 1, n, l, h => by
    rw [searchUpward]
    cases hsettings : settingsIn? t l with
    | some path =>
      obtain ⟨name, hstrongest, rfl⟩ := settingsIn?_eq_some_iff.1 hsettings
      have hfound := Nearest.found (l := l) (i := 0) (Nat.zero_le n) (by simpa using hstrongest)
        (by simp)
      simpa using hfound
    | none =>
      have hnone := settingsIn?_eq_none_iff.1 hsettings
      dsimp only
      split
      · rename_i hstop
        -- the first directory is the last one
        obtain rfl : n = 0 := by
          refine Nat.eq_zero_of_not_pos fun hpos => ?_
          rcases hstop with hb | rfl
          · exact h.passed 0 hpos (by simpa using hb)
          · exact absurd h.within (Nat.not_le.2 hpos)
        exact .missing fun i hi => by simpa [Nat.le_zero.1 hi] using hnone
      · rename_i hstop
        obtain ⟨hb, hl⟩ := not_or.1 hstop
        cases k with
        | zero =>
          obtain rfl : n = 0 := Nat.lt_one_iff.1 h.bounded
          exact .missing fun i hi => by simpa [Nat.le_zero.1 hi] using hnone
        | succ k =>
          obtain ⟨m, rfl, hm⟩ := h.exists_pred hb hl
          exact (nearest_searchUpward hm).succ hnone

/-- The names that a search asks for in a directory. -/
def askedNames : List String :=
  ".git" :: settingsFileNames

theorem isCandidate_congr (h : t.SameAt t' (l.pathOf name)) :
    IsCandidate t' l name ↔ IsCandidate t l name := by
  have hread : t'.readText [] (l.pathOf name) = t.readText [] (l.pathOf name) := by
    rw [FileTree.readText, FileTree.readText, FileTree.read, FileTree.read, h.stat]
  constructor
  · intro hc
    exact ⟨hc.listed, h.stat ▸ hc.file, hread ▸ hc.marked⟩
  · intro hc
    exact ⟨hc.listed, h.stat.symm ▸ hc.file, hread.symm ▸ hc.marked⟩

theorem settingsIn?_congr (h : ∀ name ∈ settingsFileNames, t.SameAt t' (l.pathOf name)) :
    settingsIn? t' l = settingsIn? t l := by
  have hholds : ∀ name ∈ settingsFileNames, holdsSettings t' l name = holdsSettings t l name := by
    intro name hn
    rw [Bool.eq_iff_iff, holdsSettings_iff hn, holdsSettings_iff hn]
    exact isCandidate_congr (h name hn)
  rw [settingsIn?, settingsIn?, ← List.head?_filter, ← List.head?_filter,
    List.filter_congr hholds]

/-- A search depends on what stands at the names that it asks for in the directories up to the last
one. -/
theorem searchUpward_congr :
    ∀ {k n : Nat} {l : Location}, IsLast (fun d => isRepositoryRoot t d = true) k l n →
      (∀ i ≤ n, ∀ name ∈ askedNames, t.SameAt t' ((l.above i).pathOf name)) →
      searchUpward t' k l = searchUpward t k l
  | 0, _, _, h, _ => absurd h.bounded (Nat.not_lt_zero _)
  | k + 1, n, l, h, hsame => by
    have hfirst : ∀ name ∈ askedNames, t.SameAt t' (l.pathOf name) := by
      simpa using hsame 0 (Nat.zero_le n)
    have hsettings : settingsIn? t' l = settingsIn? t l :=
      settingsIn?_congr fun name hn => hfirst name (List.mem_cons_of_mem _ hn)
    have htop : isRepositoryRoot t' l = isRepositoryRoot t l :=
      (hfirst ".git" List.mem_cons_self).exists?
    rw [searchUpward, searchUpward, hsettings, htop]
    cases settingsIn? t l with
    | some path => rfl
    | none =>
      dsimp only
      split
      · rfl
      · rename_i hstop
        obtain ⟨hb, hl⟩ := not_or.1 hstop
        cases k with
        | zero => rfl
        | succ k =>
          obtain ⟨m, rfl, hm⟩ := h.exists_pred hb hl
          refine searchUpward_congr hm fun i hi => ?_
          rw [Location.above_dropLast]
          exact hsame (i + 1) (Nat.succ_le_succ hi)

/-! ### Where a search starts -/

/-- The directory in which the search for a target starts: the target, or the one that a file stands
in. -/
inductive Starts (t : FileTree) (cwd : Location) (target : Path) (l : Location) : Prop
  | dir (canonical : t.canonicalize cwd target = .ok l) (isDir : t.get? l = some .dir)
  | file {f : Location} (resolve : t.resolve cwd target = .ok f)
      (isFile : ∃ content executable, t.get? f = some (.file content executable))
      (canonical : t.canonicalize cwd target.directory = .ok l) (isDir : t.get? l = some .dir)

variable {cwd cwd' : Location} {target target' : Path}

theorem Starts.isDir (h : Starts t cwd target l) : t.get? l = some .dir := by
  cases h <;> assumption

theorem Starts.searchStart?_eq (h : Starts t cwd target l) :
    searchStart? t cwd target = some l := by
  cases h with
  | dir canonical isDir =>
    have hnot : ¬ t.isFile cwd target = true := by
      intro hfile
      obtain ⟨content, executable, hstat⟩ := FileTree.isFile_iff.1 hfile
      obtain ⟨f, hf, hget⟩ := FileTree.stat_eq_ok_iff.1 hstat
      obtain rfl := FileTree.eq_of_canonicalize canonical hf
      simp [hget] at isDir
    rw [searchStart?, if_neg hnot, canonical]
    rfl
  | @file f resolve isFile canonical _ =>
    obtain ⟨content, executable, hf⟩ := isFile
    have hfile : t.isFile cwd target = true :=
      FileTree.isFile_iff.2 ⟨content, executable, FileTree.stat_eq_ok_iff.2 ⟨f, resolve, hf⟩⟩
    rw [searchStart?, if_pos hfile, canonical]
    rfl

theorem Starts.findSettings?_eq (h : Starts t cwd target l) :
    findSettings? t cwd target = searchUpward t maxSearchedDirectories l := by
  rw [findSettings?, h.searchStart?_eq]
  rfl

theorem isName_of_asked (h : name ∈ askedNames) : IsName (Utf8.encode name) := by
  have hall : ∀ name ∈ askedNames, IsName (Utf8.encode name) := by
    decide
  exact hall name h

/-- **The search gives the nearest settings file.**  It ends at the first directory, from the start
upwards, that has an entry `.git` which leads somewhere, at the root, or after a hundred directories.
Up to and with that one, the first directory that has a candidate gives its strongest candidate, and
there is no settings file exactly when none has one.  Trees that are the same at and below the last
directory give the same, unless a link leads out of it. -/
theorem nearest_settings (h : Starts t cwd target l) :
    ∃ n, IsLast (fun d => t.exists? [] (d.pathOf ".git") = true) maxSearchedDirectories l n ∧
      Nearest t l n (findSettings? t cwd target) ∧
      ∀ t' cwd' target', Starts t' cwd' target' l →
        (∀ k, l.above n <+: k → t'.get? k = t.get? k) →
        (∀ i ≤ n, ∀ name ∈ askedNames, ∀ link,
          t.get? (l.above i ++ [Utf8.encode name]) = some (.link link) →
            t.SameAt t' ((l.above i).pathOf name)) →
        findSettings? t' cwd' target' = findSettings? t cwd target := by
  obtain ⟨n, hn⟩ := exists_isLast (fun d => isRepositoryRoot t d = true) l
    (k := maxSearchedDirectories) (by decide)
  refine ⟨n, hn, h.findSettings?_eq ▸ nearest_searchUpward hn, ?_⟩
  intro t' cwd' target' h' hbelow hlinks
  rw [h.findSettings?_eq, h'.findSettings?_eq]
  refine searchUpward_congr hn fun i hi name hname => ?_
  by_cases hlink : ∃ link, t.get? (l.above i ++ [Utf8.encode name]) = some (.link link)
  · obtain ⟨link, hlink⟩ := hlink
    exact hlinks i hi name hname link hlink
  · refine FileTree.sameAt_of_get? (FileTree.get?_take h.isDir _) (FileTree.get?_take h'.isDir _)
      (isName_of_asked hname) (hbelow _ ?_) (not_exists.1 hlink)
    -- a directory before the last one is below it
    have hbegin : l.above n <+: l.above i :=
      List.take_prefix_take_left (by omega)
    exact hbegin.trans (List.prefix_append _ _)

/-! A repository in a directory that has settings of its own, beside a directory with a link `.git`
that leads nowhere. -/

def repositoryTree : FileTree :=
  ⟨[([Utf8.encode "colint.toml"], .file [] false),
    ([Utf8.encode "r"], .dir),
    ([Utf8.encode "r", Utf8.encode ".git"], .dir),
    ([Utf8.encode "r", Utf8.encode "colint.toml"], .file [] false),
    ([Utf8.encode "r", Utf8.encode "a"], .dir),
    ([Utf8.encode "r", Utf8.encode "a", Utf8.encode "x.py"], .file [] false),
    ([Utf8.encode "d"], .dir),
    ([Utf8.encode "d", Utf8.encode ".git"], .link (.ofString "nowhere"))], by decide⟩

theorem nearest_settings_repository :
    Starts repositoryTree [] (.ofString "r/a/x.py") [Utf8.encode "r", Utf8.encode "a"] ∧
      ∃ n, IsLast (fun d => repositoryTree.exists? [] (d.pathOf ".git") = true)
          maxSearchedDirectories [Utf8.encode "r", Utf8.encode "a"] n ∧
        Nearest repositoryTree [Utf8.encode "r", Utf8.encode "a"] n
          (some (.ofString "/r/colint.toml")) := by
  have hstart : Starts repositoryTree [] (.ofString "r/a/x.py")
      [Utf8.encode "r", Utf8.encode "a"] :=
    .file (f := [Utf8.encode "r", Utf8.encode "a", Utf8.encode "x.py"]) rfl ⟨[], false, rfl⟩
      rfl rfl
  have hfound : findSettings? repositoryTree [] (.ofString "r/a/x.py")
      = some (.ofString "/r/colint.toml") := by
    rfl
  obtain ⟨n, hn, hnearest, -⟩ := nearest_settings hstart
  exact ⟨hstart, n, hn, hfound ▸ hnearest⟩

/-- The directory has an entry `.git`, but the search goes on to the one above it. -/
theorem dangling_git_passed :
    let hasGit : Location → Prop := fun d => repositoryTree.get? (d ++ [Utf8.encode ".git"]) ≠ none
    Starts repositoryTree [] (.ofString "d") [Utf8.encode "d"] ∧
      IsLast hasGit maxSearchedDirectories [Utf8.encode "d"] 0 ∧
      ¬ Nearest repositoryTree [Utf8.encode "d"] 0
        (findSettings? repositoryTree [] (.ofString "d")) := by
  intro hasGit
  have hstart : Starts repositoryTree [] (.ofString "d") [Utf8.encode "d"] :=
    .dir rfl rfl
  have hfound : findSettings? repositoryTree [] (.ofString "d")
      = some (.ofString "/colint.toml") := by
    rfl
  refine ⟨hstart, ⟨Nat.zero_le _, by decide, by simp, .inl ?_⟩, ?_⟩
  · rw [Location.above_zero]
    simp only [hasGit]
    decide
  · rw [hfound]
    intro h
    generalize hr : some (Path.ofString "/colint.toml") = r at h
    cases h with
    | missing => simp at hr
    | @found i name within strongest nearest =>
      obtain rfl : i = 0 := Nat.le_zero.1 within
      rw [Location.above_zero, Option.some_inj] at hr
      have hother : ∀ name ∈ settingsFileNames,
          Path.ofString "/colint.toml" ≠ Location.pathOf [Utf8.encode "d"] name := by
        decide
      exact hother name strongest.1.listed hr

end CodeTidy
