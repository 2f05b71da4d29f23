import CodeTidy.Proofs.Discovery.Targets

/-!
# What is discovered again

Without ignore files, the shape of a tree decides which paths discovery offers to a filter
(`Discoverer.Offers.of_sameShape`), and the filter looks at nothing but the file itself.  So a path
that was offered once is discovered again exactly when the filter accepts it then, whatever was
written to other files, and the same holds when the path itself is the root
(`Discoverer.discover_alone`).
-/

namespace CodeTidy

theorem FileFilter.accepts_congr {t t' : FileTree} {cwd : Location} {p : Path}
    (h : t'.read cwd p = t.read cwd p) (f : FileFilter) :
    f.accepts t' cwd p = f.accepts t cwd p := by
  cases f <;> simp [accepts, h]

namespace Discoverer

variable {d : Discoverer} {t t' : FileTree} {cwd base : Location} {root p : Path}
  {filter : FileFilter} {paths : List Path}

/-! ### What discovery offers again -/

theorem filterMap_namesBelow?_shape (t : FileTree) (base : Location) :
    t.shape.entries.filterMap (namesBelow? base) = t.entries.filterMap (namesBelow? base) := by
  rw [FileTree.entries_shape, List.filterMap_map]
  refine List.filterMap_congr fun e _ => ?_
  obtain ⟨k, e⟩ := e
  cases e <;> rfl

theorem candidates_of_sameShape (hgit : d.respectGitignore = false) (h : t.SameShape t')
    (root : Path) (base : Location) : d.candidates t' root base = d.candidates t root base := by
  have hnames : t'.entries.filterMap (namesBelow? base) = t.entries.filterMap (namesBelow? base) := by
    rw [← filterMap_namesBelow?_shape t', ← filterMap_namesBelow?_shape t, h]
  have hrules : d.rulesFor t' = d.rulesFor t := by simp [rulesFor, hgit]
  rw [candidates, candidates, hnames, hrules]

theorem Offers.of_sameShape (hgit : d.respectGitignore = false) (hs : t.SameShape t')
    (h : d.Offers t cwd root p) : d.Offers t' cwd root p := by
  cases h with
  | self resolve file =>
    exact .self ((hs.resolve cwd root).trans resolve) (hs.file_iff.2 file)
  | below resolve notFile mem =>
    refine .below ((hs.resolve cwd root).trans resolve) (fun h => notFile (hs.file_iff.1 h)) ?_
    rwa [candidates_of_sameShape hgit hs]

/-- An offered path leads to a file, when it is not too long. -/
theorem Offers.resolve_file (h : d.Offers t cwd root p)
    (hlength : p.bytes.length ≤ FileTree.maxPath) :
    ∃ l, t.resolve cwd p = .ok l ∧
      ∃ content executable, t.get? l = some (.file content executable) := by
  cases h with
  | self resolve file => exact ⟨_, resolve, file⟩
  | @below base _ resolve notFile mem =>
    obtain ⟨names, content, executable, hne, rfl, he⟩ := exists_names_of_mem_candidates mem
    exact ⟨base ++ names, FileTree.resolve_foldl_join resolve hne he (by simp) hlength,
      content, executable, FileTree.get?_of_mem he⟩

/-! ### A path as its own root -/

theorem discover_self {l : Location} (hl : t.resolve cwd p = .ok l)
    (hfile : ∃ content executable, t.get? l = some (.file content executable))
    (filter : FileFilter) :
    d.discover t cwd p filter = .ok (if filter.accepts t cwd p then [p] else []) := by
  obtain ⟨content, executable, he⟩ := hfile
  rw [discover, hl]
  simp only [he]

theorem nodup_discover (h : d.discover t cwd root filter = .ok paths) :
    paths.Nodup := by
  refine (pairwise_discover h).imp ?_
  rintro p _ ⟨hle, hnot⟩ rfl
  simp [hle] at hnot

/-- **What an operation discovers at an offered path, as its own root, is what it discovers there
below the root**, also when other files have been written in between. -/
theorem discover_alone {t₀ : FileTree} (hgit : d.respectGitignore = false)
    (hs : t₀.SameShape t) (hs' : t₀.SameShape t') (hread : t'.read cwd p = t.read cwd p)
    (hp : d.Offers t₀ cwd root p) (hlength : p.bytes.length ≤ FileTree.maxPath)
    (h : d.discover t cwd root filter = .ok paths) :
    d.discover t' cwd p filter = .ok (paths.filter (· = p)) := by
  obtain ⟨l, hl, hfile⟩ := hp.resolve_file hlength
  have hself : d.discover t' cwd p filter = .ok (if filter.accepts t' cwd p then [p] else []) :=
    discover_self ((hs'.resolve cwd p).trans hl) (hs'.file_iff.2 hfile) filter
  have hmem : p ∈ paths ↔ filter.accepts t' cwd p = true := by
    rw [mem_discover_iff h, FileFilter.accepts_congr hread]
    exact and_iff_right (hp.of_sameShape hgit hs)
  have hcount : paths.count p = if p ∈ paths then 1 else 0 :=
    (nodup_discover h).count
  have hfilter : paths.filter (· = p) = List.replicate (paths.count p) p := List.filter_beq p
  rw [hself, hfilter, hcount]
  by_cases ha : filter.accepts t' cwd p = true
  · rw [if_pos ha, if_pos (hmem.2 ha)]
    rfl
  · rw [if_neg ha, if_neg (fun hm => ha (hmem.1 hm))]
    rfl

end Discoverer

end CodeTidy
