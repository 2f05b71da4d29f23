import CodeTidy.Discovery.Discover
import CodeTidy.Proofs.Host.Order
import Mathlib.Data.List.Sort

/-!
# What is discovered, and where it leads

The paths that discovery lists are those that a tree offers (`Discoverer.Offers`) and that the filter
accepts (`Discoverer.mem_discover_iff`).  An offered path is the root with names joined to it, and it
can only lead to the location of those names below the root's (`Discoverer.Offers.exists_names`).  So
two offered paths that lead to one location are the same path, also when some files were written in
between (`Discoverer.Offers.eq_of_resolve`).  Discovered paths are listed in strictly increasing order
(`Discoverer.pairwise_discover`).
-/

namespace CodeTidy.Discoverer

variable {d d' : Discoverer} {t t' : FileTree} {cwd base l : Location} {root p p' : Path}
  {filter filter' : FileFilter} {paths paths' : List Path}

/-! ### Candidates -/

theorem dedup_sublist : ∀ paths : List Path, (dedup paths).Sublist paths
  | [] => .slnil
  | [_] => .refl _
  | p :: q :: rest => by
    rw [dedup]
    split
    · exact (dedup_sublist (q :: rest)).cons p
    · exact (dedup_sublist (q :: rest)).cons_cons p

theorem mem_dedup : ∀ {paths : List Path}, p ∈ dedup paths ↔ p ∈ paths
  | [] => Iff.rfl
  | [_] => Iff.rfl
  | q :: q' :: rest => by
    rw [dedup]
    split
    · rename_i h
      rw [mem_dedup, h]
      simp
    · rw [List.mem_cons, mem_dedup, List.mem_cons (a := p) (b := q)]

theorem namesBelow?_eq_some {e : Location × Entry} {names : Location}
    (h : namesBelow? base e = some names) :
    names ≠ [] ∧ e.1 = base ++ names ∧ ∃ content executable, e.2 = .file content executable := by
  unfold namesBelow? at h
  split at h
  · rename_i content executable he
    split at h
    · rename_i hb
      obtain ⟨hpre, hlength⟩ := hb
      obtain ⟨rest, hrest⟩ := List.isPrefixOf_iff_prefix.1 hpre
      obtain rfl := Option.some.inj h
      refine ⟨?_, ?_, content, executable, he⟩
      · rw [Ne, List.drop_eq_nil_iff]
        omega
      · rw [← hrest, List.drop_left]
    · simp at h
  · simp at h

/-- The files below a directory that are neither ignored nor excluded, whatever the filter. -/
def candidates (d : Discoverer) (t : FileTree) (root : Path) (base : Location) : List Path :=
  ((t.entries.filterMap (namesBelow? base)).filter fun names =>
    reaches (d.rulesFor t) base names && !d.isExcluded names).map fun names =>
      names.foldl Path.join root

theorem discover_eq_filesBelow (hroot : t.resolve cwd root = .ok base)
    (hdir : t.get? base = some .dir) (d : Discoverer) (filter : FileFilter) :
    d.discover t cwd root filter = .ok (d.filesBelow t cwd root base filter) := by
  rw [discover, hroot]
  simp only [hdir]

theorem mem_filesBelow_iff :
    p ∈ d.filesBelow t cwd root base filter ↔
      p ∈ d.candidates t root base ∧ filter.accepts t cwd p = true := by
  have hfiles : d.filesBelow t cwd root base filter
      = dedup (((d.candidates t root base).filter (filter.accepts t cwd)).mergeSort Path.le) := rfl
  rw [hfiles, mem_dedup, List.mem_mergeSort, List.mem_filter]

/-- A candidate is the path of names at which a file stands. -/
theorem exists_names_of_mem_candidates (h : p ∈ d.candidates t root base) :
    ∃ names content executable, names ≠ [] ∧ p = names.foldl Path.join root ∧
      (base ++ names, .file content executable) ∈ t.entries := by
  obtain ⟨names, hnames, rfl⟩ := List.mem_map.1 h
  obtain ⟨⟨k, e⟩, he, hbelow⟩ := List.mem_filterMap.1 (List.mem_filter.1 hnames).1
  obtain ⟨hne, hk, content, executable, hfile⟩ := namesBelow?_eq_some hbelow
  exact ⟨names, content, executable, hne, rfl, hk ▸ hfile ▸ he⟩

/-! ### What discovery offers -/

/-- The paths that discovery offers to a filter: the root when it is a file, and otherwise the
candidates below it. -/
inductive Offers (d : Discoverer) (t : FileTree) (cwd : Location) (root : Path) : Path → Prop
  | self {base : Location} (resolve : t.resolve cwd root = .ok base)
      (file : ∃ content executable, t.get? base = some (.file content executable)) :
      Offers d t cwd root root
  | below {base : Location} {p : Path} (resolve : t.resolve cwd root = .ok base)
      (notFile : ¬ ∃ content executable, t.get? base = some (.file content executable))
      (mem : p ∈ d.candidates t root base) : Offers d t cwd root p

theorem offers_iff_eq_root (hroot : t.resolve cwd root = .ok base)
    (hfile : ∃ content executable, t.get? base = some (.file content executable)) :
    d.Offers t cwd root p ↔ p = root := by
  constructor
  · intro h
    cases h with
    | self => rfl
    | below resolve notFile =>
      obtain rfl := Except.ok.inj (hroot.symm.trans resolve)
      exact absurd hfile notFile
  · rintro rfl
    exact .self hroot hfile

theorem offers_iff_mem_candidates (hroot : t.resolve cwd root = .ok base)
    (hfile : ¬ ∃ content executable, t.get? base = some (.file content executable)) :
    d.Offers t cwd root p ↔ p ∈ d.candidates t root base := by
  constructor
  · intro h
    cases h with
    | self resolve file =>
      obtain rfl := Except.ok.inj (hroot.symm.trans resolve)
      exact absurd file hfile
    | below resolve _ mem =>
      obtain rfl := Except.ok.inj (hroot.symm.trans resolve)
      exact mem
  · exact .below hroot hfile

/-- **Discovered is what is offered and accepted.** -/
theorem mem_discover_iff (h : d.discover t cwd root filter = .ok paths) :
    p ∈ paths ↔ d.Offers t cwd root p ∧ filter.accepts t cwd p = true := by
  unfold discover at h
  split at h
  · simp at h
  · rename_i base hroot
    split at h
    · rename_i content executable hfile
      obtain rfl := Except.ok.inj h
      rw [offers_iff_eq_root hroot ⟨content, executable, hfile⟩]
      split
      · rename_i haccepts
        rw [List.mem_singleton]
        exact ⟨fun hp => ⟨hp, hp ▸ haccepts⟩, fun hp => hp.1⟩
      · rename_i haccepts
        simp only [List.not_mem_nil, false_iff]
        rintro ⟨rfl, ha⟩
        exact haccepts ha
    · rename_i hfile
      obtain rfl := Except.ok.inj h
      have hnot : ¬ ∃ content executable, t.get? base = some (.file content executable) := by
        rintro ⟨content, executable, he⟩
        exact hfile content executable he
      rw [offers_iff_mem_candidates hroot hnot]
      exact mem_filesBelow_iff

/-! ### Where paths lead -/

/-- The path of names below the root, where a file stands, leads there if it leads anywhere. -/
theorem eq_append_of_mem (hroot : t.resolve cwd root = .ok base)
    {names : Location} (hne : names ≠ []) {content : Bytes} {executable : Bool}
    (he : (base ++ names, .file content executable) ∈ t.entries)
    (hl : t.resolve cwd (names.foldl Path.join root) = .ok l) : l = base ++ names := by
  have hk : base ++ names ∈ t.entries.map Prod.fst := List.mem_map.2 ⟨_, he, rfl⟩
  refine FileTree.eq_of_resolve_foldl_join hroot hne
    (fun name hn => (t.proper.names _ hk name (List.mem_append_right _ hn)).toIsName)
    (fun n hn hle target => ?_) hl
  rcases Nat.lt_or_eq_of_le hle with hlt | rfl
  · simp [FileTree.get?_append_take he hlt]
  · rw [List.take_length, FileTree.get?_of_mem he]
    simp

theorem Offers.exists?_root (h : d.Offers t cwd root p) : t.exists? cwd root = true := by
  cases h with
  | self resolve => exact FileTree.exists?_of_resolve resolve
  | below resolve => exact FileTree.exists?_of_resolve resolve

/-- **An offered path leads to the location of its names below the root.** -/
theorem Offers.exists_names (h : d.Offers t cwd root p) :
    ∃ base names, t.resolve cwd root = .ok base ∧ p = names.foldl Path.join root ∧
      ∀ l, t.resolve cwd p = .ok l → l = base ++ names := by
  cases h with
  | @self base resolve file =>
    refine ⟨base, [], resolve, rfl, fun l hl => ?_⟩
    rw [List.append_nil, Except.ok.inj (hl.symm.trans resolve)]
  | @below base _ resolve notFile mem =>
    obtain ⟨names, content, executable, hne, rfl, he⟩ := exists_names_of_mem_candidates mem
    exact ⟨base, names, resolve, rfl, fun l hl => eq_append_of_mem resolve hne he hl⟩

/-- **Offered paths that lead to one location are one path**, also when some files were written in
between. -/
theorem Offers.eq_of_resolve (hs : t.SameShape t') (h : d.Offers t cwd root p)
    (h' : d'.Offers t' cwd root p') (hl : t.resolve cwd p = .ok l)
    (hl' : t.resolve cwd p' = .ok l) : p = p' := by
  obtain ⟨base, names, hroot, rfl, hlead⟩ := h.exists_names
  obtain ⟨base', names', hroot', rfl, hlead'⟩ := h'.exists_names
  rw [hs.resolve] at hroot'
  obtain rfl := Except.ok.inj (hroot.symm.trans hroot')
  have e := (hlead l hl).symm.trans (hlead' l ((hs.resolve _ _).trans hl'))
  rw [List.append_cancel_left e]

/-! ### The order of discovered paths -/

/-- Below a root every file is named once. -/
theorem nodup_namesBelow (t : FileTree) (base : Location) :
    (t.entries.filterMap (namesBelow? base)).Nodup := by
  refine List.pairwise_filterMap.2 ((List.pairwise_map.1 t.proper.nodup).imp ?_)
  rintro e e' hne names hnames _ hnames' rfl
  exact hne ((namesBelow?_eq_some hnames).2.1.trans (namesBelow?_eq_some hnames').2.1.symm)

/-- Paths of different names have different places in the order. -/
theorem key_foldl_join_ne {names names' : Location} (hroot : root.bytes ≠ [])
    (hnames : ∀ name ∈ names, IsName name) (hnames' : ∀ name ∈ names', IsName name)
    (hne : names ≠ names') :
    (names.foldl Path.join root).key ≠ (names'.foldl Path.join root).key := by
  rw [Ne, Path.key_eq_iff, Path.components_foldl_join hroot hnames,
    Path.components_foldl_join hroot hnames', List.append_cancel_left_eq]
  exact fun h => hne (List.map_injective_iff.2 (fun _ _ => Component.normal.inj) h)

/-- Sorting puts paths of different places in strictly increasing order. -/
theorem pairwise_dedup_mergeSort (h : paths.Pairwise fun p q => p.key ≠ q.key) :
    (dedup (paths.mergeSort Path.le)).Pairwise Path.Precedes := by
  have hsorted : (paths.mergeSort Path.le).Pairwise fun p q => Path.le p q = true := by
    refine List.pairwise_mergeSort (fun p q r hpq hqr => ?_) (fun p q => ?_) paths
    · exact Path.le_iff.2 ((Path.le_iff.1 hpq).trans (Path.le_iff.1 hqr))
    · rw [Bool.or_eq_true, Path.le_iff, Path.le_iff]
      exact le_total _ _
  -- sorting only permutes, so what holds of each pair in both orders stays
  have hkeys : (paths.mergeSort Path.le).Pairwise fun p q => p.key ≠ q.key :=
    ((List.mergeSort_perm paths Path.le).pairwise_iff Ne.symm).2 h
  refine List.Pairwise.sublist (dedup_sublist _) (hsorted.imp₂ (fun p q hle hne => ?_) hkeys)
  exact Path.precedes_iff.2 (lt_of_le_of_ne (Path.le_iff.1 hle) hne)

theorem pairwise_filesBelow (hroot : root.bytes ≠ []) :
    (d.filesBelow t cwd root base filter).Pairwise Path.Precedes := by
  have hnames : ∀ names ∈ t.entries.filterMap (namesBelow? base), ∀ name ∈ names, IsName name := by
    intro names h name hn
    obtain ⟨⟨k, e⟩, he, hbelow⟩ := List.mem_filterMap.1 h
    obtain ⟨-, rfl, -⟩ := namesBelow?_eq_some hbelow
    exact (t.proper.names _ (List.mem_map.2 ⟨_, he, rfl⟩) name
      (List.mem_append_right _ hn)).toIsName
  have hkeys : (t.entries.filterMap (namesBelow? base)).Pairwise fun names names' =>
      (names.foldl Path.join root).key ≠ (names'.foldl Path.join root).key := by
    refine (nodup_namesBelow t base).imp_of_mem fun {names names'} h h' => ?_
    exact key_foldl_join_ne hroot (hnames names h) (hnames names' h')
  refine pairwise_dedup_mergeSort (List.Pairwise.filter _ (List.pairwise_map.2 ?_))
  exact hkeys.filter _

/-- **Discovered paths are in strictly increasing order.** -/
theorem pairwise_discover (h : d.discover t cwd root filter = .ok paths) :
    paths.Pairwise Path.Precedes := by
  unfold discover at h
  split at h
  · simp at h
  · rename_i base hroot
    split at h
    · obtain rfl := Except.ok.inj h
      split
      · exact List.pairwise_singleton _ _
      · exact List.Pairwise.nil
    · obtain rfl := Except.ok.inj h
      exact pairwise_filesBelow (FileTree.resolve_eq_ok hroot).1

/-- What discovery lists below a directory is what the filter accepts of the candidates, in the only
strictly increasing order. -/
theorem discover_eq_of_perm (hroot : t.resolve cwd root = .ok base) (hdir : t.get? base = some .dir)
    (hsorted : paths.Pairwise Path.Precedes)
    (hperm : ((d.candidates t root base).filter (filter.accepts t cwd)).Perm paths) :
    d.discover t cwd root filter = .ok paths := by
  have hdiscover := discover_eq_filesBelow hroot hdir d filter
  rw [hdiscover, (pairwise_discover hdiscover).eq_of_mem_iff hsorted fun p => ?_]
  rw [mem_filesBelow_iff, ← List.mem_filter, hperm.mem_iff]

end CodeTidy.Discoverer
