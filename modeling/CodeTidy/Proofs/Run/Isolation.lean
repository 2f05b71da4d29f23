import CodeTidy.Proofs.Discovery.Rediscovery
import CodeTidy.Proofs.Operation.Memory
import CodeTidy.Proofs.Run.Complete

/-!
# Files do not influence each other

An operation on a file reports and writes the same at two sites that hold the same there, whatever
other files have been visited on the way to them (`AlikeAt.perform_self`).  So what a run below a
directory does to one file is what a run over that file alone does: the two go in lockstep, operation
by operation, and the first visits other files in between (`RunPlan.Performs.alone`).
-/

namespace CodeTidy

/-! ### Sites that are alike at one file -/

/-- Two sites that runs from `s` have come to, and that hold the same at `l`.  They may differ in
every other file, and in what they know about missing programs. -/
structure AlikeAt (x : Executor) (s : Site) (l : Location) (a b : Site) : Prop where
  left : s.SamePaths a
  right : s.SamePaths b
  recallsLeft : x.Recalls s a
  recallsRight : x.Recalls s b
  get?_eq : a.files.get? l = b.files.get? l

namespace AlikeAt

variable {w : Workshop} {mode : Mode} {op : Operation} {s a b : Site} {l : Location}
  {p path : Path}

theorem refl (x : Executor) (s : Site) (l : Location) : AlikeAt x s l s s :=
  ⟨.refl s, .refl s, .refl x s, .refl x s, rfl⟩

theorem read_eq {x : Executor} (h : AlikeAt x s l a b)
    (hl : s.files.resolve s.workingDirectory p = .ok l) :
    a.files.read a.workingDirectory p = b.files.read b.workingDirectory p := by
  have ha : a.files.resolve a.workingDirectory p = .ok l := (h.left.resolve p).trans hl
  have hb : b.files.resolve b.workingDirectory p = .ok l := (h.right.resolve p).trans hl
  unfold FileTree.read FileTree.stat
  simp only [ha, hb, h.get?_eq, bind, Except.bind]

theorem propose_eq (h : AlikeAt w.executor s l a b) (hfiles : w.executor.launch.IgnoresFiles)
    (hl : s.files.resolve s.workingDirectory p = .ok l) (op : Operation) :
    w.propose a op p = w.propose b op p :=
  w.propose_congr (h.read_eq hl)
    (fun _ _ _ => (h.recallsLeft.execute_eq hfiles).trans (h.recallsRight.execute_eq hfiles).symm) op

/-- Another file may be visited in one of the sites. -/
theorem perform_other (h : AlikeAt w.executor s l a b)
    (hfiles : w.executor.launch.IgnoresFiles) (hu : w.executor.launch.Uniform)
    (hne : s.files.resolve s.workingDirectory path ≠ .ok l) (mode : Mode) (op : Operation) :
    AlikeAt w.executor s l (w.perform mode op path a).2 b where
  left := h.left.trans (w.samePaths_perform mode op path a)
  right := h.right
  recallsLeft := Workshop.recalls_perform hfiles hu h.recallsLeft mode op path
  recallsRight := h.recallsRight
  get?_eq := by
    rw [w.get?_perform_of_ne mode op (by rwa [h.left.resolve]), h.get?_eq]

theorem perform_self (h : AlikeAt w.executor s l a b)
    (hfiles : w.executor.launch.IgnoresFiles) (hu : w.executor.launch.Uniform)
    (hl : s.files.resolve s.workingDirectory p = .ok l) (mode : Mode) (op : Operation) :
    (w.perform mode op p a).1 = (w.perform mode op p b).1 ∧
      AlikeAt w.executor s l (w.perform mode op p a).2 (w.perform mode op p b).2 := by
  have hpropose : w.propose a op p = w.propose b op p := h.propose_eq hfiles hl op
  refine ⟨?_, h.left.trans (w.samePaths_perform mode op p a),
    h.right.trans (w.samePaths_perform mode op p b),
    Workshop.recalls_perform hfiles hu h.recallsLeft mode op p,
    Workshop.recalls_perform hfiles hu h.recallsRight mode op p, ?_⟩
  · rw [Workshop.outcome_perform rfl, Workshop.outcome_perform rfl, hpropose]
  · rw [Workshop.files_perform rfl, Workshop.files_perform rfl, hpropose]
    cases (w.propose b op p).content? mode with
    | none => exact h.get?_eq
    | some content =>
      show (a.write p content).files.get? l = (b.write p content).files.get? l
      rw [Site.write_of_resolve ((h.left.resolve p).trans hl),
        Site.write_of_resolve ((h.right.resolve p).trans hl)]
      show (a.files.write l content).get? l = (b.files.write l content).get? l
      rw [FileTree.get?_write_self, FileTree.get?_write_self, h.get?_eq]

end AlikeAt

/-! ### Runs in lockstep -/

namespace RunPlan

variable {r : RunPlan} {op : Operation} {s a a' b b' : Site} {p : Path} {paths : List Path}
  {outcomes outcomes' : List Outcome} {found found' : List (Operation × List Path)} {l : Location}
  {ops : List Operation}

/-- The run over one file alone. -/
def only (r : RunPlan) (p : Path) : RunPlan :=
  { r with root := p }

/-- The files of one operation, and those among them that are `p`. -/
theorem Visits.alone (hfiles : r.workshop.executor.launch.IgnoresFiles)
    (hu : r.workshop.executor.launch.Uniform)
    (hl : s.files.resolve s.workingDirectory p = .ok l) (h : r.Visits op a paths outcomes a')
    (hothers : ∀ path ∈ paths, path ≠ p → s.files.resolve s.workingDirectory path ≠ .ok l) :
    ∀ {b : Site}, AlikeAt r.workshop.executor s l a b →
      ∃ b', (r.only p).Visits op b (paths.filter (· = p)) (outcomes.filter (·.path = p)) b' ∧
        AlikeAt r.workshop.executor s l a' b' := by
  induction h with
  | nil a => exact fun hab => ⟨_, .nil _, hab⟩
  | @cons a a' path paths outcomes hrest ih =>
    intro b hab
    obtain ⟨hother, hothers⟩ := List.forall_mem_cons.1 hothers
    have hpath := (r.workshop.path_perform r.mode op path a).1
    by_cases he : path = p
    · subst he
      obtain ⟨hout, hnext⟩ := hab.perform_self hfiles hu hl r.mode op
      obtain ⟨b', hvisits, hab'⟩ := ih hothers hnext
      refine ⟨b', ?_, hab'⟩
      rw [List.filter_cons_of_pos (by simp), List.filter_cons_of_pos (by simp [hpath]), hout]
      exact .cons hvisits
    · obtain ⟨b', hvisits, hab'⟩ := ih hothers (hab.perform_other hfiles hu (hother he) r.mode op)
      refine ⟨b', ?_, hab'⟩
      rwa [List.filter_cons_of_neg (by simp [he]), List.filter_cons_of_neg (by simp [hpath, he])]

/-- The operations of a run, each on those of its files that are `p`. -/
theorem Performs.alone (hgit : r.discoverer.respectGitignore = false)
    (hfiles : r.workshop.executor.launch.IgnoresFiles)
    (hu : r.workshop.executor.launch.Uniform)
    (hp : r.discoverer.Offers s.files s.workingDirectory r.root p)
    (hlength : p.bytes.length ≤ FileTree.maxPath)
    (hl : s.files.resolve s.workingDirectory p = .ok l) (h : r.Performs a found outcomes a') :
    ∀ {b : Site}, AlikeAt r.workshop.executor s l a b →
      ∃ b', (r.only p).Performs b (found.map fun x => (x.1, x.2.filter (· = p)))
          (outcomes.filter (·.path = p)) b' ∧
        AlikeAt r.workshop.executor s l a' b' := by
  induction h with
  | nil a => exact fun hab => ⟨_, .nil _, hab⟩
  | @cons a a' a'' op paths found outcomes outcomes' targets visits _ ih =>
    intro b hab
    have hfound : r.discoverer.discover a.files s.workingDirectory r.root op.filter = .ok paths := by
      rw [← hab.left.workingDirectory]
      exact targets
    have hothers : ∀ path ∈ paths, path ≠ p →
        s.files.resolve s.workingDirectory path ≠ .ok l := by
      intro path hpath hne hlead
      have hoffers := ((Discoverer.mem_discover_iff hfound).1 hpath).1
      exact hne (hp.eq_of_resolve hab.left.shape hoffers hl hlead).symm
    have htargets : (r.only p).targets op b = .ok (paths.filter (· = p)) := by
      have hread := (hab.read_eq hl).symm
      rw [hab.left.workingDirectory, hab.right.workingDirectory] at hread
      unfold RunPlan.targets
      rw [hab.right.workingDirectory]
      exact Discoverer.discover_alone hgit hab.left.shape hab.right.shape hread hp hlength
        hfound
    obtain ⟨b', hvisits, hab'⟩ := visits.alone hfiles hu hl hothers hab
    obtain ⟨b'', hrest, hab''⟩ := ih hab'
    refine ⟨b'', ?_, hab''⟩
    rw [List.map_cons, List.filter_append]
    exact .cons htargets hvisits hrest

/-- **Files do not influence each other.**  Without ignore files, and with tools that do not look at
files and are there or not, a run reports for a file that it discovers what a run over that file
alone reports, and leaves it with the same bytes.  Only a path that is too long for the operating
system is no root of a run of its own. -/
theorem run_isolated (r : RunPlan) (ops : List Operation)
    (hgit : r.discoverer.respectGitignore = false)
    (hfiles : r.workshop.executor.launch.IgnoresFiles)
    (hu : r.workshop.executor.launch.Uniform) (hp : r.Targeted ops s op p)
    (hlength : p.bytes.length ≤ FileTree.maxPath) :
    let whole := r.run ops s
    let alone := (r.only p).run ops s
    whole.1 = none ∧ alone.1 = none ∧
      whole.2.report.outcomes.filter (·.path = p) = alone.2.report.outcomes ∧
      whole.2.site.files.read s.workingDirectory p = alone.2.site.files.read s.workingDirectory p := by
  intro whole alone
  obtain ⟨t, ht, hoffers⟩ := hp.offers
  have hstart : r.discoverer.Offers s.files s.workingDirectory r.root p :=
    hoffers.of_sameShape hgit ht.symm
  obtain ⟨l, hl, -⟩ := hstart.resolve_file hlength
  obtain ⟨hwhole, hdone⟩ := performed_stages hstart.exists?_root ops (performed_start r s)
  obtain ⟨halone, hdone'⟩ := performed_stages (r := r.only p) (FileTree.exists?_of_resolve hl) ops
    (performed_start (r.only p) s)
  obtain ⟨found, hfound, hperforms⟩ := hdone.performs
  obtain ⟨found', hfound', hperforms'⟩ := hdone'.performs
  obtain ⟨b, hlockstep, halike⟩ :=
    hperforms.alone hgit hfiles hu hstart hlength hl (.refl _ s l)
  have hops : (found.map fun x => (x.1, x.2.filter (· = p))).map Prod.fst
      = found'.map Prod.fst := by
    rw [hfound', List.map_map]
    exact hfound
  obtain ⟨houtcomes, rfl⟩ := hlockstep.deterministic hperforms' hops
  refine ⟨hwhole, halone, houtcomes, ?_⟩
  have hread := halike.read_eq hl
  rwa [halike.left.workingDirectory, halike.right.workingDirectory] at hread

/-! Two files, of which the first is the one at which the sorter is found to be missing. -/

def pairSite : Site :=
  ⟨⟨[([Utf8.encode "a.py"], .file (Utf8.encode "x") false),
    ([Utf8.encode "b.py"], .file (Utf8.encode "y") false)], by decide⟩, [], []⟩

def pairPlan : RunPlan :=
  ⟨⟨{}, ⟨fun _ _ _ => .refused .notFound, 0⟩⟩, ⟨[], false⟩, .ofString ".", .apply⟩

theorem targeted_pair :
    pairPlan.Targeted [.sortImports, .newlineFix] pairSite .sortImports (.ofString "./b.py") := by
  have hroot : pairSite.files.resolve [] pairPlan.root = .ok [] := rfl
  have htargets : pairPlan.targets .sortImports pairSite
      = .ok [.ofString "./a.py", .ofString "./b.py"] :=
    Discoverer.discover_eq_of_perm hroot rfl (by decide) (by decide +kernel)
  exact ⟨[], [.newlineFix], _, rfl, rfl, htargets, by simp⟩

theorem run_isolated_pair :
    let whole := pairPlan.run [.sortImports, .newlineFix] pairSite
    let alone := (pairPlan.only (.ofString "./b.py")).run [.sortImports, .newlineFix] pairSite
    pairPlan.Targeted [.sortImports, .newlineFix] pairSite .sortImports (.ofString "./b.py") ∧
      alone.2.report.outcomes ≠ [] ∧
      whole.2.report.outcomes.filter (·.path = .ofString "./b.py") = alone.2.report.outcomes ∧
      whole.2.site.files.read [] (.ofString "./b.py")
        = alone.2.site.files.read [] (.ofString "./b.py") := by
  intro whole alone
  obtain ⟨-, -, houtcomes, hread⟩ := run_isolated pairPlan [.sortImports, .newlineFix]
    rfl (fun _ _ _ _ => rfl) (fun _ _ _ _ _ h => h) targeted_pair (by decide)
  obtain ⟨o, ho, hpath, -⟩ := targeted_pair.exists_outcome
  have hmem : o ∈ alone.2.report.outcomes := by
    rw [← houtcomes]
    exact List.mem_filter.2 ⟨ho, by simp [hpath]⟩
  exact ⟨targeted_pair, List.ne_nil_of_mem hmem, houtcomes, hread⟩

/-! A directory whose path says many times that it is meant: the path of a file in it is too long to
be a root. -/

/-- The working directory, and so many dots that lead from it to itself. -/
def dots (n : Nat) : Path :=
  ⟨Path.dot :: (List.replicate n [Path.slash, Path.dot]).flatten⟩

theorem bytes_dots_succ (n : Nat) : (dots (n + 1)).bytes = (dots n).bytes ++ Path.slash :: [Path.dot] := by
  rw [dots, List.replicate_succ', List.flatten_append]
  rfl

theorem length_bytes_dots (n : Nat) : (dots n).bytes.length = 2 * n + 1 := by
  simp [dots]
  omega

theorem splitSlashes_dots : ∀ n,
    Path.splitSlashes (dots n).bytes = List.replicate (n + 1) [Path.dot]
  | 0 => by decide
  | n + 1 => by
    have hdot : Path.slash ∉ [Path.dot] := by decide
    rw [bytes_dots_succ, Path.splitSlashes_eq_splitOn, List.splitOn_append_cons_self,
      List.splitOn_eq_singleton hdot, ← Path.splitSlashes_eq_splitOn, splitSlashes_dots n]
    exact List.replicate_succ'.symm

theorem getLast?_dots (n : Nat) : (dots n).bytes.getLast? ≠ some Path.slash := by
  cases n with
  | zero => decide
  | succ n => simp [bytes_dots_succ, Path.slash, Path.dot]

theorem stepsOf_dots (n : Nat) : FileTree.stepsOf (dots n) = List.replicate (n + 1) .current := by
  rw [FileTree.stepsOf_eq, FileTree.bodyOf, splitSlashes_dots, if_neg (getLast?_dots n)]
  simp [dots, FileTree.stepOf, Path.slash, Path.dot]

theorem walk_replicate_current {t : FileTree} {l : Location} (h : t.get? l = some .dir)
    (reachable : Location → Bool)
    (jump : Location → Path → List Component → Except OsError Location) :
    ∀ n, t.walk reachable jump l (List.replicate n .current) = .ok l
  | 0 => by simp [FileTree.walk]
  | n + 1 => by
    simp [List.replicate_succ, FileTree.walk, h, walk_replicate_current h reachable jump n]

theorem resolve_dots (t : FileTree) {n : Nat} (h : 2 * n + 1 ≤ FileTree.maxPath) :
    t.resolve [] (dots n) = .ok [] := by
  have hlong : ¬ FileTree.maxPath < (dots n).bytes.length := by
    rw [length_bytes_dots]
    omega
  have hnul : 0 ∉ (dots n).bytes := by
    simp [dots, Path.slash, Path.dot]
  have hne : (dots n).bytes ≠ [] := by
    simp [dots]
  have hfollow : t.follow (fun _ => true) FileTree.maxLinks [] (List.replicate (n + 1) .current)
      = .ok [] :=
    walk_replicate_current rfl _ _ _
  simp [FileTree.resolve, hnul, hne, hlong, stepsOf_dots, hfollow]

def farName : Bytes :=
  List.replicate 200 97 ++ Utf8.encode ".py"

def farSite : Site :=
  ⟨⟨[([farName], .file (Utf8.encode "x") false)], .single (by decide +kernel) _⟩, [], []⟩

def farPlan (n : Nat) : RunPlan :=
  ⟨⟨{}, ⟨fun _ _ _ => .refused .notFound, 0⟩⟩, ⟨[], false⟩, dots n, .check⟩

def farPath (n : Nat) : Path :=
  (dots n).join farName

theorem length_farName : farName.length = 203 := by
  rw [farName, List.length_append, List.length_replicate]
  decide

theorem length_farPath (n : Nat) : (farPath n).bytes.length = 2 * n + 205 := by
  have hlast : (dots n).bytes.getLast? ≠ some Path.slash := getLast?_dots n
  have hne : (dots n).bytes.isEmpty = false := rfl
  rw [farPath, Path.join, if_neg (by simp [hne, hlast]), List.length_append, List.length_cons,
    length_bytes_dots, length_farName]

theorem exists?_farPath {n : Nat} (h : FileTree.maxPath < 2 * n + 205) :
    farSite.files.exists? [] (farPath n) = false := by
  have hlong : FileTree.maxPath < (farPath n).bytes.length := by rwa [length_farPath]
  rw [FileTree.exists?, FileTree.resolve, if_pos hlong]
  split
  · rfl
  · split <;> rfl

theorem targeted_farPath {n : Nat} (h : 2 * n + 1 ≤ FileTree.maxPath)
    (h' : FileTree.maxPath < 2 * n + 205) :
    (farPlan n).Targeted [.newlineFix] farSite .newlineFix (farPath n) := by
  have hbase : farSite.files.resolve [] (dots n) = .ok [] := resolve_dots _ h
  obtain ⟨paths, htargets⟩ := exists_targets (r := farPlan n) (FileTree.exists?_of_resolve hbase)
    (.refl farSite) .newlineFix
  refine ⟨[], [], paths, rfl, rfl, htargets, ?_⟩
  refine (Discoverer.mem_discover_iff htargets).2 ⟨.below hbase ?_ ?_, ?_⟩
  · rintro ⟨content, executable, hfile⟩
    simp [FileTree.get?_nil] at hfile
  · refine List.mem_map.2 ⟨[farName], List.mem_filter.2 ⟨?_, rfl⟩, rfl⟩
    exact List.mem_filterMap.2 ⟨_, List.mem_singleton_self _, rfl⟩
  · -- what cannot be read counts as text
    have hfar := exists?_farPath h'
    show FileFilter.accepts .text farSite.files [] (farPath n) = true
    unfold FileTree.exists? at hfar
    cases hl : farSite.files.resolve [] (farPath n) with
    | ok l => simp [hl, Except.isOk, Except.toBool] at hfar
    | error e => simp [FileFilter.accepts, FileTree.read, FileTree.stat, hl, bind, Except.bind]

/-- The run of the directory reports that the file cannot be read; a run over the file alone does not
find it. -/
theorem outcomes_farPath {n : Nat} (h : 2 * n + 1 ≤ FileTree.maxPath)
    (h' : FileTree.maxPath < 2 * n + 205) :
    ((farPlan n).run [.newlineFix] farSite).2.report.outcomes.filter (·.path = farPath n) ≠ [] ∧
      (((farPlan n).only (farPath n)).run [.newlineFix] farSite).2.report.outcomes = [] := by
  constructor
  · obtain ⟨o, ho, hpath, -⟩ := (targeted_farPath h h').exists_outcome
    exact List.ne_nil_of_mem (List.mem_filter.2 ⟨ho, decide_eq_true hpath⟩)
  · rw [run_of_not_exists (r := (farPlan n).only (farPath n)) (exists?_farPath h')]
    rfl

theorem run_not_isolated :
    let r := farPlan 2000
    r.discoverer.respectGitignore = false ∧
      r.workshop.executor.launch.IgnoresFiles ∧ r.workshop.executor.launch.Uniform ∧
      r.Targeted [.newlineFix] farSite .newlineFix (farPath 2000) ∧
      (r.run [.newlineFix] farSite).2.report.outcomes.filter (·.path = farPath 2000)
        ≠ ((r.only (farPath 2000)).run [.newlineFix] farSite).2.report.outcomes := by
  have h : 2 * 2000 + 1 ≤ FileTree.maxPath := by decide
  have h' : FileTree.maxPath < 2 * 2000 + 205 := by decide
  obtain ⟨hwhole, halone⟩ := outcomes_farPath h h'
  refine ⟨rfl, fun _ _ _ _ => rfl, fun _ _ _ _ _ h => h, targeted_farPath h h', ?_⟩
  rw [halone]
  exact hwhole

end RunPlan

end CodeTidy
