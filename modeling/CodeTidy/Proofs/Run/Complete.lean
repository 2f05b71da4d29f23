import CodeTidy.Proofs.Run.Steps

/-!
# Runs are complete

A run below a root that is there performs every operation on every file that the operation
discovers when its turn comes, also when it failed on others (`RunPlan.Performs`).  Its report
and what it tells while it goes on are exactly those outcomes, in that order
(`RunPlan.run_complete`).
-/

namespace CodeTidy

namespace RunPlan

variable {r : RunPlan} {op : Operation} {s s' : Site} {path : Path} {paths : List Path}
  {outcomes : List Outcome} {found : List (Operation × List Path)} {p p' : Progress}
  {ops : List Operation}

/-! ### The operations of a run -/

/-- Operations are performed one after another, each on the files that it discovers at the site
which those before it left. -/
inductive Performs (r : RunPlan) :
    Site → List (Operation × List Path) → List Outcome → Site → Prop
  | nil (s : Site) : Performs r s [] [] s
  | cons {s s' s'' : Site} {op : Operation} {paths : List Path}
      {found : List (Operation × List Path)} {outcomes outcomes' : List Outcome}
      (targets : r.targets op s = .ok paths) (visits : r.Visits op s paths outcomes s')
      (rest : Performs r s' found outcomes' s'') :
      Performs r s ((op, paths) :: found) (outcomes ++ outcomes') s''

theorem Performs.targets_first (h : r.Performs s ((op, paths) :: found) outcomes s') :
    r.targets op s = .ok paths := by
  cases h
  assumption

theorem Performs.first_mem (h : r.Performs s ((op, path :: paths) :: found) outcomes s') :
    (r.workshop.perform r.mode op path s).1 ∈ outcomes := by
  cases h with
  | cons _ visits _ =>
    cases visits
    exact List.mem_append_left _ List.mem_cons_self

theorem Performs.snoc {s'' : Site} {outcomes' : List Outcome}
    (h : r.Performs s found outcomes s') (targets : r.targets op s' = .ok paths)
    (visits : r.Visits op s' paths outcomes' s'') :
    r.Performs s (found ++ [(op, paths)]) (outcomes ++ outcomes') s'' := by
  induction h with
  | nil s => simpa using Performs.cons targets visits (.nil s'')
  | cons first visited _ ih =>
    rw [List.append_assoc]
    exact .cons first visited (ih targets visits)

theorem Performs.samePaths (h : r.Performs s found outcomes s') : s.SamePaths s' := by
  induction h with
  | nil s => exact .refl s
  | cons _ visits _ ih => exact visits.samePaths.trans ih

theorem Visits.deterministic {s'' : Site} {outcomes' : List Outcome}
    (h : r.Visits op s paths outcomes s') (h' : r.Visits op s paths outcomes' s'') :
    outcomes = outcomes' ∧ s' = s'' := by
  induction h generalizing outcomes' with
  | nil s =>
    cases h'
    exact ⟨rfl, rfl⟩
  | cons _ ih =>
    cases h' with
    | cons h' =>
      obtain ⟨rfl, rfl⟩ := ih h'
      exact ⟨rfl, rfl⟩

/-- The operations decide what they are performed on, and what comes of it. -/
theorem Performs.deterministic {s'' : Site} {found' : List (Operation × List Path)}
    {outcomes' : List Outcome} (h : r.Performs s found outcomes s')
    (h' : r.Performs s found' outcomes' s'') (hops : found.map Prod.fst = found'.map Prod.fst) :
    outcomes = outcomes' ∧ s' = s'' := by
  induction h generalizing found' outcomes' with
  | nil s =>
    cases h' with
    | nil => exact ⟨rfl, rfl⟩
    | cons => simp at hops
  | cons targets visits _ ih =>
    cases h' with
    | nil => simp at hops
    | cons targets' visits' rest' =>
      obtain ⟨rfl, hops'⟩ := List.cons.inj hops
      obtain rfl := Except.ok.inj (targets.symm.trans targets')
      obtain ⟨rfl, rfl⟩ := visits.deterministic visits'
      obtain ⟨rfl, rfl⟩ := ih rest' hops'
      exact ⟨rfl, rfl⟩

theorem Performs.map_outcomes (h : r.Performs s found outcomes s') :
    outcomes.map (fun o => (o.operation, o.path))
      = found.flatMap fun x => x.2.map fun path => (x.1.name, path) := by
  induction h with
  | nil s => rfl
  | cons _ visits _ ih => rw [List.map_append, visits.map_outcomes, ih, List.flatMap_cons]

theorem Performs.pairwise (h : r.Performs s found outcomes s') :
    ∀ x ∈ found, x.2.Pairwise Path.Precedes := by
  induction h with
  | nil s => simp
  | cons targets _ _ ih =>
    rw [List.forall_mem_cons]
    exact ⟨Discoverer.pairwise_discover targets, ih⟩

/-! ### What a run has come to -/

/-- What a run that began at a site has come to when it has performed operations. -/
structure Performed (r : RunPlan) (s : Site) (ops : List Operation) (p : Progress) : Prop where
  performs : ∃ found, found.map Prod.fst = ops ∧ r.Performs s found p.report.outcomes p.site
  told : p.events.filterMap RunEvent.outcome? = p.report.outcomes
  operations : p.report.operations = (ops.map Operation.name).eraseDups
  mode : p.report.mode = r.mode

theorem performed_start (r : RunPlan) (s : Site) : r.Performed s [] (r.start s) :=
  ⟨⟨[], rfl, .nil s⟩, rfl, rfl, rfl⟩

theorem Performed.stage {ops : List Operation} (h : r.Performed s ops p)
    (htargets : r.targets op p.site = .ok paths) :
    ∃ p', r.stage p op = .ok p' ∧ r.Performed s (ops ++ [op]) p' := by
  obtain ⟨p', outcomes, hstage, hvisits, hreport, hevents⟩ := visits_stage htargets
  obtain ⟨found, hfound, hperforms⟩ := h.performs
  refine ⟨p', hstage, ⟨found ++ [(op, paths)], ?_, ?_⟩, ?_, ?_, ?_⟩
  · rw [List.map_append, hfound]
    rfl
  · rw [hreport]
    exact hperforms.snoc htargets hvisits
  · rw [hevents, h.told, hreport]
  · rw [hreport, List.map_append]
    exact Report.operations_beginOperation h.operations
  · rw [hreport, ← h.mode]
    exact Report.mode_beginOperation _ _

theorem exists_targets (hroot : s.files.exists? s.workingDirectory r.root = true)
    (hs : s.SamePaths s') (op : Operation) : ∃ paths, r.targets op s' = .ok paths := by
  unfold targets Discoverer.discover
  rw [hs.resolve]
  cases hbase : s.files.resolve s.workingDirectory r.root with
  | error e =>
    rw [FileTree.exists?, hbase] at hroot
    exact Bool.noConfusion hroot
  | ok base =>
    dsimp only
    split <;> exact ⟨_, rfl⟩

theorem performed_stages (hroot : s.files.exists? s.workingDirectory r.root = true) :
    ∀ (rest : List Operation) {ops : List Operation} {p : Progress}, r.Performed s ops p →
      (r.stages p rest).1 = none ∧ r.Performed s (ops ++ rest) (r.stages p rest).2
  | [], ops, p, h => ⟨rfl, by rwa [List.append_nil]⟩
  | op :: rest, ops, p, h => by
    obtain ⟨found, -, hperforms⟩ := h.performs
    obtain ⟨paths, htargets⟩ := exists_targets hroot hperforms.samePaths op
    obtain ⟨p', hstage, hp'⟩ := h.stage htargets
    rw [stages, hstage, List.append_cons]
    exact performed_stages hroot rest hp'

theorem run_of_not_exists (hroot : s.files.exists? s.workingDirectory r.root = false)
    (op : Operation) (ops : List Operation) :
    r.run (op :: ops) s = (some (.notFound r.root), r.start s) := by
  have htargets : r.targets op (r.start s).site = .error (.notFound r.root) := by
    show r.targets op s = _
    unfold FileTree.exists? at hroot
    unfold targets Discoverer.discover
    cases hbase : s.files.resolve s.workingDirectory r.root with
    | error e => rfl
    | ok base => simp [hbase, Except.isOk, Except.toBool] at hroot
  rw [run, stages, stage, htargets]

/-- **A run ends early only where it began**: its root is not there, and nothing has been performed.
Discovery cannot fail later, because a run changes no path. -/
theorem run_eq_error {e : DiscoveryError} (h : (r.run ops s).1 = some e) :
    e = .notFound r.root ∧ s.files.exists? s.workingDirectory r.root = false ∧
      (r.run ops s).2 = r.start s := by
  cases hroot : s.files.exists? s.workingDirectory r.root with
  | true =>
    have hnone : (r.run ops s).1 = none := (performed_stages hroot ops (performed_start r s)).1
    simp [hnone] at h
  | false =>
    cases ops with
    | nil => simp [run, stages] at h
    | cons op ops =>
      rw [run_of_not_exists hroot] at h ⊢
      exact ⟨(Option.some.inj h).symm, rfl, rfl⟩

/-- **A run is complete.**  Below a root that is there it ends without an error of its own, and has
performed every operation on every file that the operation discovered when its turn came.  Its
outcomes stand in that order, whatever they are: an error takes no other outcome away and moves
none.  The same outcomes were told while the run went on.  The exit code tells the worst of them. -/
theorem run_complete (r : RunPlan) (ops : List Operation)
    (hroot : s.files.exists? s.workingDirectory r.root = true) :
    let done := (r.run ops s).2
    (r.run ops s).1 = none ∧
      (∃ found : List (Operation × List Path), found.map Prod.fst = ops ∧
        (∀ x ∈ found, x.2.Pairwise Path.Precedes) ∧
        r.Performs s found done.report.outcomes done.site ∧
        done.report.outcomes.map (fun o => (o.operation, o.path))
          = found.flatMap fun x => x.2.map fun path => (x.1.name, path)) ∧
      done.events.filterMap RunEvent.outcome? = done.report.outcomes ∧
      done.report.operations = (ops.map Operation.name).eraseDups ∧
      done.report.mode = r.mode ∧
      (done.report.exitCode = 2 ↔ ∃ o ∈ done.report.outcomes, o.status = .error) ∧
      (done.report.exitCode = 1 ↔ (¬ ∃ o ∈ done.report.outcomes, o.status = .error) ∧
        ∃ o ∈ done.report.outcomes, o.status = .violation) ∧
      (done.report.exitCode = 0 ↔ (¬ ∃ o ∈ done.report.outcomes, o.status = .error) ∧
        ¬ ∃ o ∈ done.report.outcomes, o.status = .violation) := by
  intro done
  obtain ⟨hnone, hdone⟩ := performed_stages hroot ops (performed_start r s)
  obtain ⟨found, hfound, hperforms⟩ := hdone.performs
  exact ⟨hnone, ⟨found, hfound, hperforms.pairwise, hperforms, hperforms.map_outcomes⟩,
    hdone.told, hdone.operations, hdone.mode, done.report.exitCode_iff⟩

/-! Two files, of which the first is not text, with a formatter that leaves texts as they are. -/

def faultySite : Site :=
  ⟨⟨[([Utf8.encode "b.py"], .file (Utf8.encode "x") false),
    ([Utf8.encode "a.py"], .file [255] false)], by decide⟩, [], []⟩

def faultyPlan : RunPlan :=
  ⟨⟨{}, ⟨fun _ _ i => .completed ⟨i.input, [], some 0, 0⟩, 0⟩⟩, ⟨[], true⟩, .ofString ".", .apply⟩

theorem targets_faultySite :
    faultyPlan.targets .codeFormat faultySite
      = .ok [.ofString "./a.py", .ofString "./b.py"] := by
  have hroot : faultySite.files.resolve [] faultyPlan.root = .ok [] := rfl
  exact Discoverer.discover_eq_of_perm hroot rfl (by decide) (by decide +kernel)

theorem status_faultySite :
    (faultyPlan.workshop.perform .apply .codeFormat (.ofString "./a.py") faultySite).1.status
      = .error := by
  have hpropose : faultyPlan.workshop.propose faultySite .codeFormat (.ofString "./a.py")
      = .failed (.notText (.ofString "./a.py")) := by
    rfl
  rw [Workshop.outcome_perform hpropose]
  rfl

theorem run_complete_faulty :
    let done := (faultyPlan.run [.codeFormat] faultySite).2
    faultySite.files.exists? faultySite.workingDirectory faultyPlan.root = true ∧
      done.report.outcomes.map (fun o => (o.operation, o.path))
        = [("code-format", .ofString "./a.py"), ("code-format", .ofString "./b.py")] ∧
      done.report.exitCode = 2 := by
  intro done
  have hroot : faultySite.files.exists? faultySite.workingDirectory faultyPlan.root = true := by
    rfl
  obtain ⟨-, ⟨found, hfound, -, hperforms, hmap⟩, -, -, -, hexit, -⟩ :=
    run_complete faultyPlan [.codeFormat] hroot
  rcases found with - | ⟨⟨op, paths⟩, rest⟩
  · simp at hfound
  · obtain ⟨rfl, hrest⟩ := List.cons.inj hfound
    obtain rfl := List.map_eq_nil_iff.1 hrest
    obtain rfl := Except.ok.inj (targets_faultySite.symm.trans hperforms.targets_first)
    exact ⟨hroot, hmap, hexit.2 ⟨_, hperforms.first_mem, status_faultySite⟩⟩

end RunPlan

end CodeTidy
