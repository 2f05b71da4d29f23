import CodeTidy.Proofs.Discovery.Targets
import CodeTidy.Proofs.Operation.Prediction
import CodeTidy.Proofs.Report.Accounting
import CodeTidy.Run

/-!
# The steps of a run

A run performs an operation on a file, then on the next (`RunPlan.Visits`).  What holds at the start
and is kept by every such step holds at the end (`RunPlan.run_induction`); a step is only taken for
a file that the operation discovered when its turn came (`RunPlan.Targeted`).
-/

namespace CodeTidy

namespace RunPlan

variable {r : RunPlan} {op : Operation} {s s' : Site} {path : Path} {paths : List Path}
  {outcomes : List Outcome} {p p' : Progress} {ops : List Operation}
  {I : Site → List Outcome → Prop}

/-! ### The files of one operation -/

/-- An operation is performed on files one after another, on each at the site that the one before
left, and each has its outcome. -/
inductive Visits (r : RunPlan) (op : Operation) : Site → List Path → List Outcome → Site → Prop
  | nil (s : Site) : Visits r op s [] [] s
  | cons {s s' : Site} {path : Path} {paths : List Path} {outcomes : List Outcome}
      (h : Visits r op (r.workshop.perform r.mode op path s).2 paths outcomes s') :
      Visits r op s (path :: paths)
        ((r.workshop.perform r.mode op path s).1 :: outcomes) s'

theorem Visits.samePaths (h : r.Visits op s paths outcomes s') : s.SamePaths s' := by
  induction h with
  | nil s => exact .refl s
  | cons _ ih => exact (r.workshop.samePaths_perform r.mode op _ _).trans ih

theorem Visits.map_outcomes (h : r.Visits op s paths outcomes s') :
    outcomes.map (fun o => (o.operation, o.path)) = paths.map fun path => (op.name, path) := by
  induction h with
  | nil s => rfl
  | cons _ ih =>
    rename_i s s' path paths outcomes _
    obtain ⟨hpath, hop⟩ := r.workshop.path_perform r.mode op path s
    rw [List.map_cons, List.map_cons, hpath, hop, ih]

theorem visits_visitAll (r : RunPlan) (op : Operation) :
    ∀ (paths : List Path) (p : Progress), op.name ∈ p.report.operations →
      ∃ outcomes s', r.Visits op p.site paths outcomes s' ∧
        r.visitAll op p paths = ⟨s', { p.report with outcomes := p.report.outcomes ++ outcomes },
          p.events ++ outcomes.map .performed⟩
  | [], p, _ => ⟨[], p.site, .nil _, by simp [visitAll]⟩
  | path :: paths, p, h => by
    have hvisit : r.visit op p path = ⟨(r.workshop.perform r.mode op path p.site).2,
        { p.report with
          outcomes := p.report.outcomes ++ [(r.workshop.perform r.mode op path p.site).1] },
        p.events ++ [.performed (r.workshop.perform r.mode op path p.site).1]⟩ := by
      have hop := (r.workshop.path_perform r.mode op path p.site).2
      unfold visit
      dsimp only
      rw [Report.push_of_mem (by rwa [hop])]
    obtain ⟨outcomes, s', hvisits, hall⟩ := visits_visitAll r op paths (r.visit op p path)
      (by rwa [hvisit])
    refine ⟨(r.workshop.perform r.mode op path p.site).1 :: outcomes, s', ?_, ?_⟩
    · rw [hvisit] at hvisits
      exact .cons hvisits
    · rw [visitAll, List.foldl_cons, ← visitAll, hall, hvisit]
      simp

/-- What every visit keeps holds after all of them. -/
theorem Visits.induction (h : r.Visits op s paths outcomes s')
    (hstep : ∀ path ∈ paths, ∀ s os, I s os → I (r.workshop.perform r.mode op path s).2
      (os ++ [(r.workshop.perform r.mode op path s).1])) :
    ∀ {os : List Outcome}, I s os → I s' (os ++ outcomes) := by
  induction h with
  | nil s =>
    intro os hs
    rwa [List.append_nil]
  | cons _ ih =>
    intro os hs
    obtain ⟨hpath, hpaths⟩ := List.forall_mem_cons.1 hstep
    rw [List.append_cons]
    exact ih hpaths (hpath _ _ hs)

/-! ### One operation -/

theorem filterMap_opening (r : RunPlan) (op : Operation) (s : Site) :
    (r.opening op s).filterMap RunEvent.outcome? = [] := by
  unfold opening
  cases r.discoverer.warning? s.files s.workingDirectory r.root <;> rfl

theorem visits_stage (h : r.targets op p.site = .ok paths) :
    ∃ p' outcomes, r.stage p op = .ok p' ∧ r.Visits op p.site paths outcomes p'.site ∧
      p'.report = { p.report.beginOperation op.name with
        outcomes := p.report.outcomes ++ outcomes } ∧
      p'.events.filterMap RunEvent.outcome?
        = p.events.filterMap RunEvent.outcome? ++ outcomes := by
  obtain ⟨outcomes, s', hvisits, hall⟩ := visits_visitAll r op paths
    { p with
      report := p.report.beginOperation op.name
      events := p.events ++ r.opening op p.site }
    (Report.mem_operations_beginOperation _ _)
  unfold stage
  rw [h]
  dsimp only
  rw [hall]
  refine ⟨_, outcomes, rfl, hvisits, ?_, ?_⟩
  · rw [Report.outcomes_beginOperation]
  · have htold : (outcomes.map RunEvent.performed).filterMap RunEvent.outcome? = outcomes := by
      rw [List.filterMap_map]
      exact List.filterMap_some
    rw [List.filterMap_append, List.filterMap_append, List.filterMap_append, filterMap_opening,
      htold]
    simp [RunEvent.outcome?]

theorem visits_of_stage (h : r.stage p op = .ok p') :
    ∃ paths outcomes, r.targets op p.site = .ok paths ∧
      r.Visits op p.site paths outcomes p'.site ∧
      p'.report.outcomes = p.report.outcomes ++ outcomes := by
  cases htargets : r.targets op p.site with
  | error e => simp [stage, htargets] at h
  | ok paths =>
    obtain ⟨p'', outcomes, hstage, hvisits, hreport, -⟩ := visits_stage htargets
    obtain rfl := Except.ok.inj (h.symm.trans hstage)
    exact ⟨paths, outcomes, rfl, hvisits, by rw [hreport]⟩

/-! ### Induction over the steps of a run -/

/-- A file that an operation of the run discovers when its turn comes. -/
def Targeted (r : RunPlan) (ops : List Operation) (s : Site) (op : Operation) (path : Path) :
    Prop :=
  ∃ pre post paths, ops = pre ++ op :: post ∧ (r.run pre s).1 = none ∧
    r.targets op (r.run pre s).2.site = .ok paths ∧ path ∈ paths

/-- A run over two lists of operations takes up where the first left off. -/
theorem stages_append (rest : List Operation) :
    ∀ {ops : List Operation} {p p' : Progress}, r.stages p ops = (none, p') →
      r.stages p (ops ++ rest) = r.stages p' rest
  | [], _, _, h => by
    obtain ⟨-, rfl⟩ := Prod.mk.inj h
    rfl
  | op :: ops, p, p', h => by
    rw [List.cons_append, stages]
    rw [stages] at h
    split at h
    · simp at h
    · exact stages_append rest h

theorem stages_induction
    (visit : ∀ op path, r.Targeted ops s op path → ∀ s' os, I s' os →
      I (r.workshop.perform r.mode op path s').2
        (os ++ [(r.workshop.perform r.mode op path s').1])) :
    ∀ (rest : List Operation) {pre : List Operation} {p : Progress}, ops = pre ++ rest →
      r.run pre s = (none, p) → I p.site p.report.outcomes →
      I (r.stages p rest).2.site (r.stages p rest).2.report.outcomes
  | [], _, _, _, _, h => h
  | op :: rest, pre, p, hops, hrun, h => by
    cases hstage : r.stage p op with
    | error e =>
      rw [stages, hstage]
      exact h
    | ok p' =>
      -- what has been performed without an error grows by `op`
      have hnext : r.run (pre ++ [op]) s = (none, p') := by
        rw [run, stages_append [op] hrun, stages, hstage]
        rfl
      rw [stages, hstage]
      refine stages_induction visit rest (by rw [hops, List.append_assoc]; rfl) hnext ?_
      obtain ⟨paths, outcomes, hpaths, hvisits, hos⟩ := visits_of_stage hstage
      rw [hos]
      refine hvisits.induction (fun path hpath => ?_) h
      refine visit op path ⟨pre, rest, paths, hops, ?_, ?_, hpath⟩
      · rw [hrun]
      · rw [hrun]
        exact hpaths

theorem samePaths_run (r : RunPlan) (ops : List Operation) (s : Site) :
    s.SamePaths (r.run ops s).2.site :=
  stages_induction (I := fun s' _ => s.SamePaths s')
    (fun op path _ s' _ hs => hs.trans (r.workshop.samePaths_perform r.mode op path s'))
    ops (List.nil_append ops).symm rfl (.refl s)

/-- **What holds at the start of a run and is kept by every step holds at its end.**  A property
is one of the site and of the outcomes so far; paths lead throughout where they led at the start. -/
theorem run_induction (start : I s [])
    (visit : ∀ op path, r.Targeted ops s op path → ∀ s' os, s.SamePaths s' → I s' os →
      I (r.workshop.perform r.mode op path s').2
        (os ++ [(r.workshop.perform r.mode op path s').1])) :
    I (r.run ops s).2.site (r.run ops s).2.report.outcomes := by
  refine (stages_induction (I := fun s' os => s.SamePaths s' ∧ I s' os) ?_ ops
    (List.nil_append ops).symm rfl ⟨.refl s, start⟩).2
  intro op path ht s' os h
  exact ⟨h.1.trans (r.workshop.samePaths_perform r.mode op path s'), visit op path ht s' os h.1 h.2⟩

/-! ### One file among those of a run -/

/-- A file that an operation of the run discovers is offered at the start already, but for what has
been written since. -/
theorem Targeted.offers {op : Operation} {path : Path} (h : r.Targeted ops s op path) :
    ∃ t, s.files.SameShape t ∧ r.discoverer.Offers t s.workingDirectory r.root path := by
  obtain ⟨pre, post, paths, -, -, ht, hpath⟩ := h
  obtain ⟨hshape, hwd⟩ := r.samePaths_run pre s
  rw [targets, hwd] at ht
  exact ⟨_, hshape, ((Discoverer.mem_discover_iff ht).1 hpath).1⟩

/-- In two runs over a tree, only one path of those that are worked on leads to a location. -/
theorem Targeted.eq_of_resolve {ops' : List Operation} {op op' : Operation}
    {path path' : Path} {l : Location} (h : r.Targeted ops s op path)
    (h' : r.Targeted ops' s' op' path') (hshape : s.files.SameShape s'.files)
    (hwd : s'.workingDirectory = s.workingDirectory)
    (hl : s.files.resolve s.workingDirectory path = .ok l)
    (hl' : s'.files.resolve s.workingDirectory path' = .ok l) : path = path' := by
  obtain ⟨t, ht, hoffers⟩ := h.offers
  obtain ⟨t', ht', hoffers'⟩ := h'.offers
  rw [hwd] at hoffers'
  refine hoffers.eq_of_resolve (ht.symm.trans (hshape.trans ht')) hoffers'
    ((ht.resolve _ _).trans hl) ((ht.resolve _ _).trans ?_)
  rw [← hshape.resolve, hl']

/-! ### The report of a run -/

theorem outcomes_isPrefix_stages :
    ∀ (ops : List Operation) (p : Progress),
      p.report.outcomes <+: (r.stages p ops).2.report.outcomes
  | [], p => List.prefix_rfl
  | op :: ops, p => by
    rw [stages]
    split
    · exact List.prefix_rfl
    · rename_i p' hstage
      obtain ⟨paths, os, -, -, hos⟩ := visits_of_stage hstage
      have hp' : p.report.outcomes <+: p'.report.outcomes := ⟨os, hos.symm⟩
      exact hp'.trans (outcomes_isPrefix_stages ops p')

/-- **The report has an outcome for every file that an operation discovers.** -/
theorem Targeted.exists_outcome {op : Operation} {path : Path} (h : r.Targeted ops s op path) :
    ∃ o ∈ (r.run ops s).2.report.outcomes, o.path = path ∧ o.operation = op.name := by
  obtain ⟨pre, post, paths, rfl, hpre, hpaths, hpath⟩ := h
  have hrun : r.run (pre ++ op :: post) s = r.stages (r.run pre s).2 (op :: post) :=
    stages_append (op :: post) (Prod.ext hpre rfl)
  rw [hrun, stages]
  split
  · rename_i e hstage
    simp [stage, hpaths] at hstage
  · rename_i p' hstage
    obtain ⟨paths', os, hpaths', hvisits, hos⟩ := visits_of_stage hstage
    obtain rfl := Except.ok.inj (hpaths.symm.trans hpaths')
    have hmem : (op.name, path) ∈ os.map fun o => (o.operation, o.path) := by
      rw [hvisits.map_outcomes]
      exact List.mem_map_of_mem hpath
    obtain ⟨o, ho, heq⟩ := List.mem_map.1 hmem
    obtain ⟨hop, hpath'⟩ := Prod.mk.inj heq
    have ho' : o ∈ p'.report.outcomes := by
      rw [hos]
      exact List.mem_append_right _ ho
    exact ⟨o, (outcomes_isPrefix_stages post p').subset ho', hpath', hop⟩

theorem targeted_of_mem_outcomes {o : Outcome} (h : o ∈ (r.run ops s).2.report.outcomes) :
    ∃ op, r.Targeted ops s op o.path ∧ o.operation = op.name := by
  refine run_induction (r := r) (s := s) (I := fun _ os =>
    ∀ o ∈ os, ∃ op, r.Targeted ops s op o.path ∧ o.operation = op.name)
    (by simp) (fun op path ht s' os _ hos o ho => ?_) o h
  rcases List.mem_append.1 ho with ho | ho
  · exact hos o ho
  · obtain rfl := List.mem_singleton.1 ho
    obtain ⟨hpath, hop⟩ := r.workshop.path_perform r.mode op path s'
    exact ⟨op, by rwa [hpath], hop⟩

end RunPlan

end CodeTidy
