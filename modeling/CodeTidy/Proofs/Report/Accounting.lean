import CodeTidy.Lookup
import CodeTidy.Report.Outcome

/-!
# What a report counts

A report is made by mentioning operations and pushing outcomes, one entry after another
(`Report.ofEntries`).  It lists the operations in the order in which they were first mentioned and
keeps the outcomes in theirs (`Report.tracks_ofEntries`).  Its tallies are recomputed from these two
lists: each operation has the tally of its own outcomes (`Report.summaries_eq`), these add up to the
tally of all (`Report.sum_summaries`), and the exit code is the worst severity of an outcome
(`Report.exitCode_eq_worst`).
-/

namespace CodeTidy

/-! ### Tallies -/

namespace Tally

attribute [ext] Tally

instance : Zero Tally :=
  ⟨{}⟩

instance : Add Tally :=
  ⟨fun a b => ⟨a.clean + b.clean, a.modified + b.modified, a.violations + b.violations,
    a.errors + b.errors⟩⟩

def count (t : Tally) : Status → Nat
  | .clean => t.clean
  | .modified => t.modified
  | .violation => t.violations
  | .error => t.errors

theorem ext_count {t t' : Tally} (h : ∀ status, t.count status = t'.count status) : t = t' :=
  Tally.ext (h .clean) (h .modified) (h .violation) (h .error)

@[simp] theorem count_zero (status : Status) : (0 : Tally).count status = 0 := by
  cases status <;> rfl

theorem count_empty (status : Status) : ({} : Tally).count status = 0 :=
  count_zero status

@[simp] theorem count_add (a b : Tally) (status : Status) :
    (a + b).count status = a.count status + b.count status := by
  cases status <;> rfl

@[simp] theorem count_record (t : Tally) (status status' : Status) :
    (t.record status).count status' = t.count status' + if status = status' then 1 else 0 := by
  cases status <;> cases status' <;> rfl

theorem count_foldl_record (outcomes : List Outcome) (t : Tally) (status : Status) :
    (outcomes.foldl (fun t o => t.record o.status) t).count status
      = t.count status + outcomes.countP (·.status == status) := by
  induction outcomes generalizing t with
  | nil => rfl
  | cons o os ih =>
    rw [List.foldl_cons, ih, count_record, List.countP_cons]
    simp only [beq_iff_eq]
    omega

theorem count_ofOutcomes (outcomes : List Outcome) (status : Status) :
    (ofOutcomes outcomes).count status = outcomes.countP (·.status == status) := by
  rw [ofOutcomes, count_foldl_record, count_empty, Nat.zero_add]

theorem files_ofOutcomes (outcomes : List Outcome) :
    (ofOutcomes outcomes).files = outcomes.length := by
  have hfold : ∀ t : Tally, (outcomes.foldl (fun t o => t.record o.status) t).files
      = t.files + outcomes.length := by
    induction outcomes with
    | nil => intro t; rfl
    | cons o os ih =>
      intro t
      rw [List.foldl_cons, ih, files_record, List.length_cons]
      omega
  exact (hfold {}).trans (Nat.zero_add _)

end Tally

/-! ### Tables of tallies -/

namespace Summaries

variable {table : Summaries} {o : Outcome}

/-- An outcome of an operation that is there is counted where the operation stands. -/
theorem record_eq_map (hn : (table.map Prod.fst).Nodup) (ho : o.operation ∈ table.map Prod.fst) :
    table.record o
      = table.map fun x => (x.1, if x.1 = o.operation then x.2.record o.status else x.2) := by
  induction table with
  | nil => simp at ho
  | cons x table ih =>
    obtain ⟨hx, hn⟩ := List.nodup_cons.1 hn
    rw [record, List.map_cons]
    by_cases h : x.1 = o.operation
    · have hrest : ∀ y ∈ table, ¬ y.1 = o.operation := fun y hy e =>
        hx (List.mem_map.2 ⟨y, hy, e.trans h.symm⟩)
      rw [if_pos h, if_pos h]
      congr 1
      refine (List.map_id table).symm.trans (List.map_congr_left fun y hy => ?_)
      rw [if_neg (hrest y hy)]
      rfl
    · rw [if_neg h, if_neg h, ih hn ((List.mem_cons.1 ho).resolve_left fun e => h e.symm)]

/-- Outcomes of operations that are there are counted where their operations stand. -/
theorem foldl_record_eq_map {outcomes : List Outcome} (hn : (table.map Prod.fst).Nodup)
    (ho : ∀ o ∈ outcomes, o.operation ∈ table.map Prod.fst) :
    outcomes.foldl record table = table.map fun x =>
      (x.1, (outcomes.filter (·.operation == x.1)).foldl (fun t o => t.record o.status) x.2) := by
  induction outcomes generalizing table with
  | nil => exact (List.map_id table).symm
  | cons o os ih =>
    obtain ⟨ho, hos⟩ := List.forall_mem_cons.1 ho
    have hkeys : (table.record o).map Prod.fst = table.map Prod.fst := by
      rw [record_eq_map hn ho, List.map_map]
      rfl
    rw [List.foldl_cons, ih (by rwa [hkeys]) (by rwa [hkeys]), record_eq_map hn ho, List.map_map]
    refine List.map_congr_left fun x _ => ?_
    simp only [Function.comp_apply, List.filter_cons, beq_iff_eq, eq_comm (a := x.1)]
    split <;> rfl

/-- The sum of the tallies of all operations. -/
def sum (table : Summaries) : Tally :=
  (table.map Prod.snd).sum

/-- Wherever an outcome is counted, the sum counts it. -/
theorem count_sum_record (table : Summaries) (o : Outcome) (status : Status) :
    (table.record o).sum.count status
      = table.sum.count status + if o.status = status then 1 else 0 := by
  induction table with
  | nil => simp [record, sum, Tally.count_empty]
  | cons x table ih =>
    rw [record]
    unfold sum at ih ⊢
    split
    · simp only [List.map_cons, List.sum_cons, Tally.count_add, Tally.count_record]
      omega
    · simp only [List.map_cons, List.sum_cons, Tally.count_add, ih]
      omega

theorem count_sum_foldl_record (outcomes : List Outcome) (table : Summaries) (status : Status) :
    (outcomes.foldl record table).sum.count status
      = table.sum.count status + outcomes.countP (·.status == status) := by
  induction outcomes generalizing table with
  | nil => rfl
  | cons o os ih =>
    rw [List.foldl_cons, ih, count_sum_record, List.countP_cons]
    simp only [beq_iff_eq]
    omega

end Summaries

/-! ### Reports that grow -/

namespace Report

variable {report : Report} {names : List String} {name : String}

theorem operations_beginOperation (h : report.operations = names.eraseDups) :
    (report.beginOperation name).operations = (names ++ [name]).eraseDups := by
  rw [List.eraseDups_append, beginOperation, h]
  by_cases hm : name ∈ names
  · simp [List.removeAll, hm, h]
  · simp [List.removeAll, hm, List.eraseDups_cons]

theorem mem_operations_beginOperation (report : Report) (name : String) :
    name ∈ (report.beginOperation name).operations := by
  unfold beginOperation
  split
  · rename_i h
    exact List.contains_iff_mem.1 h
  · exact List.mem_append_right _ (List.mem_singleton_self name)

theorem mode_beginOperation (report : Report) (name : String) :
    (report.beginOperation name).mode = report.mode := by
  unfold beginOperation
  split <;> rfl

/-- An outcome of an operation that was mentioned is put at the end. -/
theorem push_of_mem {o : Outcome} (h : o.operation ∈ report.operations) :
    report.push o = { report with outcomes := report.outcomes ++ [o] } := by
  rw [push, beginOperation, if_pos (List.contains_iff_mem.2 h)]

theorem outcomes_beginOperation (report : Report) (name : String) :
    (report.beginOperation name).outcomes = report.outcomes := by
  unfold beginOperation
  split <;> rfl

/-- What is entered into a report. -/
inductive Entry where
  /-- An operation is mentioned. -/
  | mention (operation : String)
  | push (o : Outcome)

def Entry.operation : Entry → String
  | mention operation => operation
  | push o => o.operation

def Entry.outcome? : Entry → Option Outcome
  | mention _ => none
  | push o => some o

/-- The report with one more entry. -/
def enter (report : Report) : Entry → Report
  | .mention name => report.beginOperation name
  | .push o => report.push o

/-- The report that is made by entries, one after another. -/
def ofEntries (mode : Mode) (entries : List Entry) : Report :=
  entries.foldl enter ⟨mode, [], []⟩

/-- The two lists of a report are those of its entries. -/
structure Tracks (report : Report) (entries : List Entry) : Prop where
  operations : report.operations = (entries.map Entry.operation).eraseDups
  outcomes : report.outcomes = entries.filterMap Entry.outcome?

variable {entries : List Entry} {mode : Mode}

theorem Tracks.enter (h : report.Tracks entries) (entry : Entry) :
    (report.enter entry).Tracks (entries ++ [entry]) := by
  constructor
  · rw [List.map_append, List.map_singleton]
    cases entry with
    | mention name => exact operations_beginOperation h.operations
    | push o => exact operations_beginOperation h.operations
  · rw [List.filterMap_append, ← h.outcomes]
    cases entry with
    | mention name => simp [Report.enter, Entry.outcome?, outcomes_beginOperation]
    | push o => simp [Report.enter, Entry.outcome?, push, outcomes_beginOperation]

/-- **A report tracks its entries**, whatever their order. -/
theorem tracks_ofEntries (mode : Mode) (entries : List Entry) :
    (ofEntries mode entries).Tracks entries := by
  have hfold : ∀ (rest done : List Entry) (report : Report), report.Tracks done →
      (rest.foldl Report.enter report).Tracks (done ++ rest) := by
    intro rest
    induction rest with
    | nil => simp
    | cons entry rest ih =>
      intro done report h
      rw [List.append_cons]
      exact ih _ _ (h.enter entry)
  exact hfold entries [] ⟨mode, [], []⟩ ⟨rfl, rfl⟩

theorem Tracks.nodup (h : report.Tracks entries) : report.operations.Nodup := by
  rw [h.operations]
  exact nodup_eraseDups _

theorem Tracks.mem_operations (h : report.Tracks entries) {o : Outcome}
    (ho : o ∈ report.outcomes) : o.operation ∈ report.operations := by
  rw [h.outcomes] at ho
  obtain ⟨entry, he, ho⟩ := List.mem_filterMap.1 ho
  rw [h.operations, List.mem_eraseDups]
  cases entry with
  | mention name => simp [Entry.outcome?] at ho
  | push o' =>
    obtain rfl : o' = o := Option.some.inj ho
    exact List.mem_map.2 ⟨_, he, rfl⟩

/-! ### Tallies of a report -/

/-- **Each operation has the tally of its own outcomes**, in the order of the operations. -/
theorem Tracks.summaries_eq (h : report.Tracks entries) :
    report.summaries = report.operations.map fun name =>
      (name, Tally.ofOutcomes (report.outcomes.filter (·.operation == name))) := by
  have hkeys : (report.operations.map fun name => (name, ({} : Tally))).map Prod.fst
      = report.operations := by
    rw [List.map_map]
    exact List.map_id _
  rw [summaries, Summaries.foldl_record_eq_map (by rw [hkeys]; exact h.nodup)
    fun o ho => by rw [hkeys]; exact h.mem_operations ho, List.map_map]
  rfl

/-- **The tallies of the operations add up to the tally of the report.** -/
theorem sum_summaries (report : Report) : report.summaries.sum = report.total := by
  refine Tally.ext_count fun status => ?_
  have hzero : (Summaries.sum (report.operations.map fun name => (name, {}))).count status = 0 := by
    induction report.operations with
    | nil => exact Tally.count_zero status
    | cons name names ih =>
      unfold Summaries.sum at ih ⊢
      rw [List.map_cons, List.map_cons, List.sum_cons, Tally.count_add, ih, Tally.count_empty]
  rw [summaries, Summaries.count_sum_foldl_record, hzero, Nat.zero_add, total,
    Tally.count_ofOutcomes]

/-! ### Exit codes -/

theorem hasErrors_iff : report.hasErrors = true ↔ ∃ o ∈ report.outcomes, o.status = .error := by
  simp [hasErrors]

theorem hasViolations_iff :
    report.hasViolations = true ↔ ∃ o ∈ report.outcomes, o.status = .violation := by
  simp [hasViolations]

/-- The exit code tells the worst that came. -/
theorem exitCode_iff (report : Report) :
    (report.exitCode = 2 ↔ ∃ o ∈ report.outcomes, o.status = .error) ∧
      (report.exitCode = 1 ↔ (¬ ∃ o ∈ report.outcomes, o.status = .error) ∧
        ∃ o ∈ report.outcomes, o.status = .violation) ∧
      (report.exitCode = 0 ↔ (¬ ∃ o ∈ report.outcomes, o.status = .error) ∧
        ¬ ∃ o ∈ report.outcomes, o.status = .violation) := by
  rw [← hasErrors_iff, ← hasViolations_iff, exitCode]
  cases report.hasErrors <;> cases report.hasViolations <;> simp

end Report

/-- How bad a status is. -/
def Status.severity : Status → Nat
  | .clean => 0
  | .modified => 0
  | .violation => 1
  | .error => 2

/-- The greatest severity of outcomes. -/
def worst (outcomes : List Outcome) : Nat :=
  (outcomes.map (·.status.severity)).foldr max 0

theorem worst_cons (o : Outcome) (os : List Outcome) :
    worst (o :: os) = max o.status.severity (worst os) :=
  rfl

theorem worst_append (a b : List Outcome) : worst (a ++ b) = max (worst a) (worst b) := by
  induction a with
  | nil => exact (Nat.zero_max _).symm
  | cons o os ih =>
    rw [List.cons_append, worst_cons, worst_cons, ih, Nat.max_assoc]

theorem worst_perm {a b : List Outcome} (h : a.Perm b) : worst a = worst b := by
  induction h with
  | nil => rfl
  | cons o _ ih => exact congrArg (max o.status.severity) ih
  | swap o o' os => exact Nat.max_left_comm _ _ _
  | trans _ _ ih ih' => exact ih.trans ih'

namespace Report

/-- **The exit code is the greatest severity of an outcome.** -/
theorem exitCode_eq_worst (report : Report) : report.exitCode = worst report.outcomes := by
  unfold exitCode hasErrors hasViolations
  induction report.outcomes with
  | nil => rfl
  | cons o os ih =>
    rw [worst_cons, ← ih, List.any_cons, List.any_cons]
    cases o.status <;> cases os.any (·.status == .error) <;>
      cases os.any (·.status == .violation) <;> rfl

end Report

end CodeTidy
