import CodeTidy.Proofs.Operation.Rewrites

/-!
# A check predicts a change

Performing an operation settles what it proposes (`Workshop.perform_eq`): checking writes nothing,
and applying writes the proposed bytes to the one file.  Hence the outcome of a check determines
the outcome of applying the operation, and whether the file changes
(`Workshop.check_predicts_apply`).
-/

namespace CodeTidy

/-! ### Settling a proposal -/

theorem Proposal.content?_check (p : Proposal) : p.content? .check = none := by
  cases p <;> rfl

namespace Workshop

variable {w : Workshop} {mode : Mode} {op : Operation} {path : Path} {s : Site} {p : Proposal}

theorem perform_eq (h : w.propose s op path = p) (mode : Mode) :
    w.perform mode op path s
      = (p.outcome op mode path,
          { (p.content? mode).elim s (s.write path) with
            missing := s.missing.note p.toolError? }) := by
  subst h
  have hresult : (if mode = .check || !op.fixable then w.check op s path else w.apply op s path)
      = (w.propose s op path).settle op mode path s := by
    cases mode with
    | check => exact w.check_eq_settle s path op
    | apply =>
      split
      · rename_i hf
        rw [← w.apply_eq_settle, check_eq_apply (by simpa using hf)]
      · exact w.apply_eq_settle s path op
  have hwrite : ∀ content,
      s.write path content = { s.write path content with missing := s.missing } := by
    intro content
    rw [← s.missing_write path content]
  rw [perform, hresult]
  cases w.propose s op path with
  | keep => rfl
  | replace content =>
    cases mode with
    | check => rfl
    | apply => exact congrArg (Prod.mk _) (hwrite content)
  | findings diagnostics => rfl
  | failed error => cases mode <;> rfl
  | partly failures content? =>
    cases mode with
    | check => rfl
    | apply =>
      cases content? with
      | none => rfl
      | some content => exact congrArg (Prod.mk _) (hwrite content)

theorem outcome_perform (h : w.propose s op path = p) (mode : Mode) :
    (w.perform mode op path s).1 = p.outcome op mode path := by
  rw [perform_eq h]

theorem files_perform (h : w.propose s op path = p) (mode : Mode) :
    (w.perform mode op path s).2.files = ((p.content? mode).elim s (s.write path)).files := by
  rw [perform_eq h]

theorem files_perform_of_none (h : w.propose s op path = p) (hc : p.content? mode = none) :
    (w.perform mode op path s).2.files = s.files := by
  rw [files_perform h, hc]
  rfl

theorem files_perform_check (w : Workshop) (op : Operation) (path : Path) (s : Site) :
    (w.perform .check op path s).2.files = s.files :=
  files_perform_of_none rfl (Proposal.content?_check _)

theorem read_perform (h : w.propose s op path = p) {new old : Bytes}
    (hc : p.content? mode = some new) (hr : s.files.read s.workingDirectory path = .ok old) :
    (w.perform mode op path s).2.files.read s.workingDirectory path = .ok new := by
  rw [files_perform h, hc]
  exact Site.read_write hr new

theorem read_perform_ne (h : w.propose s op path = p) {new old : Bytes}
    (hc : p.content? mode = some new) (hr : s.files.read s.workingDirectory path = .ok old)
    (hne : new ≠ old) :
    (w.perform mode op path s).2.files.read s.workingDirectory path
      ≠ s.files.read s.workingDirectory path := by
  rw [read_perform h hc hr, hr]
  exact fun e => hne (Except.ok.inj e)

/-! ### What performing an operation leaves alone -/

theorem samePaths_perform (w : Workshop) (mode : Mode) (op : Operation) (path : Path) (s : Site) :
    s.SamePaths (w.perform mode op path s).2 := by
  rw [perform_eq rfl]
  cases (w.propose s op path).content? mode with
  | none => exact ⟨.refl _, rfl⟩
  | some new =>
    obtain ⟨hshape, hwd⟩ := s.samePaths_write path new
    exact ⟨hshape, hwd⟩

theorem get?_perform_of_ne (w : Workshop) (mode : Mode) (op : Operation) {path : Path} {s : Site}
    {l : Location} (h : s.files.resolve s.workingDirectory path ≠ .ok l) :
    (w.perform mode op path s).2.files.get? l = s.files.get? l := by
  rw [files_perform rfl]
  cases (w.propose s op path).content? mode with
  | none => rfl
  | some new => exact Site.get?_write_of_ne h new

theorem read_perform_of_ne (w : Workshop) (mode : Mode) (op : Operation) {path p : Path} {s : Site}
    (h : s.files.resolve s.workingDirectory path ≠ s.files.resolve s.workingDirectory p) :
    (w.perform mode op path s).2.files.read s.workingDirectory p
      = s.files.read s.workingDirectory p :=
  (w.samePaths_perform mode op path s).shape.read_eq fun _ hl =>
    w.get?_perform_of_ne mode op (hl ▸ h)

theorem path_perform (w : Workshop) (mode : Mode) (op : Operation) (path : Path) (s : Site) :
    (w.perform mode op path s).1.path = path ∧
      (w.perform mode op path s).1.operation = op.name := by
  rw [perform_eq rfl]
  cases w.propose s op path with
  | keep => exact ⟨rfl, rfl⟩
  | replace content => cases mode <;> exact ⟨rfl, rfl⟩
  | findings diagnostics => exact ⟨rfl, rfl⟩
  | failed error => exact ⟨rfl, rfl⟩
  | partly failures content? => exact ⟨rfl, rfl⟩

/-! ### Prediction -/

/-- **The outcome of a check determines the outcome of applying an operation to the same file.**
Clean files stay as they are, errors are the same errors, and what violates the rule of an
operation that can change files is changed. -/
theorem check_predicts_apply (w : Workshop) (op : Operation) (path : Path) (s : Site) :
    let check := (w.perform .check op path s).1
    let apply := (w.perform .apply op path s).1
    let files := (w.perform .apply op path s).2.files
    check.status ≠ .modified ∧
      (check.status = .clean → apply = check ∧ files = s.files) ∧
      (check.status = .error → apply = check) ∧
      (check.status = .violation → op.fixable = true →
        apply = { check with status := .modified, message := some op.doneMessage } ∧
          files.read s.workingDirectory path ≠ s.files.read s.workingDirectory path) ∧
      (check.status = .violation → op.fixable = false → apply = check ∧ files = s.files) := by
  intro check apply files
  have hc : check = (w.propose s op path).outcome op .check path := outcome_perform rfl _
  have ha : apply = (w.propose s op path).outcome op .apply path := outcome_perform rfl _
  cases hf : op.fixable with
  | false =>
    have hr := w.reports_propose s hf path
    generalize h : w.propose s op path = p at hr hc ha
    have hfiles : files = s.files := by
      refine files_perform_of_none h ?_
      cases hr <;> rfl
    cases hr <;> simp [hc, ha, hfiles, Proposal.outcome]
  | true =>
    have hw := w.rewrites_propose s hf path
    generalize h : w.propose s op path = p at hw hc ha
    cases hw with
    | keep =>
      have hfiles : files = s.files := files_perform_of_none h rfl
      simp [hc, ha, hfiles, Proposal.outcome]
    | replace hr hne =>
      have hfiles : files.read s.workingDirectory path ≠ s.files.read s.workingDirectory path :=
        read_perform_ne h rfl hr hne
      simpa [hc, ha, Proposal.outcome] using hfiles
    | failed error => simp [hc, ha, Proposal.outcome]
    | partly failures hp => simp [hc, ha, Proposal.outcome]

end Workshop

end CodeTidy
