import CodeTidy.Proofs.Comment.Idempotence
import CodeTidy.Proofs.Operation.Settled

/-!
# Reflowing a source file

Applying `docformat` to a source writes its comments reflowed, and a source whose comments have been
reflowed is kept (`Workshop.propose_docformat_of_reflowed`).  So one application settles the file
(`Workshop.docformat_settles`).
-/

namespace CodeTidy

theorem reflowed_reflowed (lineLength : Nat) (source : String) :
    reflowed lineLength (reflowed lineLength source) = reflowed lineLength source := by
  rw [reflowed, reflowed, String.toList_ofList, Comment.reflow_reflow]

namespace Workshop

variable {w : Workshop} {s : Site} {path : Path} {text : String}

theorem propose_docformat (hr : s.readText path = .ok text) :
    w.propose s .docformat path = .ofContents (Utf8.encode text)
      (Utf8.encode (reflowed w.settings.black.lineLength text)) := by
  rw [propose, hr]
  rfl

theorem propose_docformat_of_reflowed
    (hr : s.readText path = .ok (reflowed w.settings.black.lineLength text)) :
    w.propose s .docformat path = .keep := by
  rw [propose_docformat hr, reflowed_reflowed, Proposal.ofContents, if_pos rfl]

theorem readText_perform_docformat (hr : s.readText path = .ok text) :
    (w.perform .apply .docformat path s).2.readText path
      = .ok (reflowed w.settings.black.lineLength text) := by
  have hold := Site.readText_eq_ok_iff.1 hr
  rw [Site.readText_eq_ok_iff, (w.samePaths_perform .apply .docformat path s).workingDirectory]
  exact read_perform_of_ofContents (propose_docformat hr) hold

/-- **Reflowing settles a source.**  Reflowing a text twice is reflowing it once.  So after
`docformat` has been applied to a file, a check finds the file clean, and applying it again leaves
its bytes as they are.  A file that cannot be read as text is an error and is left alone. -/
theorem docformat_settles (w : Workshop) (s : Site) (path : Path) :
    let lineLength := w.settings.black.lineLength
    let done := (w.perform .apply .docformat path s).2
    (∀ lineLength source, Comment.reflow lineLength (Comment.reflow lineLength source)
        = Comment.reflow lineLength source) ∧
      (w.perform .apply .docformat path done).2.files = done.files ∧
      ((∃ text, s.readText path = .ok text ∧
          done.readText path = .ok (reflowed lineLength text) ∧
          (w.perform .check .docformat path done).1.status = .clean) ∨
        ∃ error, s.readText path = .error error ∧
          (w.perform .apply .docformat path s).1.status = .error ∧ done.files = s.files) := by
  intro lineLength done
  refine ⟨Comment.reflow_reflow, ?_⟩
  cases hr : s.readText path with
  | ok text =>
    have hdone : done.readText path = .ok (reflowed lineLength text) :=
      readText_perform_docformat hr
    have hkeep : w.propose done .docformat path = .keep := propose_docformat_of_reflowed hdone
    refine ⟨files_perform_of_none hkeep rfl, .inl ⟨text, rfl, hdone, ?_⟩⟩
    rw [outcome_perform hkeep]
    rfl
  | error error =>
    have hfailed : w.propose s .docformat path = .failed error := by
      rw [propose, hr]
      rfl
    have hfiles : done.files = s.files := files_perform_of_none hfailed rfl
    have hagain : w.propose done .docformat path = .failed error := by
      have hwd : done.workingDirectory = s.workingDirectory :=
        (w.samePaths_perform .apply .docformat path s).workingDirectory
      have hr' : done.readText path = .error error := by
        rw [← hr]
        exact Site.readText_congr (by rw [hfiles, hwd])
      rw [propose, hr']
      rfl
    refine ⟨files_perform_of_none hagain rfl, .inr ⟨error, rfl, ?_, hfiles⟩⟩
    rw [outcome_perform hfailed]
    rfl

end Workshop

end CodeTidy
