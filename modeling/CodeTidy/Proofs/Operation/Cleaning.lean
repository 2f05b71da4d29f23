import CodeTidy.Proofs.Notebook.Cleaning
import CodeTidy.Proofs.Operation.Prediction

/-!
# Cleaning a notebook file

A file is kept exactly when the cells of its notebook are tidy; otherwise it becomes the text of
the notebook whose cells are what `Cell.cleared` leaves of them, and cleaning it once more finds
nothing to do (`Workshop.cleaning_exact`).
-/

namespace CodeTidy

namespace Site

variable {s : Site} {path : Path} {text : String} {n : Notebook}

theorem readNotebook_of_readText (hr : s.files.readText s.workingDirectory path = .ok text)
    (hn : Notebook.parse text.toList = .ok n) : s.readNotebook path = .ok n :=
  readNotebook_eq_ok_iff.2 ⟨text, FileTree.readText_eq_ok_iff.1 hr, hn⟩

end Site

namespace Notebook

variable {text : String} {n : Notebook}

theorem written_clean (hn : parse text.toList = .ok n) (hi : n.Integral) (hc : n.cells ≠ [])
    (keys : List String) :
    ({ n with cells := n.cells.map (Cell.cleared keys) } : Notebook).Written
      (n.clean keys).render := by
  have hs := sound_of_parse hn
  rw [← clean_eq_cleared hs]
  exact written_render hn hc rfl (hs.clean keys) (hi.editAll hs [.clean keys])

end Notebook

namespace Workshop

variable {w : Workshop} {s : Site} {path : Path} {text : String} {n : Notebook}

theorem propose_cleanNotebook (hr : s.files.readText s.workingDirectory path = .ok text)
    (hn : Notebook.parse text.toList = .ok n) :
    w.propose s .cleanNotebook path
      = proposeCleaning w.settings.general.stripMetadataKeys n := by
  rw [propose, Site.readNotebook_of_readText hr hn]
  rfl

theorem perform_cleanNotebook_of_not_dirty
    (hr : s.files.readText s.workingDirectory path = .ok text)
    (hn : Notebook.parse text.toList = .ok n)
    (hd : n.isDirty w.settings.general.stripMetadataKeys = false) (mode : Mode) :
    (w.perform mode .cleanNotebook path s).1.status = .clean ∧
      (w.perform mode .cleanNotebook path s).2.files = s.files := by
  have hp : w.propose s .cleanNotebook path = .keep := by
    rw [propose_cleanNotebook hr hn, proposeCleaning, hd]
    rfl
  refine ⟨?_, files_perform_of_none hp rfl⟩
  rw [outcome_perform hp]
  rfl

theorem perform_cleanNotebook_of_dirty
    (hr : s.files.readText s.workingDirectory path = .ok text)
    (hn : Notebook.parse text.toList = .ok n)
    (hd : n.isDirty w.settings.general.stripMetadataKeys = true) :
    (w.perform .apply .cleanNotebook path s).1.status = .modified ∧
      (w.perform .apply .cleanNotebook path s).2.files.readText s.workingDirectory path
        = .ok (n.clean w.settings.general.stripMetadataKeys).render := by
  have hp : w.propose s .cleanNotebook path
      = .replace (Utf8.encode (n.clean w.settings.general.stripMetadataKeys).render) := by
    rw [propose_cleanNotebook hr hn, proposeCleaning, if_pos hd]
  constructor
  · rw [outcome_perform hp]
    rfl
  · exact FileTree.readText_eq_ok_iff.2
      (read_perform hp rfl (FileTree.readText_eq_ok_iff.1 hr))

/-- **Cleaning a notebook removes exactly what it should.**  It keeps the file, byte for byte,
exactly when every cell is tidy; else the new text is that of the same notebook with its cells
cleared.  Afterwards a check finds nothing, and applying the operation again changes nothing. -/
theorem cleaning_exact (w : Workshop) (s : Site) (path : Path)
    (hr : s.files.readText s.workingDirectory path = .ok text)
    (hn : Notebook.parse text.toList = .ok n) (hi : n.Integral) :
    let keys := w.settings.general.stripMetadataKeys
    let outcome := (w.perform .apply .cleanNotebook path s).1
    let done := (w.perform .apply .cleanNotebook path s).2
    (outcome.status = .clean ∧ done.files = s.files ↔ ∀ c ∈ n.cells, c.Tidy keys) ∧
      ((∃ c ∈ n.cells, ¬ c.Tidy keys) →
        outcome.status = .modified ∧ n.Written text ∧
          ∃ text', done.files.readText s.workingDirectory path = .ok text' ∧
            Notebook.Written { n with cells := n.cells.map (Cell.cleared keys) } text') ∧
      (w.perform .check .cleanNotebook path done).1.status = .clean ∧
      (w.perform .apply .cleanNotebook path done).1.status = .clean ∧
      (w.perform .apply .cleanNotebook path done).2.files = done.files := by
  intro keys outcome done
  have hwd : done.workingDirectory = s.workingDirectory :=
    (w.samePaths_perform .apply .cleanNotebook path s).workingDirectory
  cases hd : n.isDirty keys with
  | false =>
    have ht : ∀ c ∈ n.cells, c.Tidy keys := Notebook.isDirty_eq_false_iff.1 hd
    obtain ⟨hstatus, hfiles⟩ := perform_cleanNotebook_of_not_dirty hr hn hd .apply
    have hr' : done.files.readText done.workingDirectory path = .ok text := by
      rw [hwd, hfiles, hr]
    obtain ⟨happly, hagain⟩ := perform_cleanNotebook_of_not_dirty hr' hn hd .apply
    refine ⟨⟨fun _ => ht, fun _ => ⟨hstatus, hfiles⟩⟩, ?_,
      (perform_cleanNotebook_of_not_dirty hr' hn hd .check).1, happly, hagain⟩
    rintro ⟨c, hc, hnot⟩
    exact absurd (ht c hc) hnot
  | true =>
    have hnot : ¬ ∀ c ∈ n.cells, c.Tidy keys := fun ht => by
      rw [Notebook.isDirty_eq_false_iff.2 ht] at hd
      exact Bool.false_ne_true hd
    have hc : n.cells ≠ [] := fun hnil => hnot (by simp [hnil])
    obtain ⟨hstatus, hread⟩ := perform_cleanNotebook_of_dirty hr hn hd
    have hwritten := Notebook.written_clean hn hi hc keys
    have hr' : done.files.readText done.workingDirectory path = .ok (n.clean keys).render := by
      rw [hwd, hread]
    have hd' : ({ n with cells := n.cells.map (Cell.cleared keys) } : Notebook).isDirty keys
        = false := by
      rw [← Notebook.clean_eq_cleared (Notebook.sound_of_parse hn)]
      exact Notebook.isDirty_clean (Notebook.sound_of_parse hn) keys
    obtain ⟨happly, hagain⟩ := perform_cleanNotebook_of_not_dirty hr' hwritten.parse hd' .apply
    refine ⟨⟨?_, fun ht => absurd ht hnot⟩, fun _ => ⟨hstatus, ?_, _, hread, hwritten⟩,
      (perform_cleanNotebook_of_not_dirty hr' hwritten.parse hd' .check).1, happly, hagain⟩
    · rintro ⟨hclean, -⟩
      exact Status.noConfusion (hstatus.symm.trans hclean)
    · exact (Notebook.written_of_parse hn hc).1

/-! A notebook with outputs and a key to strip, as the only file. -/

def notebookPath : Path :=
  .ofString "n.ipynb"

def notebookSite (text : String) : Site :=
  ⟨⟨[([Utf8.encode "n.ipynb"], .file (Utf8.encode text) false)], .single (by decide) _⟩, [], []⟩

theorem readText_notebookSite (text : String) :
    (notebookSite text).files.readText [] notebookPath = .ok text := by
  have hread : ∀ b, (FileTree.mk [([Utf8.encode "n.ipynb"], .file b false)]
      (.single (by decide) _)).read [] notebookPath = .ok b := fun b => rfl
  exact FileTree.readText_eq_ok_iff.2 (hread _)

def strippingWorkshop : Workshop :=
  ⟨{ general := { stripMetadataKeys := ["k"] } }, ⟨fun _ _ _ => .refused .notFound, 0⟩⟩

theorem cleaning_exact_sample :
    let s := notebookSite Notebook.sampleText
    let outcome := (strippingWorkshop.perform .apply .cleanNotebook notebookPath s).1
    let done := (strippingWorkshop.perform .apply .cleanNotebook notebookPath s).2
    s.files.readText s.workingDirectory notebookPath = .ok Notebook.sampleText ∧
      Notebook.parse Notebook.sampleText.toList = .ok Notebook.sample ∧
      Notebook.sample.Integral ∧ outcome.status = .modified ∧
      ∃ text', done.files.readText s.workingDirectory notebookPath = .ok text' ∧
        Notebook.Written
          { Notebook.sample with cells := Notebook.sample.cells.map (Cell.cleared ["k"]) } text' := by
  intro s
  have hr := readText_notebookSite Notebook.sampleText
  obtain ⟨-, hdirty, -⟩ := cleaning_exact strippingWorkshop s notebookPath hr
    Notebook.parse_sampleText Notebook.integral_sample
  have hnot : ¬ (Notebook.sample.cells.head (by decide)).Tidy ["k"] := fun h =>
    h.metadata [("k", .number (.int 18446744073709551615))] rfl "k" (by decide) (by decide)
  obtain ⟨hstatus, -, hwritten⟩ := hdirty ⟨_, List.head_mem _, hnot⟩
  exact ⟨hr, Notebook.parse_sampleText, Notebook.integral_sample, hstatus, hwritten⟩

end Workshop

end CodeTidy
