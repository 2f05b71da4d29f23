import CodeTidy.Proofs.Operation.Newline
import CodeTidy.Proofs.Run.Complete

/-!
# Binary files in a run of `newline-fix`

The text filter looks at the leading bytes of a file, `binarySniffLength` of them, and takes a file
with a NUL among them for binary (`FileFilter.accepts_text_iff`).  So a run of `newline-fix`, in either
mode, neither changes such a file nor reports it, while every other file that discovery offers is
reported and, when changes are applied, has its last line ended (`RunPlan.newline_run_binary`).  What
comes after the leading bytes makes no difference (`RunPlan.nul_overlooked`).
-/

namespace CodeTidy

variable {t : FileTree} {cwd l : Location} {p : Path} {content : Bytes}

theorem isTextContent_iff : isTextContent content = true ↔ 0 ∉ content.take binarySniffLength := by
  simp [isTextContent]

theorem FileFilter.accepts_text_iff :
    FileFilter.accepts .text t cwd p = true ↔
      ∀ content, t.read cwd p = .ok content → 0 ∉ content.take binarySniffLength := by
  unfold FileFilter.accepts
  cases t.read cwd p with
  | error e => simp
  | ok content => simp [isTextContent_iff]

theorem FileTree.SameShape.read_eq_error {t' : FileTree} (h : t.SameShape t') {e : OsError}
    (hr : t.read cwd p = .error e) : t'.read cwd p = .error e := by
  unfold FileTree.read FileTree.stat at hr ⊢
  rw [h.resolve]
  cases hl : t.resolve cwd p with
  | error e' => rwa [hl] at hr
  | ok l =>
    simp only [hl, bind, Except.bind] at hr ⊢
    cases he : t.get? l with
    | none => rwa [h.none_iff.2 he, ← he]
    | some entry =>
      cases entry with
      | file content executable => simp [he] at hr
      | dir => rwa [h.dir_iff.2 he, ← he]
      | link target => rwa [h.link_iff.2 he, ← he]

theorem ended_ended (content : Bytes) : ended (ended content) = ended content := by
  have h : needsNewline (ended content) = false :=
    needsNewline_eq_false_iff.2 (ended_eq_nil_or_getLast? content)
  rw [ended, h]
  rfl

theorem Workshop.status_perform_newlineFix_of_error {s : Site} {e : OsError} (w : Workshop)
    (mode : Mode) (hr : s.files.read s.workingDirectory p = .error e) :
    (w.perform mode .newlineFix p s).1.status = .error := by
  have hpropose : w.propose s .newlineFix p = .failed (.unreadable p e) := by
    rw [propose, Site.readBytes, hr]
    rfl
  rw [outcome_perform hpropose]
  rfl

namespace RunPlan

variable {r : RunPlan} {s : Site}

/-! ### What a run of one operation works on -/

theorem targeted_singleton_iff {op op' : Operation} :
    r.Targeted [op] s op' p ↔ op' = op ∧ ∃ paths, r.targets op s = .ok paths ∧ p ∈ paths := by
  constructor
  · rintro ⟨pre, post, paths, hops, -, hpaths, hp⟩
    obtain ⟨rfl, rfl, rfl⟩ : pre = [] ∧ op = op' ∧ post = [] := by
      cases pre with
      | nil => simpa using hops
      | cons => simp at hops
    exact ⟨rfl, paths, hpaths, hp⟩
  · rintro ⟨rfl, paths, hpaths, hp⟩
    exact ⟨[], [], paths, rfl, rfl, hpaths, hp⟩

theorem targeted_newlineFix_iff :
    r.Targeted [.newlineFix] s .newlineFix p ↔
      r.discoverer.Offers s.files s.workingDirectory r.root p ∧
        FileFilter.accepts .text s.files s.workingDirectory p = true := by
  rw [targeted_singleton_iff]
  constructor
  · rintro ⟨-, paths, hpaths, hp⟩
    exact (Discoverer.mem_discover_iff hpaths).1 hp
  · rintro ⟨hoffers, haccepts⟩
    obtain ⟨paths, hpaths⟩ := exists_targets hoffers.exists?_root (.refl s) .newlineFix
    exact ⟨rfl, paths, hpaths, (Discoverer.mem_discover_iff hpaths).2 ⟨hoffers, haccepts⟩⟩

theorem Targeted.notMem_take {op : Operation} (h : r.Targeted [.newlineFix] s op p)
    (hr : s.files.read s.workingDirectory p = .ok content) :
    0 ∉ content.take binarySniffLength := by
  obtain ⟨rfl, -⟩ := targeted_singleton_iff.1 h
  exact FileFilter.accepts_text_iff.1 (targeted_newlineFix_iff.1 h).2 content hr

/-! ### Files with a NUL among their leading bytes -/

theorem Targeted.resolve_ne {op : Operation} (h : r.Targeted [.newlineFix] s op p)
    (hfile : s.files.content? l = some content) (hnul : 0 ∈ content.take binarySniffLength) :
    s.files.resolve s.workingDirectory p ≠ .ok l :=
  fun hl => h.notMem_take (FileTree.read_eq_ok_iff.2 ⟨l, hl, hfile⟩) hnul

theorem get?_run_of_binary (hfile : s.files.content? l = some content)
    (hnul : 0 ∈ content.take binarySniffLength) :
    (r.run [.newlineFix] s).2.site.files.get? l = s.files.get? l ∧
      ∀ o ∈ (r.run [.newlineFix] s).2.report.outcomes,
        s.files.resolve s.workingDirectory o.path ≠ .ok l := by
  refine run_induction (I := fun s' os => s'.files.get? l = s.files.get? l ∧
    ∀ o ∈ os, s.files.resolve s.workingDirectory o.path ≠ .ok l) ⟨rfl, by simp⟩ ?_
  rintro op path ht s' os hs ⟨hget, hos⟩
  have hne := ht.resolve_ne hfile hnul
  constructor
  · rw [Workshop.get?_perform_of_ne _ _ _ (by rwa [hs.resolve]), hget]
  · intro o ho
    rcases List.mem_append.1 ho with ho | ho
    · exact hos o ho
    · rwa [List.mem_singleton.1 ho, (Workshop.path_perform _ _ _ _ _).1]

/-! ### All other files -/

/-- An outcome is one of a file without a NUL among its leading bytes, or the error that the file
cannot be read. -/
theorem outcome_of_newlineFix :
    ∀ o ∈ (r.run [.newlineFix] s).2.report.outcomes,
      (∃ content, s.files.read s.workingDirectory o.path = .ok content ∧
        0 ∉ content.take binarySniffLength) ∨
      (∃ e, s.files.read s.workingDirectory o.path = .error e) ∧ o.status = .error := by
  refine run_induction (I := fun _ os => ∀ o ∈ os,
    (∃ content, s.files.read s.workingDirectory o.path = .ok content ∧
      0 ∉ content.take binarySniffLength) ∨
    (∃ e, s.files.read s.workingDirectory o.path = .error e) ∧ o.status = .error) (by simp) ?_
  intro op path ht s' os hs hos o ho
  rcases List.mem_append.1 ho with ho | ho
  · exact hos o ho
  obtain ⟨rfl, -⟩ := targeted_singleton_iff.1 ht
  rw [List.mem_singleton.1 ho, (Workshop.path_perform _ _ _ _ _).1]
  cases hr : s.files.read s.workingDirectory path with
  | ok content => exact .inl ⟨content, rfl, ht.notMem_take hr⟩
  | error e =>
    have hr' : s'.files.read s'.workingDirectory path = .error e := by
      rw [hs.workingDirectory]
      exact hs.shape.read_eq_error hr
    exact .inr ⟨⟨e, rfl⟩, Workshop.status_perform_newlineFix_of_error _ _ hr'⟩

theorem read_run_newlineFix (hm : r.mode = .apply) (ht : r.Targeted [.newlineFix] s .newlineFix p)
    (hr : s.files.read s.workingDirectory p = .ok content) :
    (r.run [.newlineFix] s).2.site.files.read s.workingDirectory p = .ok (ended content) := by
  obtain ⟨l, hl, -⟩ := FileTree.read_eq_ok_iff.1 hr
  obtain ⟨o, ho, hpath, -⟩ := ht.exists_outcome
  -- until the file has its turn it is as it was, and from then on its last line is ended
  have hinv : (r.run [.newlineFix] s).2.site.files.read s.workingDirectory p = .ok (ended content) ∨
      (r.run [.newlineFix] s).2.site.files.read s.workingDirectory p = .ok content ∧
        ∀ o ∈ (r.run [.newlineFix] s).2.report.outcomes, o.path ≠ p := by
    refine run_induction (I := fun s' os =>
      s'.files.read s.workingDirectory p = .ok (ended content) ∨
        s'.files.read s.workingDirectory p = .ok content ∧ ∀ o ∈ os, o.path ≠ p)
      (.inr ⟨hr, by simp⟩) ?_
    intro op path htarget s' os hsame hread
    obtain ⟨rfl, -⟩ := targeted_singleton_iff.1 htarget
    rw [← hsame.workingDirectory] at hread ⊢
    rw [hm]
    by_cases hp : path = p
    · subst hp
      refine .inl ?_
      rcases hread with hread | ⟨hread, -⟩
      · rw [Workshop.read_perform_newlineFix hread, ended_ended]
      · exact Workshop.read_perform_newlineFix hread
    · have hne : s'.files.resolve s'.workingDirectory path
          ≠ s'.files.resolve s'.workingDirectory p := by
        rw [hsame.resolve, hsame.resolve, hl]
        exact fun h => hp (htarget.eq_of_resolve ht (.refl _) rfl h hl)
      rw [Workshop.read_perform_of_ne _ _ _ hne]
      refine hread.imp_right fun hread => ⟨hread.1, fun o ho => ?_⟩
      rcases List.mem_append.1 ho with ho | ho
      · exact hread.2 o ho
      · rwa [List.mem_singleton.1 ho, (Workshop.path_perform _ _ _ _ _).1]
  exact hinv.resolve_right fun hnone => hnone.2 o ho hpath

/-- **A run of `newline-fix` leaves binary files alone**, whatever is left out of it and in either
mode.  A file is binary when one of its first `binarySniffLength` bytes is NUL: it stays as it is, and
no outcome is one of it.  Every other file that discovery offers has an outcome, and its last line
ended when changes are applied.  An outcome of a file that cannot be read is the error that says
so. -/
theorem newline_run_binary (r : RunPlan) (s : Site) (clean : Bool)
    (hfile : s.files.content? l = some content) :
    let done := (r.run (Command.newlineFix.plan clean) s).2
    (0 ∈ content.take binarySniffLength →
        done.site.files.get? l = s.files.get? l ∧
          ∀ o ∈ done.report.outcomes, s.files.resolve s.workingDirectory o.path ≠ .ok l) ∧
      (∀ p, r.discoverer.Offers s.files s.workingDirectory r.root p →
        s.files.resolve s.workingDirectory p = .ok l →
        ((∃ o ∈ done.report.outcomes, o.path = p) ↔ 0 ∉ content.take binarySniffLength) ∧
        (r.mode = .apply → 0 ∉ content.take binarySniffLength →
          done.site.files.read s.workingDirectory p = .ok (ended content))) ∧
      ∀ o ∈ done.report.outcomes,
        (∃ content, s.files.read s.workingDirectory o.path = .ok content ∧
          0 ∉ content.take binarySniffLength) ∨
        (∃ e, s.files.read s.workingDirectory o.path = .error e) ∧ o.status = .error := by
  intro done
  refine ⟨get?_run_of_binary hfile, fun p hoffers hl => ?_, outcome_of_newlineFix⟩
  have hr : s.files.read s.workingDirectory p = .ok content :=
    FileTree.read_eq_ok_iff.2 ⟨l, hl, hfile⟩
  have htargeted : 0 ∉ content.take binarySniffLength →
      r.Targeted [.newlineFix] s .newlineFix p := by
    intro hnul
    refine targeted_newlineFix_iff.2 ⟨hoffers, FileFilter.accepts_text_iff.2 fun b hb => ?_⟩
    rwa [← Except.ok.inj (hr.symm.trans hb)]
  refine ⟨⟨?_, fun hnul => ?_⟩, fun hm hnul => read_run_newlineFix hm (htargeted hnul) hr⟩
  · rintro ⟨o, ho, rfl⟩ hnul
    exact (get?_run_of_binary hfile hnul).2 o ho hl
  · obtain ⟨o, ho, hpath, -⟩ := (htargeted hnul).exists_outcome
    exact ⟨o, ho, hpath⟩

/-! An image beside a text, both without a line feed at the end. -/

def imageBytes : Bytes :=
  [137, 80, 0, 10, 97]

def imageSite : Site :=
  ⟨⟨[([Utf8.encode "image"], .file imageBytes false), ([Utf8.encode "note.txt"], .file [97] false)],
    by decide⟩, [], []⟩

def topPlan : RunPlan :=
  ⟨Workshop.bareWorkshop, ⟨[], true⟩, .ofString ".", .apply⟩

theorem offers_top {t : FileTree} {p : Path}
    (h : p ∈ topPlan.discoverer.candidates t topPlan.root []) :
    topPlan.discoverer.Offers t [] topPlan.root p := by
  have hroot : t.resolve [] topPlan.root = .ok [] := by
    rfl
  refine .below hroot ?_ h
  rintro ⟨content, executable, hfile⟩
  simp [FileTree.get?_nil] at hfile

theorem newline_run_binary_image :
    let done := (topPlan.run (Command.newlineFix.plan false) imageSite).2
    imageSite.files.content? [Utf8.encode "image"] = some imageBytes ∧
      0 ∈ imageBytes.take binarySniffLength ∧
      done.site.files.get? [Utf8.encode "image"] = imageSite.files.get? [Utf8.encode "image"] ∧
      (∀ o ∈ done.report.outcomes, o.path ≠ .ofString "./image") ∧
      (∃ o ∈ done.report.outcomes, o.path = .ofString "./note.txt") ∧
      done.site.files.read [] (.ofString "./note.txt") = .ok [97, 10] := by
  intro done
  have himage : imageSite.files.content? [Utf8.encode "image"] = some imageBytes := by decide
  have hnote : imageSite.files.content? [Utf8.encode "note.txt"] = some [97] := by decide
  have hnul : 0 ∈ imageBytes.take binarySniffLength := by decide
  have hmem : topPlan.discoverer.candidates imageSite.files topPlan.root []
      = [.ofString "./image", .ofString "./note.txt"] := by
    rfl
  obtain ⟨hbinary, himages, -⟩ := newline_run_binary topPlan imageSite false himage
  obtain ⟨-, hnotes, -⟩ := newline_run_binary topPlan imageSite false hnote
  obtain ⟨houtcome, -⟩ := himages (.ofString "./image") (offers_top (by simp [hmem])) rfl
  obtain ⟨houtcome', hread⟩ :=
    hnotes (.ofString "./note.txt") (offers_top (by simp [hmem])) rfl
  refine ⟨himage, hnul, (hbinary hnul).1, fun o ho hpath => ?_, houtcome'.2 (by decide),
    hread rfl (by decide)⟩
  exact houtcome.1 ⟨o, ho, hpath⟩ hnul

/-! A text header of so many bytes, and a NUL after it. -/

def topNote : Path :=
  .ofString "./note.txt"

theorem read_topNote (content : Bytes) :
    (Workshop.noteSite content).files.read [] topNote = .ok content := by
  rfl

theorem targeted_topNote {content : Bytes} (h : 0 ∉ content.take binarySniffLength) :
    topPlan.Targeted [.newlineFix] (Workshop.noteSite content) .newlineFix topNote := by
  have hmem : topPlan.discoverer.candidates (Workshop.noteSite content).files topPlan.root []
      = [topNote] := by
    rfl
  refine targeted_newlineFix_iff.2 ⟨offers_top (by simp [hmem]), ?_⟩
  refine FileFilter.accepts_text_iff.2 fun b hb => ?_
  rwa [← Except.ok.inj ((read_topNote content).symm.trans hb)]

def longHeader (n : Nat) : Bytes :=
  List.replicate n 97 ++ [0]

theorem notMem_take_longHeader {n k : Nat} (h : k ≤ n) : 0 ∉ (longHeader n).take k := by
  rw [longHeader, List.take_append_of_le_length (by simpa using h)]
  intro hmem
  exact absurd (List.eq_of_mem_replicate (List.mem_of_mem_take hmem)) (by decide)

theorem mem_take_longHeader {n k : Nat} (h : n < k) : 0 ∈ (longHeader n).take k := by
  rw [List.take_of_length_le (by simpa [longHeader, Nat.succ_le_iff] using h)]
  exact List.mem_append_right _ (List.mem_singleton_self _)

theorem ended_longHeader (n : Nat) : ended (longHeader n) ≠ longHeader n := by
  have hneeds : needsNewline (longHeader n) = true := by
    simp [needsNewline, longHeader]
  rw [ended, if_pos hneeds]
  simpa using dominantBytes_ne_nil (longHeader n)

/-- The NUL is among the first 8192 bytes of the file, but not among those that are looked at: the
file is reported, and changed. -/
theorem nul_overlooked :
    let content := longHeader 8000
    let s := Workshop.noteSite content
    let done := (topPlan.run (Command.newlineFix.plan false) s).2
    s.files.read [] topNote = .ok content ∧
      0 ∈ content.take 8192 ∧
      (∃ o ∈ done.report.outcomes, o.path = topNote) ∧
      done.site.files.read [] topNote ≠ .ok content := by
  intro content s done
  have hread : s.files.read [] topNote = .ok content := read_topNote content
  have htargeted := targeted_topNote (notMem_take_longHeader (Nat.le_refl 8000))
  obtain ⟨o, ho, hpath, -⟩ := htargeted.exists_outcome
  refine ⟨hread, mem_take_longHeader (by decide), ⟨o, ho, hpath⟩, fun h => ?_⟩
  have hended := read_run_newlineFix rfl htargeted hread
  exact ended_longHeader 8000 (Except.ok.inj (hended.symm.trans h))

end RunPlan

end CodeTidy
