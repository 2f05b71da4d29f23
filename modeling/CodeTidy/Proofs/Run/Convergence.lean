import CodeTidy.Proofs.Operation.Settled
import CodeTidy.Proofs.Run.Steps

/-!
# Lint converges

After one run of `lint` a source that was formatted is settled (`RunPlan.linted_run`).  So a check
finds it clean, and a second run leaves its bytes as they are (`RunPlan.lint_converges`).
-/

namespace CodeTidy

namespace Operation

theorem name_injective {op op' : Operation} (h : op.name = op'.name) : op = op' := by
  cases op <;> cases op' <;> first | rfl | simp [name] at h

end Operation

namespace RunPlan

variable {r : RunPlan} {s s' : Site} {ops ops' : List Operation} {op op' : Operation}
  {path path' p : Path} {sort format : String → String} {text : String} {l : Location}

/-! ### Runs of `lint` -/

def Formatted (p : Path) (os : List Outcome) : Prop :=
  ∃ o ∈ os, o.path = p ∧ o.operation = Operation.codeFormat.name

theorem formatted_append_singleton {os : List Outcome} {o : Outcome} :
    Formatted p (os ++ [o]) ↔
      Formatted p os ∨ o.path = p ∧ o.operation = Operation.codeFormat.name := by
  simp [Formatted, or_and_right, exists_or]

/-- How far a run of `lint` has come with the source at `p`, which was `text` at its start. -/
structure Linted (w : Workshop) (sort format : String → String) (p : Path) (text : String)
    (s : Site) (os : List Outcome) : Prop where
  ready : w.Ready s
  content : ∃ text', s.files.read s.workingDirectory p = .ok (Utf8.encode text') ∧
    (Formatted p os → Settled sort format text') ∧ (Settled sort format text → text' = text)

variable {w : Workshop} {os : List Outcome}

theorem Linted.perform_self (h : Linted w sort format p text s os) (hp : p.isNotebook = false)
    (hw : w.Computes p sort format) (hf : Formatters sort format)
    (hop : op ∈ Command.lint.plan false) :
    Linted w sort format p text (w.perform .apply op p s).2
      (os ++ [(w.perform .apply op p s).1]) := by
  obtain ⟨text', hr, hformatted, hkeep⟩ := h.content
  obtain ⟨text'', hr', hformat, hset⟩ := Workshop.read_perform_lint hp hw h.ready hr hf hop
  refine ⟨h.ready.perform hw _ _ _, text'', ?_, fun hfin => ?_, fun htext => ?_⟩
  · rw [(w.samePaths_perform .apply op p s).workingDirectory, hr']
  · rcases formatted_append_singleton.1 hfin with hold | ⟨-, hnow⟩
    · rw [hset (hformatted hold)]
      exact hformatted hold
    · have hname := (w.path_perform .apply op p s).2.symm.trans hnow
      exact hformat (Operation.name_injective hname)
  · rw [hset (hkeep htext ▸ htext), hkeep htext]

theorem Linted.perform_other (h : Linted w sort format p text s os)
    (hw : w.Computes p sort format) (hne : path ≠ p)
    (hother : s.files.resolve s.workingDirectory path ≠ s.files.resolve s.workingDirectory p) :
    Linted w sort format p text (w.perform .apply op path s).2
      (os ++ [(w.perform .apply op path s).1]) := by
  obtain ⟨text', hr, hformatted, hkeep⟩ := h.content
  refine ⟨h.ready.perform hw _ _ _, text', ?_, fun hfin => ?_, hkeep⟩
  · rw [(w.samePaths_perform .apply op path s).workingDirectory,
      w.read_perform_of_ne .apply op hother, hr]
  · rcases formatted_append_singleton.1 hfin with hold | ⟨hpath, -⟩
    · exact hformatted hold
    · exact absurd ((w.path_perform .apply op path s).1.symm.trans hpath) hne

/-- **A run of `lint` makes a source a settled one**, if it formats it, and leaves a settled one as
it is. -/
theorem linted_run (hm : r.mode = .apply) (hp : p.isNotebook = false)
    (hw : r.workshop.Computes p sort format) (hf : Formatters sort format)
    (hready : r.workshop.Ready s)
    (hr : s.files.read s.workingDirectory p = .ok (Utf8.encode text))
    (hother : ∀ op path, r.Targeted (Command.lint.plan false) s op path → path ≠ p →
      s.files.resolve s.workingDirectory path ≠ s.files.resolve s.workingDirectory p) :
    Linted r.workshop sort format p text (r.run (Command.lint.plan false) s).2.site
      (r.run (Command.lint.plan false) s).2.report.outcomes := by
  refine run_induction ⟨hready, text, hr, by simp [Formatted], fun _ => rfl⟩ ?_
  intro op path ht s' os hs h
  rw [hm]
  by_cases hpath : path = p
  · obtain ⟨pre, post, -, hops, -⟩ := ht
    exact hpath ▸ h.perform_self hp hw hf (by rw [hops]; simp)
  · refine h.perform_other hw hpath ?_
    rw [hs.resolve, hs.resolve]
    exact hother op path ht hpath

/-! ### Checking a settled source -/

def lintFixes : List Operation :=
  [.sortImports, .codeFormat, .newlineFix]

theorem status_check_of_settled (hp : p.isNotebook = false) (hw : w.Computes p sort format)
    (hs : w.Ready s) (hr : s.files.read s.workingDirectory p = .ok (Utf8.encode text))
    (h : Settled sort format text) (hop : op ∈ lintFixes) :
    (w.perform .check op p s).1.status = .clean := by
  obtain ⟨hsort, hformat, hnewline⟩ := Workshop.propose_of_settled hp hw hs hr h
  have hkeep : w.propose s op p = .keep := by
    simp only [lintFixes, List.mem_cons, List.not_mem_nil, or_false] at hop
    rcases hop with rfl | rfl | rfl
    · exact hsort
    · exact hformat
    · exact hnewline
  rw [Workshop.outcome_perform hkeep]
  rfl

theorem status_run_check_of_settled (hm : r.mode = .check) (hp : p.isNotebook = false)
    (hw : r.workshop.Computes p sort format) (hs : r.workshop.Ready s)
    (hr : s.files.read s.workingDirectory p = .ok (Utf8.encode text))
    (h : Settled sort format text) :
    ∀ o ∈ (r.run lintFixes s).2.report.outcomes, o.path = p → o.status = .clean := by
  refine (run_induction (I := fun s' os =>
    (s'.files = s.files ∧ r.workshop.Ready s') ∧ ∀ o ∈ os, o.path = p → o.status = .clean)
    ⟨⟨rfl, hs⟩, by simp⟩ ?_).2
  rintro op path ⟨pre, post, -, hops, -⟩ s' os hpaths ⟨⟨hfiles, hready⟩, hos⟩
  rw [hm]
  refine ⟨⟨?_, hready.perform hw _ _ _⟩, fun o ho hpath => ?_⟩
  · rw [Workshop.files_perform_check, hfiles]
  · rcases List.mem_append.1 ho with ho | ho
    · exact hos o ho hpath
    · obtain rfl := List.mem_singleton.1 ho
      obtain rfl := (r.workshop.path_perform .check op path s').1.symm.trans hpath
      rw [← hfiles, ← hpaths.workingDirectory] at hr
      exact status_check_of_settled hp hw hready hr h (by rw [hops]; simp)

/-! ### Convergence -/

/-- **Lint converges in one run on sources, whatever their line endings.**  After a run of `lint`
in which the formatter discovered a source, wherever the next process takes up, a check finds the
source clean and a second run leaves its bytes as they are. -/
theorem lint_converges (hm : r.mode = .apply) (hp : p.hasExtension "py" = true)
    (hr : s.files.readText s.workingDirectory p = .ok text)
    (hw : r.workshop.Computes p sort format) (hf : Formatters sort format)
    (hready : r.workshop.Ready s)
    (htarget : r.Targeted (Command.lint.plan false) s .codeFormat p)
    (hfiles : s'.files = (r.run (Command.lint.plan false) s).2.site.files)
    (hwd : s'.workingDirectory = s.workingDirectory) (hready' : r.workshop.Ready s') :
    (∀ op ∈ lintFixes, (r.workshop.perform .check op p s').1.status = .clean) ∧
      (∀ o ∈ (RunPlan.run { r with mode := .check } lintFixes s').2.report.outcomes,
        o.path = p → o.status = .clean) ∧
      (r.run (Command.lint.plan false) s').2.site.files.read s'.workingDirectory p
        = s'.files.read s'.workingDirectory p := by
  have hnb := Path.isNotebook_of_python hp
  have hr := FileTree.readText_eq_ok_iff.1 hr
  obtain ⟨l, hl, -⟩ := FileTree.read_eq_ok_iff.1 hr
  have hlinted := linted_run hm hnb hw hf hready hr fun op path ht hne e =>
    hne (htarget.eq_of_resolve ht (.refl _) rfl hl (e.trans hl)).symm
  obtain ⟨text', hr', hsettled, -⟩ := hlinted.content
  have hsettled := hsettled htarget.exists_outcome
  obtain ⟨hshape, hwd₀⟩ := r.samePaths_run (Command.lint.plan false) s
  rw [hwd₀, ← hfiles, ← hwd] at hr'
  rw [← hfiles] at hshape
  refine ⟨fun op hop => status_check_of_settled hnb hw hready' hr' hsettled hop,
    status_run_check_of_settled (r := { r with mode := .check }) rfl hnb hw hready' hr' hsettled, ?_⟩
  have hlinted' := linted_run hm hnb hw hf hready' hr' fun op path ht hne e => by
    rw [hwd, hshape.resolve _ p] at e
    exact hne (htarget.eq_of_resolve ht hshape hwd hl (e.trans hl)).symm
  obtain ⟨text'', hr'', -, hkeep⟩ := hlinted'.content
  rw [← (r.samePaths_run (Command.lint.plan false) s').workingDirectory, hr'', hkeep hsettled,
    (r.samePaths_run (Command.lint.plan false) s').workingDirectory, hr']

/-! A sorter and a formatter that drop carriage returns and end the last line, and a source whose
breaks are CRLF. -/

def tidyText (text : List Char) : List Char :=
  let kept := text.filter (· != '\r')
  if kept.isEmpty ∨ kept.getLast? = some '\n' then kept else kept ++ ['\n']

def tidy (text : String) : String :=
  String.ofList (tidyText text.toList)

def tidyToolbox : Toolbox := fun _ _ i =>
  .completed ⟨Utf8.encode (tidy (Utf8.decodeLossy i.input)), [], some 0, 0⟩

def tidyPlan : RunPlan :=
  ⟨⟨{}, ⟨tidyToolbox, 0⟩⟩, ⟨[], true⟩, .ofString ".", .apply⟩

def tidyPath : Path :=
  .ofString "./a.py"

def tidySite : Site :=
  ⟨⟨[([Utf8.encode "a.py"], .file (Utf8.encode "x=1\r\ny=2") false)], by decide⟩, [], []⟩

theorem noCr_tidyText (text : List Char) : '\r' ∉ tidyText text := by
  unfold tidyText
  dsimp only
  split <;> simp

theorem endsLine_tidyText (text : List Char) : LineEnding.EndsLine (tidyText text) := by
  unfold tidyText
  dsimp only
  split
  · rename_i h
    rcases h with h | h
    · exact .inl (by simpa using h)
    · exact .inr (List.getLast?_eq_some_iff.1 h)
  · exact .inr ⟨_, rfl⟩

theorem tidyText_eq_self {text : List Char} (h : '\r' ∉ text) (he : LineEnding.EndsLine text) :
    tidyText text = text := by
  have hkept : text.filter (· != '\r') = text :=
    List.filter_eq_self.2 fun c hc => bne_iff_ne.2 fun e => h (e ▸ hc)
  unfold tidyText
  dsimp only
  rw [hkept, if_pos]
  obtain rfl | ⟨line, rfl⟩ := he
  · exact .inl rfl
  · exact .inr (by simp)

theorem tidyText_expandLf (text : List Char) :
    tidyText (LineEnding.expandLf text) = tidyText text := by
  have hkept : (LineEnding.expandLf text).filter (· != '\r') = text.filter (· != '\r') := by
    induction text with
    | nil => rfl
    | cons c cs ih =>
      unfold LineEnding.expandLf at ih ⊢
      rw [List.flatMap_cons, List.filter_append, ih]
      by_cases hn : c = '\n'
      · subst hn
        rfl
      · rw [if_neg hn, ← List.filter_append]
        rfl
  unfold tidyText
  rw [hkept]

theorem formatters_tidy : Formatters tidy tidy := by
  have htidy : ∀ x, tidy (tidy x) = tidy x := fun x => by
    rw [tidy, tidy, String.toList_ofList,
      tidyText_eq_self (noCr_tidyText _) (endsLine_tidyText _)]
  have hcrlf : ∀ x : String, '\r' ∉ x.toList →
      tidy (String.ofList (LineEnding.normalize .crlf x.toList)) = tidy x := fun x h => by
    rw [LineEnding.normalize_crlf_of_noCr h, tidy, String.toList_ofList, tidyText_expandLf, tidy]
  refine ⟨fun x => ?_, fun x => ?_, hcrlf, hcrlf, htidy, htidy⟩
  · rw [tidy, String.toList_ofList]
    exact noCr_tidyText _
  · rw [tidy, String.toList_ofList]
    exact endsLine_tidyText _

theorem targeted_tidy :
    tidyPlan.Targeted (Command.lint.plan false) tidySite .codeFormat tidyPath :=
  ⟨[.sortImports], [.grammarCheck, .newlineFix], [tidyPath], rfl, rfl, by decide +kernel,
    List.mem_cons_self⟩

theorem lint_converges_tidy :
    let done := (tidyPlan.run (Command.lint.plan false) tidySite).2.site
    tidyPath.hasExtension "py" = true ∧
      tidyPlan.Targeted (Command.lint.plan false) tidySite .codeFormat tidyPath ∧
      tidyPlan.workshop.Computes tidyPath tidy tidy ∧ Formatters tidy tidy ∧
      (∀ op ∈ lintFixes,
        (tidyPlan.workshop.perform .check op tidyPath ⟨done.files, [], []⟩).1.status = .clean) ∧
      (tidyPlan.run (Command.lint.plan false) ⟨done.files, [], []⟩).2.site.files.read [] tidyPath
        = done.files.read [] tidyPath := by
  intro done
  have hready : ∀ files, tidyPlan.workshop.Ready ⟨files, [], []⟩ :=
    fun files => ⟨by simp, by simp⟩
  have hpy : tidyPath.hasExtension "py" = true := by decide
  have hw : tidyPlan.workshop.Computes tidyPath tidy tidy :=
    ⟨computes_printing (show _ = some "isort" from rfl) _ tidy,
      computes_printing (show _ = some "black" from rfl) _ tidy⟩
  have hr : tidySite.files.readText tidySite.workingDirectory tidyPath = .ok "x=1\r\ny=2" := by
    rfl
  have hfiles : (⟨done.files, [], []⟩ : Site).files = done.files := rfl
  obtain ⟨hclean, -, hsame⟩ := lint_converges rfl hpy hr hw formatters_tidy
    (hready _) targeted_tidy hfiles rfl (hready _)
  exact ⟨hpy, targeted_tidy, hw, formatters_tidy, hclean, hsame⟩

end RunPlan

end CodeTidy
