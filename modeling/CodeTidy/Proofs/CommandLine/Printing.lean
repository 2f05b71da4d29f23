import CodeTidy.Proofs.CommandLine.Refusal
import CodeTidy.Proofs.Report.Document

/-!
# What a request prints

A request whose run goes to its end prints the lines about the run and the report
(`Session.finishes_perform`).  A report that is to be a document can only be printed when all paths in
it are texts (`Report.document_exact`).  Otherwise nothing is printed, although the files have been
changed by then (`Transcript.abort_unspellable`).  Where the root and all names are texts, there is a
document (`RunPlan.exists_jsonText`).
-/

namespace CodeTidy

namespace Session

variable {launch : Toolbox} {terminal : Bool} {r : Request} {site : Site} {plan : RunPlan}
  {progress : Progress} {s : Session}

/-- The report of a run in the form that was asked for; nothing when it has none. -/
def written? (terminal : Bool) (r : Request) (progress : Progress) : Option String :=
  reportText? r (textForm progress.site (terminal && r.colors)) progress.report

/-- The run of a request has gone to its end: the lines about it are printed, and then the report.  A
report that cannot be written has an exit code of its own. -/
structure Finishes (done : Session) (terminal : Bool) (r : Request) (progress : Progress) : Prop where
  site_eq : done.site = progress.site
  printed_eq : done.printed
    = detailLines r (textForm progress.site (terminal && r.colors)) progress.events
      ++ (written? terminal r progress).toList
  exitCode_eq : done.exitCode
    = (written? terminal r progress).elim unwritableCode fun _ => progress.report.exitCode

theorem finishes_printReport (hsite : s.site = progress.site)
    (hprinted : s.printed
      = detailLines r (textForm progress.site (terminal && r.colors)) progress.events) :
    (s.printReport r (textForm progress.site (terminal && r.colors)) progress.report).Finishes
      terminal r progress := by
  refine ⟨(printReport_eq _ _ _ _).1.trans hsite, ?_, ?_⟩
  all_goals
    unfold printReport written?
    cases reportText? r (textForm progress.site (terminal && r.colors)) progress.report <;>
      simp [hprinted]

theorem Untouched.finishes_performWith {loaded : LoadedConfig} {globs : List Glob}
    (h : s.Untouched site) (hparse : parsePatterns (Request.patterns loaded) = .ok globs)
    (hrun : RunPlan.run
      { workshop := ⟨loaded.config.toSections, ⟨launch, loaded.config.general.timeout⟩⟩
        discoverer := ⟨globs, loaded.config.general.respectGitignore⟩
        root := r.target
        mode := r.mode } (r.command.plan r.cleanNotebooks) site = (none, progress)) :
    (s.performWith launch terminal r loaded.config).Finishes terminal r progress := by
  unfold Request.patterns at hparse
  unfold performWith Discoverer.ofPatterns
  simp only [hparse, Except.map, h.site_eq, hrun]
  exact finishes_printReport rfl (by simp [h.printed_eq])

/-- **A request that begins a run prints the lines about it and its report**, if the run goes to its
end. -/
theorem finishes_perform (hbegins : r.Begins launch site plan)
    (hrun : plan.run (r.command.plan r.cleanNotebooks) site = (none, progress)) :
    (perform launch terminal r site).Finishes terminal r progress := by
  obtain ⟨accepts, hsettings, hparse⟩ := hbegins
  have hstart : ({ site := site } : Session).Untouched site := ⟨rfl, rfl, rfl⟩
  have hdir : ¬ (r.command = .docformat ∧ site.files.isDir site.workingDirectory r.target = true) :=
    fun h => by simp [accepts.single h.1] at h
  unfold Request.settings at hsettings
  unfold perform
  simp only [accepts.exist, Bool.not_true, Bool.false_eq_true, if_false, if_neg hdir, hsettings]
  -- messages before the run change nothing that is printed
  have hwarned : ∀ (c : Prop) [Decidable c] (e : LogEntry),
      Untouched (if c then ({ site := site } : Session).log1 e else { site := site }) site := by
    intro c _ e
    split
    · exact hstart.log1 e
    · exact hstart
  refine (?_ : Untouched _ site).finishes_performWith hparse hrun
  split
  · exact (hwarned _ _).foldl_log1 _ _
  · exact ((hwarned _ _).foldl_log1 _ _).log1 _

end Session

/-! ### Paths that are texts -/

/-- Every name in the tree is a text. -/
def FileTree.NamesAreTexts (t : FileTree) : Prop :=
  ∀ e ∈ t.entries, ∀ name ∈ e.1, ∃ text : String, Utf8.encode text = name

theorem FileTree.NamesAreTexts.of_sameShape {t t' : FileTree} (h : t.NamesAreTexts)
    (hs : t.SameShape t') : t'.NamesAreTexts := by
  intro e he
  have hkey : e.1 ∈ t.entries.map Prod.fst := by
    rw [← hs.keys]
    exact List.mem_map_of_mem he
  obtain ⟨e', he', heq⟩ := List.mem_map.1 hkey
  rw [← heq]
  exact h e' he'

theorem Path.IsText.join {dir : Path} {name : Bytes} (hdir : dir.IsText)
    (hname : ∃ text : String, Utf8.encode text = name) : (dir.join name).IsText := by
  obtain ⟨a, ha⟩ := hdir
  obtain ⟨b, hb⟩ := hname
  have hslash : Utf8.encode "/" = [Path.slash] := by decide
  unfold Path.join
  split
  · exact ⟨a ++ b, by rw [Utf8.encode_append, ha, hb]⟩
  · exact ⟨a ++ ("/" ++ b), by rw [Utf8.encode_append, Utf8.encode_append, ha, hb, hslash]; rfl⟩

theorem Path.IsText.foldl_join : ∀ {names : Location} {root : Path}, root.IsText →
    (∀ name ∈ names, ∃ text : String, Utf8.encode text = name) →
      (names.foldl Path.join root).IsText
  | [], _, hroot, _ => hroot
  | _ :: _, _, hroot, h =>
    have ⟨hname, hnames⟩ := List.forall_mem_cons.1 h
    (hroot.join hname).foldl_join hnames

theorem Discoverer.Offers.isText {d : Discoverer} {t : FileTree} {cwd : Location} {root p : Path}
    (h : d.Offers t cwd root p) (hroot : root.IsText) (hnames : t.NamesAreTexts) : p.IsText := by
  cases h with
  | self => exact hroot
  | below resolve notFile mem =>
    obtain ⟨names, content, executable, -, rfl, he⟩ := exists_names_of_mem_candidates mem
    exact hroot.foldl_join fun name hname => hnames _ he name (List.mem_append_right _ hname)

/-! ### Documents of runs -/

namespace RunPlan

variable {plan : RunPlan} {ops : List Operation} {site : Site}

/-- The report of a run has no document exactly when an operation came to a file whose path is no
text. -/
theorem jsonText?_run_eq_none_iff :
    (plan.run ops site).2.report.jsonText? = none ↔
      ∃ op path, plan.Targeted ops site op path ∧ ¬ path.IsText := by
  rw [Report.jsonText?_eq_none_iff]
  constructor
  · rintro ⟨o, ho, hpath⟩
    obtain ⟨op, htargeted, -⟩ := targeted_of_mem_outcomes ho
    exact ⟨op, o.path, htargeted, hpath⟩
  · rintro ⟨op, path, htargeted, hpath⟩
    obtain ⟨o, ho, rfl, -⟩ := htargeted.exists_outcome
    exact ⟨o, ho, hpath⟩

/-- **Where all names are texts, the report of a run has a document.** -/
theorem exists_jsonText (hroot : plan.root.IsText) (hnames : site.files.NamesAreTexts) :
    ∃ text, (plan.run ops site).2.report.jsonText? = some text := by
  refine Option.ne_none_iff_exists'.1 fun hnone => ?_
  obtain ⟨op, path, htargeted, hpath⟩ := jsonText?_run_eq_none_iff.1 hnone
  obtain ⟨t, hshape, hoffers⟩ := htargeted.offers
  exact hpath (hoffers.isText hroot (hnames.of_sameShape hshape))

end RunPlan

/-- **A report is printed as a document exactly when its paths are texts.**  The document then describes
the report, with one entry for every outcome, and is all that is printed.  Otherwise, that is, when
an operation came to a file whose path is no text, nothing is printed and the exit code tells of the
failure; but all files have been worked on, and are left as the run left them. -/
theorem Report.document_exact (report : Report) :
    (report.jsonText? = none ↔ ∃ o ∈ report.outcomes, ¬ o.path.IsText) ∧
      (∀ text, report.jsonText? = some text → ∃ document : Json,
        Json.Document document.spelling (text ++ "\n").toList ∧ document.Describes report) ∧
      ∀ (launch : Toolbox) (terminal : Bool) (r : Request) (site site' : Site) (plan : RunPlan)
        (events : List RunEvent), r.format = .json → r.Begins launch site plan →
          plan.run (r.command.plan r.cleanNotebooks) site = (none, ⟨site', report, events⟩) →
            let done := Session.perform launch terminal r site
            done.site = site' ∧
              (∀ text, report.jsonText? = some text →
                done.printed = [text] ∧ done.exitCode = report.exitCode) ∧
              (report.jsonText? = none → done.printed = [] ∧ done.exitCode = 101) ∧
              (report.jsonText? = none ↔ ∃ op path,
                plan.Targeted (r.command.plan r.cleanNotebooks) site op path ∧ ¬ path.IsText) := by
  refine ⟨jsonText?_eq_none_iff, fun text => exists_document, ?_⟩
  intro launch terminal r site site' plan events hformat hbegins hrun done
  obtain ⟨hsite, hprinted, hcode⟩ : done.Finishes terminal r ⟨site', report, events⟩ :=
    Session.finishes_perform hbegins hrun
  simp only [Session.detailLines, Session.written?, Session.reportText?, hformat,
    List.nil_append] at hprinted hcode
  have hreport : report = (plan.run (r.command.plan r.cleanNotebooks) site).2.report := by
    rw [hrun]
  refine ⟨hsite, fun text htext => ?_, fun hnone => ?_, ?_⟩
  · rw [hprinted, hcode, htext]
    exact ⟨rfl, rfl⟩
  · rw [hprinted, hcode, hnone]
    exact ⟨rfl, rfl⟩
  · rw [hreport]
    exact RunPlan.jsonText?_run_eq_none_iff

/-! A file whose name is a byte that is no text, and whose last line is not ended. -/

namespace Session

def oddSite : Site :=
  ⟨⟨[([[0xe9]], .file [97] false)], by decide⟩, [], []⟩

end Session

/-- The file has been given its newline when the report cannot be printed: it has an outcome whose path
is no text. -/
theorem Transcript.abort_unspellable :
    let report := (RunPlan.run ⟨⟨{}, ⟨fun _ _ _ => .refused .notFound, 0⟩⟩, ⟨[], true⟩, .ofString ".",
      .apply⟩ [.newlineFix] Session.oddSite).2.report
    let t := ofArguments (fun _ _ _ => .refused .notFound) false
      ["newline-fix", ".", "--output-format", "json"] Session.oddSite
    report.outcomes.map Outcome.path = [⟨[Path.dot, Path.slash, 0xe9]⟩] ∧ report.jsonText? = none ∧
      Session.oddSite.files.content? [[0xe9]] = some [97] ∧
      t.site.files.content? [[0xe9]] = some [97, 10] ∧ t.stdout = "" ∧ t.exitCode = 101 := by
  refine ⟨?_, ?_, by decide, ?_, ?_, ?_⟩
  all_goals decide +kernel

end CodeTidy
