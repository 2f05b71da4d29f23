import CodeTidy.CommandLine.Session
import CodeTidy.Proofs.Run.Complete

/-!
# Requests that are refused

A request is refused for its target, its settings or its exclude patterns (`Request.Refused`), and
all of that is known before the first operation.  Discovery is asked again before every operation,
but it fails at the first or never (`RunPlan.run_eq_error`).
Hence an error leaves every file as it was, and every request that is not refused ends with the exit
code of its report (`Transcript.refused_or_run`).
-/

namespace CodeTidy

/-! ### Settings that cannot be used -/

theorem parsePatterns_eq_error {e : DiscoveryError} :
    ∀ {patterns : List String}, parsePatterns patterns = .error e →
      ∃ before pattern after fault, patterns = before ++ pattern :: after ∧
        (∀ p ∈ before, ∃ glob, Glob.parse excludeOptions p.toList = .ok glob) ∧
        Glob.parse excludeOptions pattern.toList = .error fault ∧ e = .invalidPattern pattern fault
  | [], h => by simp [parsePatterns] at h
  | p :: ps, h => by
    rw [parsePatterns] at h
    cases hp : Glob.parse excludeOptions p.toList with
    | error fault =>
      simp only [hp, Except.error.injEq] at h
      exact ⟨[], p, ps, fault, rfl, by simp, hp, h.symm⟩
    | ok glob =>
      cases hps : parsePatterns ps with
      | ok globs => simp [hp, hps, Except.map] at h
      | error e' =>
        simp only [hp, hps, Except.map, Except.error.injEq] at h
        subst h
        obtain ⟨before, pattern, after, fault, rfl, hbefore, hfault, rfl⟩ :=
          parsePatterns_eq_error hps
        refine ⟨p :: before, pattern, after, fault, rfl, fun q hq => ?_, hfault, rfl⟩
        rcases List.mem_cons.1 hq with rfl | hq
        · exact ⟨glob, hp⟩
        · exact hbefore q hq

theorem parsePatterns_ne_ok {pattern : String} {fault : GlobError}
    (hfault : Glob.parse excludeOptions pattern.toList = .error fault) :
    ∀ {patterns : List String}, pattern ∈ patterns → ∀ globs, parsePatterns patterns ≠ .ok globs
  | [], hm, _ => absurd hm (by simp)
  | p :: ps, hm, globs => by
    intro h
    rw [parsePatterns] at h
    cases hp : Glob.parse excludeOptions p.toList with
    | error e => simp [hp] at h
    | ok glob =>
      rcases List.mem_cons.1 hm with rfl | hm
      · simp [hfault] at hp
      · cases hps : parsePatterns ps with
        | error e => simp [hp, hps, Except.map] at h
        | ok globs' => exact parsePatterns_ne_ok hfault hm globs' hps

/-! ### What can come of a request -/

namespace Request

variable {r : Request} {site : Site} {launch : Toolbox} {plan : RunPlan} {e : FatalError}

/-- The target is there, and is one that the command takes. -/
structure Accepts (r : Request) (site : Site) : Prop where
  exist : site.files.exists? site.workingDirectory r.target = true
  single : r.command = .docformat → site.files.isDir site.workingDirectory r.target = false

/-- The file that a request takes its settings from. -/
def source? (r : Request) (site : Site) : Option Path :=
  r.settingsFile.or (findSettings? site.files site.workingDirectory r.target)

/-- The settings that a request is carried out with. -/
def settings (r : Request) (site : Site) : Except ConfigError LoadedConfig :=
  LoadedConfig.load site.files site.workingDirectory r.settingsFile r.target

/-- The exclude patterns of settings, with those that they stand for. -/
def patterns (loaded : LoadedConfig) : List String :=
  loaded.config.general.exclude.flatMap expandPattern

/-- Why a request is not carried out: the target, the settings, or the first pattern that cannot be
read. -/
inductive Refused (r : Request) (site : Site) : FatalError → Prop
  | missingTarget (absent : site.files.exists? site.workingDirectory r.target = false) :
      Refused r site (.missingTarget r.target)
  | directoryForDocformat
      (exist : site.files.exists? site.workingDirectory r.target = true)
      (command : r.command = .docformat)
      (directory : site.files.isDir site.workingDirectory r.target = true) :
      Refused r site (.directoryForDocformat r.target)
  | unreadableSettings {path : Path} {reason : OsError} (accepts : r.Accepts site)
      (source : r.source? site = some path)
      (read : site.files.readText site.workingDirectory path = .error reason) :
      Refused r site (.config (.unreadable path reason))
  | invalidSettings {path : Path} {text : String} {fault : DocumentError}
      (accepts : r.Accepts site) (source : r.source? site = some path)
      (read : site.files.readText site.workingDirectory path = .ok text)
      (parse : Config.ofToml text = .error fault) :
      Refused r site (.config (.invalid path fault))
  | invalidPattern {loaded : LoadedConfig} {before after : List String} {pattern : String}
      {fault : GlobError} (accepts : r.Accepts site) (settings : r.settings site = .ok loaded)
      (split : patterns loaded = before ++ pattern :: after)
      (readable : ∀ p ∈ before, ∃ glob, Glob.parse excludeOptions p.toList = .ok glob)
      (parse : Glob.parse excludeOptions pattern.toList = .error fault) :
      Refused r site (.discovery (.invalidPattern pattern fault))

/-- The run that a request begins: its target is accepted, its settings are loaded, and their exclude
patterns are read. -/
inductive Begins (launch : Toolbox) (r : Request) (site : Site) : RunPlan → Prop
  | intro {loaded : LoadedConfig} {globs : List Glob} (accepts : r.Accepts site)
      (settings : r.settings site = .ok loaded)
      (parse : parsePatterns (patterns loaded) = .ok globs) :
      Begins launch r site
        { workshop := ⟨loaded.config.toSections, ⟨launch, loaded.config.general.timeout⟩⟩
          discoverer := ⟨globs, loaded.config.general.respectGitignore⟩
          root := r.target
          mode := r.mode }

/-- Settings are not loaded from a file that cannot be read, or that is no document. -/
theorem Refused.of_settings {error : ConfigError} (accepts : r.Accepts site)
    (h : r.settings site = .error error) : r.Refused site (.config error) := by
  unfold settings LoadedConfig.load at h
  cases hsource : r.settingsFile.or (findSettings? site.files site.workingDirectory r.target) with
  | none => simp [hsource] at h
  | some path =>
    simp only [hsource, LoadedConfig.ofFile] at h
    split at h
    · rename_i reason hread
      obtain rfl := Except.error.inj h
      exact .unreadableSettings accepts hsource hread
    · rename_i text hread
      split at h
      · rename_i fault hparse
        obtain rfl := Except.error.inj h
        exact .invalidSettings accepts hsource hread hparse
      · simp at h

theorem Refused.not_begins (h : r.Refused site e) : ¬ r.Begins launch site plan := by
  rintro ⟨accepts, hsettings, hparse⟩
  cases h with
  | missingTarget absent => simp [accepts.exist] at absent
  | directoryForDocformat exist command directory => simp [accepts.single command] at directory
  | unreadableSettings _ source read =>
    unfold settings LoadedConfig.load at hsettings
    unfold source? at source
    simp [source, LoadedConfig.ofFile, read] at hsettings
  | invalidSettings _ source read parse =>
    unfold settings LoadedConfig.load at hsettings
    unfold source? at source
    simp [source, LoadedConfig.ofFile, read, parse] at hsettings
  | invalidPattern _ hsettings' split _ parse =>
    obtain rfl := Except.ok.inj (hsettings.symm.trans hsettings')
    refine parsePatterns_ne_ok parse ?_ _ hparse
    rw [split]
    exact List.mem_append_right _ List.mem_cons_self

end Request

/-! ### Sessions -/

namespace Session

variable {r : Request} {s : Session} {site : Site} {launch : Toolbox} {terminal : Bool}

/-- Nothing but messages has come of a request. -/
structure Untouched (s : Session) (site : Site) : Prop where
  site_eq : s.site = site
  printed_eq : s.printed = []
  error_eq : s.error = none

theorem Untouched.log1 (h : s.Untouched site) (e : LogEntry) : (s.log1 e).Untouched site :=
  ⟨h.site_eq, h.printed_eq, h.error_eq⟩

theorem Untouched.foldl_log1 {α : Type} (f : α → LogEntry) :
    ∀ (xs : List α) {s : Session}, s.Untouched site →
      (xs.foldl (fun s x => s.log1 (f x)) s).Untouched site
  | [], _, h => h
  | x :: xs, _, h => foldl_log1 f xs (h.log1 (f x))

theorem printReport_eq (s : Session) (r : Request) (form : TextForm) (report : Report) :
    (s.printReport r form report).site = s.site ∧ (s.printReport r form report).error = s.error := by
  unfold printReport
  split <;> exact ⟨rfl, rfl⟩

theorem exitCode_printReport {form : TextForm} {report : Report} {text : String}
    (h : reportText? r form report = some text) :
    (s.printReport r form report).exitCode = report.exitCode := by
  rw [printReport, h]

/-- A request is refused, and nothing has been done. -/
structure Refuses (done : Session) (r : Request) (site : Site) (e : FatalError) : Prop where
  error_eq : done.error = some e
  refused : r.Refused site e
  site_eq : done.site = site
  printed_eq : done.printed = []
  exitCode_eq : done.exitCode = errorCode

/-- A request is carried out by a run to its end; when its report can be written, the exit code is
the one of the report. -/
structure Completes (done : Session) (launch : Toolbox) (terminal : Bool) (r : Request) (site : Site)
    (plan : RunPlan) (progress : Progress) : Prop where
  error_eq : done.error = none
  begins : r.Begins launch site plan
  run_eq : plan.run (r.command.plan r.cleanNotebooks) site = (none, progress)
  site_eq : done.site = progress.site
  exitCode_eq : ∀ text, reportText? r (textForm progress.site (terminal && r.colors)) progress.report
    = some text → done.exitCode = progress.report.exitCode

theorem Untouched.refuses_fail (h : s.Untouched site) {e : FatalError} (he : r.Refused site e) :
    (s.fail e).Refuses r site e :=
  ⟨rfl, he, h.site_eq, h.printed_eq, rfl⟩

/-- With settings, an exclude pattern that cannot be read refuses a request; otherwise its run goes
to the end, because the root is there. -/
theorem refuses_or_completes_performWith {loaded : LoadedConfig} (h : s.Untouched site)
    (accepts : r.Accepts site) (hsettings : r.settings site = .ok loaded) :
    (∃ e, (s.performWith launch terminal r loaded.config).Refuses r site e) ∨
      ∃ plan progress,
        (s.performWith launch terminal r loaded.config).Completes launch terminal r site plan
          progress := by
  unfold performWith Discoverer.ofPatterns
  cases hparse : parsePatterns (loaded.config.general.exclude.flatMap expandPattern) with
  | error e =>
    obtain ⟨before, pattern, after, fault, hsplit, hbefore, hfault, rfl⟩ :=
      parsePatterns_eq_error hparse
    exact .inl ⟨_, h.refuses_fail (.invalidPattern accepts hsettings hsplit hbefore hfault)⟩
  | ok globs =>
    have hbegins : r.Begins launch site _ := .intro accepts hsettings hparse
    refine .inr ?_
    simp only [Except.map, h.site_eq]
    generalize hrun : RunPlan.run _ (r.command.plan r.cleanNotebooks) site = done
    obtain ⟨error?, progress⟩ := done
    cases error? with
    | some e =>
      -- the root would have to be missing
      have hroot := (RunPlan.run_eq_error (congrArg Prod.fst hrun)).2.1
      simp [accepts.exist] at hroot
    | none =>
      obtain ⟨hsite, herror⟩ := printReport_eq (r := r) _ _ progress.report
      exact ⟨_, progress, herror.trans h.error_eq, hbegins, hrun, hsite,
        fun text htext => exitCode_printReport htext⟩

theorem refuses_or_completes (launch : Toolbox) (terminal : Bool) (r : Request) (site : Site) :
    (∃ e, (perform launch terminal r site).Refuses r site e) ∨
      ∃ plan progress,
        (perform launch terminal r site).Completes launch terminal r site plan progress := by
  have hstart : ({ site := site } : Session).Untouched site := ⟨rfl, rfl, rfl⟩
  unfold perform
  cases hexist : site.files.exists? site.workingDirectory r.target with
  | false => exact .inl ⟨_, hstart.refuses_fail (.missingTarget hexist)⟩
  | true =>
    simp only [Bool.not_true, Bool.false_eq_true, if_false]
    split
    · rename_i hdir
      exact .inl ⟨_, hstart.refuses_fail (.directoryForDocformat hexist hdir.1 hdir.2)⟩
    · rename_i hdir
      have accepts : r.Accepts site := ⟨hexist, fun hc => by simpa [hc] using hdir⟩
      generalize hwarned : (if r.cleanNotebooks = true ∧ r.command ≠ .lint then
        ({ site := site } : Session).log1 (.program .warning
          ("--clean-notebooks only applies to lint; ignoring it for " ++ r.command.name))
        else { site := site }) = warned
      have hw : warned.Untouched site := by
        rw [← hwarned]
        split
        · exact hstart.log1 _
        · exact hstart
      split
      · rename_i error hload
        exact .inl ⟨_, hw.refuses_fail (.of_settings accepts hload)⟩
      · rename_i loaded hload
        have hlogged := hw.foldl_log1 LogEntry.settings loaded.warnings
        cases loaded.source with
        | none => exact refuses_or_completes_performWith hlogged accepts hload
        | some path => exact refuses_or_completes_performWith (hlogged.log1 _) accepts hload

end Session

/-! ### Command lines -/

/-- **An error touches no file.**  A run that ends early ends where it began.  A command line that asks
for a run is refused, and then none has begun and the files are as they were; or its run goes to its
end, and the exit code is the one of the report when that can be written.  A command line that cannot
be understood, or asks for nothing, touches no file either. -/
theorem Transcript.refused_or_run (launch : Toolbox) (terminal : Bool) (arguments : List String)
    (site : Site) :
    let t := ofArguments launch terminal arguments site
    (∀ (plan : RunPlan) ops e, (plan.run ops site).1 = some e →
        (plan.run ops site).2 = plan.start site) ∧
      match Ask.ofArguments arguments with
      | .ok (.run r) =>
        let done := Session.perform launch terminal r site
        t = ofSession r.verbosity done ∧
          ((∃ e, done.error = some e ∧ r.Refused site e ∧ (∀ plan, ¬ r.Begins launch site plan) ∧
              t.site = site ∧ t.stdout = "" ∧ t.exitCode = 2) ∨
            ∃ plan progress, done.error = none ∧ r.Begins launch site plan ∧
              plan.run (r.command.plan r.cleanNotebooks) site = (none, progress) ∧
              t.site = progress.site ∧
              ∀ text, Session.reportText? r
                  (Session.textForm progress.site (terminal && r.colors)) progress.report = some text →
                t.exitCode = progress.report.exitCode)
      | _ => t.site = site := by
  refine ⟨fun plan ops e h => (RunPlan.run_eq_error h).2.2, ?_⟩
  unfold ofArguments
  cases Ask.ofArguments arguments with
  | error e => rfl
  | ok ask =>
    cases ask with
    | version => rfl
    | help => rfl
    | run r =>
      refine ⟨rfl, ?_⟩
      obtain ⟨e, h⟩ | ⟨plan, progress, h⟩ := Session.refuses_or_completes launch terminal r site
      · have hstdout : String.join ((Session.perform launch terminal r site).printed.map (· ++ "\n"))
            = "" := by
          rw [h.printed_eq]
          rfl
        exact .inl ⟨e, h.error_eq, h.refused, fun plan => h.refused.not_begins, h.site_eq, hstdout,
          h.exitCode_eq⟩
      · exact .inr ⟨plan, progress, h.error_eq, h.begins, h.run_eq, h.site_eq, h.exitCode_eq⟩

end CodeTidy
