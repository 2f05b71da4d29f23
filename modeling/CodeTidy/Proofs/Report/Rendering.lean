import Mathlib.Data.List.Forall2
import CodeTidy.Proofs.Report.Accounting
import CodeTidy.Proofs.Text.Splitting
import CodeTidy.Report.Json
import CodeTidy.Report.Text

/-!
# Both forms of a report say the same

The document for programs and the text for people are made from the same tallies.  An entry of the
document has the name and the numbers of its operation (`Tally.lists_toJson`), a line of the text
has a part for every status that occurs and for no other (`TextForm.shows_summaryLine`), and the
verdict goes with the exit code (`TextForm.verdict_iff`).  `Report.accounts` puts these together
with what the report counts.
-/

namespace CodeTidy

open CodeTidy.Text

/-! ### Painted texts -/

namespace Text

theorem replaceAll_go_of_notMem {c : Char} {cs new : List Char} :
    ∀ {s : List Char}, c ∉ s → replaceAll.go (c :: cs) new s 0 = s
  | [], _ => rfl
  | d :: s, h => by
    obtain ⟨hd, hs⟩ := List.ne_and_not_mem_of_not_mem_cons h
    have hno : (c :: cs).isPrefixOf (d :: s) = false := by
      rw [List.isPrefixOf_cons_cons, beq_false_of_ne hd, Bool.false_and]
    rw [replaceAll.go, hno, replaceAll_go_of_notMem hs]
    rfl

theorem replaceAll_of_notMem {c : Char} {cs new s : List Char} (h : c ∉ s) :
    replaceAll (c :: cs) new s = s :=
  replaceAll_go_of_notMem h

end Text

/-- The character with which escape sequences start. -/
def escape : Char := '\x1b'

/-- A text without escape sequences. -/
def Plain (text : String) : Prop :=
  escape ∉ text.toList

namespace Style

theorem toList_apply {text : String} (h : Plain text) (s : Style) :
    (s.apply text).toList
      = (escape :: '[' :: s.code.toList) ++ 'm' :: (text.toList ++ reset.toList) := by
  have hreset : reset.toList = escape :: "[0m".toList := by rfl
  have hstart : "\x1b[".toList = [escape, '['] := by rfl
  have hend : "m".toList = ['m'] := by rfl
  rw [apply, hreset, replaceAll_of_notMem h, String.ofList_toList, String.toList_append,
    String.toList_append, start, String.toList_append, String.toList_append, hstart, hend, hreset]
  simp only [List.cons_append, List.nil_append, List.append_assoc]

/-- A plain text can be read through its colours. -/
theorem apply_injective {a b : String} (ha : Plain a) (hb : Plain b) {s s' : Style}
    (h : s.apply a = s'.apply b) : a = b := by
  have hm : ∀ s : Style, 'm' ∉ escape :: '[' :: s.code.toList := by
    intro s
    cases s <;> decide
  have hlists := congrArg String.toList h
  rw [toList_apply ha, toList_apply hb] at hlists
  have hsplit := congrArg (splitOnce 'm') hlists
  rw [splitOnce_of_notMem (hm s), splitOnce_of_notMem (hm s')] at hsplit
  obtain ⟨-, htext⟩ := Prod.mk.inj (Option.some.inj hsplit)
  exact String.toList_inj.1 (List.append_cancel_right htext)

end Style

namespace TextForm

variable {f : TextForm}

theorem paint_injective {a b : String} (ha : Plain a) (hb : Plain b) {s s' : Style}
    (h : f.paint s a = f.paint s' b) : a = b := by
  unfold paint at h
  split at h
  · exact Style.apply_injective ha hb h
  · exact h

/-- A plain text and a painted one are the same only if they say the same. -/
theorem eq_of_eq_paint {a b : String} (ha : Plain a) (hb : Plain b) {s : Style}
    (h : a = f.paint s b) : a = b := by
  unfold paint at h
  split at h
  · refine absurd ?_ ha
    rw [h, Style.toList_apply hb]
    exact List.mem_cons_self
  · exact h

end TextForm

/-! ### Counters -/

theorem notMem_toString {c : Char} (hc : c.isDigit = false) (n : Nat) :
    c ∉ (toString n).toList := by
  intro h
  have hd : c.isDigit = true := by
    rw [Nat.toString_eq_ofList_toDigits, String.toList_ofList] at h
    exact Nat.isDigit_of_mem_toDigits (by decide) (by decide) h
  rw [hc] at hd
  exact Bool.noConfusion hd

theorem toString_injective {n n' : Nat} (h : toString n = toString n') : n = n' := by
  have hdigits : ∀ n : Nat, Nat.ofDigitChars 10 (toString n).toList 0 = n := fun n => by
    rw [Nat.toString_eq_ofList_toDigits, String.toList_ofList, Nat.ofDigitChars_ten_toDigits]
  rw [← hdigits n, h, hdigits]

namespace Status

def all : List Status :=
  [.clean, .modified, .violation, .error]

theorem mem_all (status : Status) : status ∈ all := by
  cases status <;> decide

/-- What a line of a report says about files with this status. -/
def counted : Status → String
  | clean => "clean"
  | modified => "modified"
  | violation => "with violations"
  | error => "failed"

/-- The colour of a counter. -/
def style? : Status → Option Style
  | clean => none
  | modified => some .green
  | violation => some .yellow
  | error => some .red

/-- The key of a counter in a document. -/
def key : Status → String
  | clean => "clean"
  | modified => "modified"
  | violation => "violations"
  | error => "errors"

def countText (status : Status) (n : Nat) : String :=
  toString n ++ " " ++ status.counted

variable {status status' : Status} {n n' : Nat}

theorem plain_countText (status : Status) (n : Nat) : Plain (status.countText n) := by
  have hdigits : escape ∉ (toString n).toList := notMem_toString (by decide) n
  have hword : escape ∉ " ".toList ++ status.counted.toList := by
    cases status <;> decide
  rw [Plain, countText, String.toList_append, String.toList_append, List.append_assoc]
  exact List.not_mem_append hdigits hword

theorem countText_injective (h : status.countText n = status'.countText n') :
    status = status' ∧ n = n' := by
  have hlist : ∀ (status : Status) (n : Nat), (status.countText n).toList
      = (toString n).toList ++ ' ' :: status.counted.toList := fun status n => by
    have hblank : " ".toList = [' '] := by rfl
    rw [countText, String.toList_append, String.toList_append, hblank, List.append_assoc]
    rfl
  have hdigits : ∀ n : Nat, ' ' ∉ (toString n).toList := notMem_toString (by decide)
  have hsplit := congrArg (splitOnce ' ' ∘ String.toList) h
  simp only [Function.comp_apply, hlist] at hsplit
  rw [splitOnce_of_notMem (hdigits n), splitOnce_of_notMem (hdigits n')] at hsplit
  obtain ⟨hn, hword⟩ := Prod.mk.inj (Option.some.inj hsplit)
  refine ⟨?_, toString_injective (String.toList_inj.1 hn)⟩
  have hword := String.toList_inj.1 hword
  cases status <;> cases status' <;> first | rfl | exact absurd hword (by decide)

end Status

/-! ### Lines -/

namespace TextForm

variable {f : TextForm} {status status' : Status} {n n' : Nat}

/-- A counter as a line shows it. -/
def shownCount (f : TextForm) (status : Status) (n : Nat) : String :=
  status.style?.elim (status.countText n) fun s => f.paint s (status.countText n)

theorem shownCount_injective (h : f.shownCount status n = f.shownCount status' n') :
    status = status' ∧ n = n' := by
  refine Status.countText_injective ?_
  have hp := Status.plain_countText status n
  have hp' := Status.plain_countText status' n'
  unfold shownCount at h
  cases hs : status.style? with
  | none =>
    cases hs' : status'.style? with
    | none => simpa [hs, hs'] using h
    | some s' =>
      rw [hs, hs'] at h
      exact eq_of_eq_paint hp hp' h
  | some s =>
    cases hs' : status'.style? with
    | none =>
      rw [hs, hs'] at h
      exact (eq_of_eq_paint hp' hp h.symm).symm
    | some s' =>
      rw [hs, hs'] at h
      exact paint_injective hp hp' h

/-- The line names the operation and says how many files it had.  After that it has the counters
that are not zero, in the order of the statuses: it shows a number for a status exactly when so many
outcomes, and not none, have the status. -/
structure Shows (f : TextForm) (line : String) (x : String × Tally) : Prop where
  exists_parts : ∃ parts : List String,
    line = f.paint .bold x.1 ++ ": "
      ++ String.intercalate ", " ((toString x.2.files ++ " file(s)") :: parts) ∧
    parts = (Status.all.filter (x.2.count · ≠ 0)).map (fun s => f.shownCount s (x.2.count s)) ∧
    ∀ status n, f.shownCount status n ∈ parts ↔ n = x.2.count status ∧ n ≠ 0

theorem shows_summaryLine (f : TextForm) (name : String) (t : Tally) :
    f.Shows (f.summaryLine name t) (name, t) := by
  have hcounter : ∀ status n, f.counter n status.counted status.style?
      = if n = 0 then [] else [f.shownCount status n] := fun status n => rfl
  have hparts : f.counter t.clean "clean" none ++ f.counter t.modified "modified" (some .green)
        ++ f.counter t.violations "with violations" (some .yellow)
        ++ f.counter t.errors "failed" (some .red)
      = (Status.all.filter (t.count · ≠ 0)).map fun s => f.shownCount s (t.count s) := by
    have hclean := hcounter .clean t.clean
    have hmodified := hcounter .modified t.modified
    have hviolation := hcounter .violation t.violations
    have herror := hcounter .error t.errors
    simp only [Status.counted, Status.style?] at hclean hmodified hviolation herror
    rw [hclean, hmodified, hviolation, herror]
    by_cases h1 : t.clean = 0 <;> by_cases h2 : t.modified = 0 <;>
      by_cases h3 : t.violations = 0 <;> by_cases h4 : t.errors = 0 <;>
      simp [Status.all, Tally.count, h1, h2, h3, h4]
  refine ⟨_, ?_, rfl, fun status n => ?_⟩
  · rw [summaryLine, ← hparts]
    simp only [List.append_assoc, List.cons_append, List.nil_append]
  · constructor
    · intro h
      obtain ⟨s, hs, heq⟩ := List.mem_map.1 h
      obtain ⟨rfl, rfl⟩ := shownCount_injective heq
      exact ⟨rfl, by simpa using (List.mem_filter.1 hs).2⟩
    · rintro ⟨rfl, hn⟩
      exact List.mem_map.2 ⟨status, List.mem_filter.2 ⟨status.mem_all, by simpa using hn⟩, rfl⟩

/-! ### Verdicts -/

/-- The announcement that there were errors. -/
def errorVerdict (f : TextForm) (n : Nat) : String :=
  f.paint .boldRed ("Finished with " ++ toString n ++ " error(s).")

/-- The announcement that rules were violated; after files could be changed, with a hint. -/
def violationVerdict (f : TextForm) (mode : Mode) (n : Nat) : String :=
  f.paint .boldYellow ("Found violations in " ++ toString n ++ " file(s)."
    ++ if mode = .check then "" else " Some of them cannot be fixed automatically.")

/-- The announcement that there was neither. -/
def cleanVerdict (f : TextForm) : String :=
  f.paint .boldGreen "All done!"

theorem verdicts_ne (f : TextForm) (mode : Mode) (n n' : Nat) :
    f.errorVerdict n ≠ f.violationVerdict mode n' ∧ f.errorVerdict n ≠ f.cleanVerdict ∧
      f.violationVerdict mode n' ≠ f.cleanVerdict := by
  have hdigits : ∀ n : Nat, escape ∉ (toString n).toList := notMem_toString (by decide)
  have herror : Plain ("Finished with " ++ toString n ++ " error(s).") := by
    have h := hdigits n
    simp only [Plain, String.toList_append, List.mem_append, h]
    decide
  have hviolation : Plain ("Found violations in " ++ toString n' ++ " file(s)."
      ++ if mode = .check then "" else " Some of them cannot be fixed automatically.") := by
    have h := hdigits n'
    cases mode <;> (simp only [Plain, String.toList_append, List.mem_append, h]; decide)
  have hclean : Plain "All done!" := by
    unfold Plain
    decide
  have hsecond : ∀ {a b : String}, a.toList[1]? ≠ b.toList[1]? → a ≠ b := fun h e => h (e ▸ rfl)
  refine ⟨fun e => hsecond ?_ (paint_injective herror hviolation e),
    fun e => hsecond ?_ (paint_injective herror hclean e),
    fun e => hsecond ?_ (paint_injective hviolation hclean e)⟩
  · simp [String.toList_append]
  · simp [String.toList_append]
  · simp [String.toList_append]

/-- **The verdict goes with the exit code.** -/
theorem verdict_iff (f : TextForm) (r : Report) :
    (f.verdict r = f.errorVerdict r.total.errors ↔ r.exitCode = 2) ∧
      (f.verdict r = f.violationVerdict r.mode r.total.violations ↔ r.exitCode = 1) ∧
      (f.verdict r = f.cleanVerdict ↔ r.exitCode = 0) := by
  obtain ⟨hev, hec, hvc⟩ := f.verdicts_ne r.mode r.total.errors r.total.violations
  cases herror : r.hasErrors with
  | true =>
    have hverdict : f.verdict r = f.errorVerdict r.total.errors := if_pos herror
    have hcode : r.exitCode = 2 := if_pos herror
    rw [hverdict, hcode]
    simp [hev, hec]
  | false =>
    cases hviolation : r.hasViolations with
    | true =>
      have hverdict : f.verdict r = f.violationVerdict r.mode r.total.violations := by
        simp [verdict, violationVerdict, herror, hviolation]
      have hcode : r.exitCode = 1 := by simp [Report.exitCode, herror, hviolation]
      rw [hverdict, hcode]
      simp [hev.symm, hvc]
    | false =>
      have hverdict : f.verdict r = f.cleanVerdict := by
        simp [verdict, cleanVerdict, herror, hviolation]
      have hcode : r.exitCode = 0 := by simp [Report.exitCode, herror, hviolation]
      rw [hverdict, hcode]
      simp [hec.symm, hvc.symm]

end TextForm

/-! ### Documents -/

/-- The entry of a document names the operation and has its numbers. -/
structure Json.Lists (entry : Json) (x : String × Tally) : Prop where
  exists_members : ∃ members : Json.Members, entry = .object members ∧
    members.get? "name" = some (.string x.1) ∧
    members.get? "files" = some (Json.nat x.2.files) ∧
    ∀ status : Status, members.get? status.key = some (Json.nat (x.2.count status))

theorem Tally.lists_toJson (name : String) (t : Tally) : (t.toJson name).Lists (name, t) := by
  refine ⟨_, rfl, rfl, rfl, fun status => ?_⟩
  cases status <;> rfl

theorem Outcome.isSome_toJson? (o : Outcome) :
    o.toJson?.isSome = (Utf8.decode? o.path.bytes).isSome :=
  Option.isSome_map

namespace Report

theorem isSome_toJson? (r : Report) :
    r.toJson?.isSome = true ↔
      ∀ o ∈ r.outcomes, (Utf8.decode? o.path.bytes).isSome = true := by
  rw [toJson?, Option.isSome_map]
  induction r.outcomes with
  | nil => simp
  | cons o os ih =>
    rw [List.mapM_cons, List.forall_mem_cons, ← ih, ← o.isSome_toJson?]
    cases o.toJson? <;> cases os.mapM Outcome.toJson? <;> simp

/-- **A report accounts for what was entered**, whatever the entries and their order.  The
operations are listed in the order of their first mention; each has a tally of its own outcomes by
status; the tallies add up to that of the report, which counts every outcome once; and the exit code
is the greatest severity, so that one more outcome never lowers it and the order makes no difference.
The document, which there is when all paths are text, and the text list the same operations with the
same numbers, and the verdict goes with the exit code. -/
theorem accounts (mode : Mode) (entries : List Entry) :
    let r := ofEntries mode entries
    let pushed := entries.filterMap Entry.outcome?
    (r.operations = (entries.map Entry.operation).eraseDups ∧ r.operations.Nodup ∧
        r.outcomes = pushed) ∧
      (r.summaries.map Prod.fst = r.operations ∧
        ∀ x ∈ r.summaries, (∀ status, x.2.count status
            = pushed.countP fun o => o.operation == x.1 && o.status == status) ∧
          x.2.files = x.2.clean + x.2.modified + x.2.violations + x.2.errors) ∧
      (r.total = (r.summaries.map Prod.snd).sum ∧ r.total.files = pushed.length) ∧
      (r.exitCode = (pushed.map (·.status.severity)).foldr max 0 ∧
        (∀ o, r.exitCode ≤ (r.push o).exitCode) ∧
        ∀ (mode' : Mode) (entries' : List Entry),
          (entries'.filterMap Entry.outcome?).Perm pushed →
            (ofEntries mode' entries').exitCode = r.exitCode) ∧
      (r.toJson?.isSome = true ↔
        ∀ o ∈ pushed, (Utf8.decode? o.path.bytes).isSome = true) ∧
      (∀ document, r.toJson? = some document →
        ∃ (members : Json.Members) (operations : List Json), document = .object members ∧
          members.get? "exit_code" = some (Json.nat r.exitCode) ∧
          members.get? "operations" = some (.array operations) ∧
          List.Forall₂ Json.Lists operations r.summaries) ∧
      ∀ f : TextForm, ∃ (lines : List String) (verdict : String),
        f.reportText r = "\n".intercalate (lines ++ [verdict]) ∧
        List.Forall₂ f.Shows lines r.summaries ∧
        (verdict = f.errorVerdict r.total.errors ↔ r.exitCode = 2) ∧
        (verdict = f.violationVerdict r.mode r.total.violations ↔ r.exitCode = 1) ∧
        (verdict = f.cleanVerdict ↔ r.exitCode = 0) := by
  intro r pushed
  have htracks : r.Tracks entries := tracks_ofEntries mode entries
  have houtcomes : r.outcomes = pushed := htracks.outcomes
  have hsummaries := htracks.summaries_eq
  refine ⟨⟨htracks.operations, htracks.nodup, houtcomes⟩, ⟨?_, fun x hx => ⟨fun status => ?_, rfl⟩⟩,
    ⟨r.sum_summaries.symm, ?_⟩, ⟨?_, fun o => ?_, fun mode' entries' hperm => ?_⟩, ?_,
    fun document hdocument => ?_, fun f => ⟨_, f.verdict r, rfl, ?_, f.verdict_iff r⟩⟩
  · rw [hsummaries, List.map_map]
    exact List.map_id _
  · rw [hsummaries] at hx
    obtain ⟨name, -, rfl⟩ := List.mem_map.1 hx
    rw [Tally.count_ofOutcomes, List.countP_filter, houtcomes]
    simp only [Bool.and_comm]
  · rw [total, Tally.files_ofOutcomes, houtcomes]
  · rw [exitCode_eq_worst, houtcomes]
    rfl
  · have hpush : (r.push o).outcomes = r.outcomes ++ [o] := by
      rw [push, outcomes_beginOperation]
    rw [exitCode_eq_worst, exitCode_eq_worst, hpush, worst_append]
    exact Nat.le_max_left _ _
  · rw [exitCode_eq_worst, exitCode_eq_worst, (tracks_ofEntries mode' entries').outcomes,
      worst_perm hperm, houtcomes]
  · rw [isSome_toJson?, houtcomes]
  · obtain ⟨outcomes, -, rfl⟩ := Option.map_eq_some_iff.1 hdocument
    refine ⟨_, _, rfl, rfl, rfl, List.forall₂_map_left_iff.2 ?_⟩
    exact List.forall₂_same.2 fun x _ => Tally.lists_toJson x.1 x.2
  · refine List.forall₂_map_left_iff.2 ?_
    exact List.forall₂_same.2 fun x _ => f.shows_summaryLine x.1 x.2

end Report

end CodeTidy
