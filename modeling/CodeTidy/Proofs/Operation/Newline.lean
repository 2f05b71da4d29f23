import CodeTidy.Proofs.Endings.Uniform
import CodeTidy.Proofs.Operation.Settled

/-!
# Ending the last line of a file

Applying `newline-fix` leaves the content with its last line ended (`ended`,
`Workshop.read_perform_newlineFix`).  The content stays in front, and its class of line endings stays
too, except exactly where LF content ends with a carriage return: the line feed that is written makes
a CRLF break with it (`detectBytes_ended_iff`, `Workshop.newline_keeps_class`).
-/

namespace CodeTidy

def ended (content : Bytes) : Bytes :=
  if needsNewline content then content ++ LineEnding.dominantBytes content else content

variable {content : Bytes}

theorem needsNewline_eq_false_iff :
    needsNewline content = false ↔ content = [] ∨ content.getLast? = some 10 := by
  unfold needsNewline
  cases h : content.getLast? with
  | none => simp [List.getLast?_eq_none_iff.1 h]
  | some last =>
    have hne : content ≠ [] := fun e => by simp [e] at h
    simp [hne]

theorem prefix_ended (content : Bytes) : content <+: ended content := by
  unfold ended
  split
  · exact List.prefix_append _ _
  · exact List.prefix_rfl

theorem ended_eq_nil_or_getLast? (content : Bytes) :
    ended content = [] ∨ (ended content).getLast? = some 10 := by
  unfold ended
  split
  · right
    unfold LineEnding.dominantBytes
    split <;> simp
  · rename_i h
    exact needsNewline_eq_false_iff.1 (by simpa using h)

theorem proposeNewline_eq (content : Bytes) :
    proposeNewline content = .ofContents content (ended content) := by
  unfold proposeNewline ended Proposal.ofContents
  split
  · rw [if_neg]
    simpa using dominantBytes_ne_nil content
  · rw [if_pos rfl]

/-! ### The class of the content -/

def endsWithCr (content : Bytes) : Bool :=
  Breaks.endsWithCr (· == 13) false content

theorem endsWithCr_iff : endsWithCr content = true ↔ content.getLast? = some 13 :=
  Breaks.endsWithCr_beq_iff

/-- The breaks of content that the prevailing break has been written after. -/
theorem ofBytes_append_dominantBytes (content : Bytes) :
    Breaks.ofBytes (content ++ LineEnding.dominantBytes content)
      = Breaks.ofBytes content
        + if (Breaks.ofBytes content).crlfDominates || endsWithCr content then ⟨1, 0⟩
          else ⟨0, 1⟩ := by
  have happend : ∀ b, Breaks.ofBytes (content ++ b)
      = Breaks.ofBytes content + Breaks.count (· == 13) (· == 10) (endsWithCr content) b :=
    Breaks.count_append content
  rw [happend, LineEnding.dominantBytes]
  cases (Breaks.ofBytes content).crlfDominates <;> cases endsWithCr content <;> rfl

/-- One more break of the prevailing kind keeps the class; a CRLF break that is one more of its kind
does not when there was none. -/
theorem Breaks.ending_add_iff (b : Breaks) (joined : Bool) :
    (b + if b.crlfDominates || joined then ⟨1, 0⟩ else ⟨0, 1⟩).ending = b.ending ↔
      (b.ending = .lf → joined = false) := by
  by_cases hcrlf : b.crlf = 0
  · have hdom : b.crlfDominates = false := by simp [Breaks.crlfDominates, hcrlf]
    have hlf : b.ending = .lf := by rw [Breaks.ending, if_pos hcrlf]
    rw [hdom, hlf]
    cases joined
    · simp [Breaks.ending, hcrlf]
    · have hne : (b + ⟨1, 0⟩).ending ≠ .lf := by
        rw [Breaks.ending, if_neg (by simp)]
        split <;> simp
      simpa using hne
  · have hne : b.ending ≠ .lf := by
      rw [Breaks.ending, if_neg hcrlf]
      split <;> simp
    refine iff_of_true ?_ fun h => absurd h hne
    cases hdom : b.crlfDominates
    · -- LF breaks prevail, and there are CRLF breaks too: the class is mixed and stays mixed
      have hlf : b.lf ≠ 0 := by
        have hle : ¬ b.lf < b.crlf := by simpa [Breaks.crlfDominates] using hdom
        omega
      cases joined <;> simp [Breaks.ending, hcrlf, hlf]
    · simp [Breaks.ending, hcrlf]

/-- **Content keeps its class when its last line is ended**, except exactly when it has LF breaks, or
none, and ends with a carriage return. -/
theorem detectBytes_ended_iff (content : Bytes) :
    LineEnding.detectBytes (ended content) = LineEnding.detectBytes content ↔
      (LineEnding.detectBytes content = .lf → content.getLast? ≠ some 13) := by
  unfold ended
  split
  · rw [LineEnding.detectBytes, LineEnding.detectBytes, ofBytes_append_dominantBytes,
      Breaks.ending_add_iff, ← Bool.not_eq_true, endsWithCr_iff]
  · rename_i h
    refine iff_of_true rfl fun _ hcr => ?_
    rcases needsNewline_eq_false_iff.1 (by simpa using h) with rfl | hlast
    · simp at hcr
    · simp [hlast] at hcr

namespace Workshop

variable {w : Workshop} {s : Site} {path : Path}

theorem read_perform_newlineFix (hr : s.files.read s.workingDirectory path = .ok content) :
    (w.perform .apply .newlineFix path s).2.files.read s.workingDirectory path
      = .ok (ended content) := by
  refine read_perform_of_ofContents ?_ hr
  rw [propose, Site.readBytes_eq_ok_iff.2 hr]
  exact proposeNewline_eq content

/-- **Ending the last line of a file keeps what is there, and its class of line endings.**  After
`newline-fix` has been applied, a file begins with what it was, and is empty or ends with a line feed.
It belongs to the class that it belonged to, except exactly when it has LF breaks, or none, and ends
with a carriage return. -/
theorem newline_keeps_class (w : Workshop) (s : Site) (path : Path)
    (hr : s.files.read s.workingDirectory path = .ok content) :
    ∃ new, (w.perform .apply .newlineFix path s).2.files.read s.workingDirectory path = .ok new ∧
      content <+: new ∧ (new = [] ∨ new.getLast? = some 10) ∧
      (LineEnding.detectBytes new = LineEnding.detectBytes content ↔
        (LineEnding.detectBytes content = .lf → content.getLast? ≠ some 13)) :=
  ⟨ended content, read_perform_newlineFix hr, prefix_ended content,
    ended_eq_nil_or_getLast? content, detectBytes_ended_iff content⟩

/-! A file with the given content, as the only one. -/

def notePath : Path :=
  .ofString "note.txt"

def noteSite (content : Bytes) : Site :=
  ⟨⟨[([Utf8.encode "note.txt"], .file content false)], .single (by decide) _⟩, [], []⟩

theorem read_noteSite (content : Bytes) :
    (noteSite content).files.read (noteSite content).workingDirectory notePath = .ok content := by
  rfl

def bareWorkshop : Workshop :=
  ⟨{}, ⟨fun _ _ _ => .refused .notFound, 0⟩⟩

/-- `a`, CRLF, `b` is CRLF content whose last line is not ended, and stays CRLF content. -/
theorem newline_keeps_crlf :
    let content : Bytes := [97, 13, 10, 98]
    let s := noteSite content
    s.files.read s.workingDirectory notePath = .ok content ∧
      ∃ new, (bareWorkshop.perform .apply .newlineFix notePath s).2.files.read s.workingDirectory
          notePath = .ok new ∧
        content <+: new ∧ new.getLast? = some 10 ∧ LineEnding.detectBytes new = .crlf := by
  intro content s
  have hr := read_noteSite content
  obtain ⟨new, hread, hbegins, hend, hclass⟩ := newline_keeps_class bareWorkshop s notePath hr
  have hcrlf : LineEnding.detectBytes content = .crlf := by decide
  refine ⟨hr, new, hread, hbegins, ?_, ?_⟩
  · refine hend.resolve_left fun hnil => ?_
    rw [hnil] at hbegins
    exact absurd hbegins (by decide)
  · rw [hclass.2 fun hlf => ?_, hcrlf]
    rw [hcrlf] at hlf
    exact absurd hlf (by decide)

/-- `a`, LF, `b`, CR is LF content; with the line feed that is written it has a CRLF break too. -/
theorem newline_mixes_class :
    let content : Bytes := [97, 10, 98, 13]
    let s := noteSite content
    let done := (bareWorkshop.perform .apply .newlineFix notePath s).2
    s.files.read s.workingDirectory notePath = .ok content ∧
      LineEnding.detectBytes content = .lf ∧
      done.files.read s.workingDirectory notePath = .ok [97, 10, 98, 13, 10] ∧
      LineEnding.detectBytes [97, 10, 98, 13, 10] = .mixed := by
  intro content s done
  refine ⟨read_noteSite content, by decide, ?_, by decide⟩
  have hread := read_perform_newlineFix (w := bareWorkshop) (read_noteSite content)
  have hended : ended content = [97, 10, 98, 13, 10] := by decide
  rwa [hended] at hread

end Workshop

end CodeTidy
