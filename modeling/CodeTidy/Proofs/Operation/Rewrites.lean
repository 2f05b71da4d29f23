import CodeTidy.Proofs.Host.Writes
import CodeTidy.Proofs.Notebook.RoundTrip
import CodeTidy.Proofs.Operation.Proposal
import Mathlib.Data.List.DropRight

/-!
# What operations propose

An operation that can change files keeps a file, replaces its bytes by others, or fails
(`rewrites_propose`); the style checker only ever reports (`reports_propose`).  Bytes that are
proposed differ from those that were read.  For notebooks that is so because what is read of the
stored text has the sources and the outputs of the notebook that was stored
(`Notebook.mask_cells_of_parse_render`).
-/

namespace CodeTidy

open CodeTidy.Text

/-! ### What is read of a file -/

namespace Site

variable {s : Site} {path : Path}

theorem readBytes_eq_ok_iff {content : Bytes} :
    s.readBytes path = .ok content ↔ s.files.read s.workingDirectory path = .ok content :=
  mapError_eq_ok

theorem readText_eq_ok_iff {text : String} :
    s.readText path = .ok text ↔
      s.files.read s.workingDirectory path = .ok (Utf8.encode text) := by
  rw [← readBytes_eq_ok_iff, readText, bind_eq_ok]
  constructor
  · rintro ⟨content, hr, h⟩
    split at h
    · cases h
    · rename_i text' ht
      obtain rfl := Except.ok.inj h
      rw [hr, Utf8.encode_of_decode? ht]
  · intro hr
    refine ⟨_, hr, ?_⟩
    rw [Utf8.decode?_encode]
    rfl

theorem readNotebook_eq_ok_iff {n : Notebook} :
    s.readNotebook path = .ok n ↔
      ∃ text, s.files.read s.workingDirectory path = .ok (Utf8.encode text) ∧
        Notebook.parse text.toList = .ok n := by
  rw [readNotebook, bind_eq_ok]
  refine exists_congr fun text => and_congr ?_ mapError_eq_ok
  rw [mapError_eq_ok, FileTree.readText_eq_ok_iff]

/-! Sites at which a file is read alike. -/

variable {a b : Site}

theorem readBytes_congr
    (h : a.files.read a.workingDirectory path = b.files.read b.workingDirectory path) :
    a.readBytes path = b.readBytes path := by
  rw [readBytes, readBytes, h]

theorem readText_congr
    (h : a.files.read a.workingDirectory path = b.files.read b.workingDirectory path) :
    a.readText path = b.readText path := by
  rw [readText, readText, readBytes_congr h]

theorem readNotebook_congr
    (h : a.files.read a.workingDirectory path = b.files.read b.workingDirectory path) :
    a.readNotebook path = b.readNotebook path := by
  rw [readNotebook, readNotebook, FileTree.readText, FileTree.readText, h]

end Site

/-! ### Rewriting -/

namespace Proposal

/-- What an operation that changes files may propose for a file that holds some bytes: new bytes
are other bytes, and cells that failed come with some only if `part` holds. -/
inductive Rewrites (part : Prop) (held : Except OsError Bytes) : Proposal → Prop where
  | keep : Rewrites part held .keep
  | replace {old new : Bytes} (hr : held = .ok old) (h : new ≠ old) :
    Rewrites part held (.replace new)
  | failed (error : OperationError) : Rewrites part held (.failed error)
  | partly (failures : List (Nat × ToolError)) {content? : Option Bytes}
    (h : ∀ new, content? = some new → part ∧ ∃ old, held = .ok old ∧ new ≠ old) :
    Rewrites part held (.partly failures content?)

/-- What an operation that changes no files may propose. -/
inductive Reports : Proposal → Prop where
  | keep : Reports .keep
  | findings (diagnostics : List Diagnostic) : Reports (.findings diagnostics)
  | failed (error : OperationError) : Reports (.failed error)

variable {part : Prop} {held : Except OsError Bytes}

theorem Rewrites.mono {p : Proposal} (h : p.Rewrites part held) {part' : Prop}
    (hp : part → part') : p.Rewrites part' held := by
  cases h with
  | keep => exact .keep
  | replace hr h => exact .replace hr h
  | failed error => exact .failed error
  | partly failures h => exact .partly failures fun new hnew => (h new hnew).imp_left hp

theorem rewrites_ofExcept {α : Type} {x : Except OperationError α} {k : α → Proposal}
    (h : ∀ a, x = .ok a → (k a).Rewrites part held) : (ofExcept x k).Rewrites part held := by
  cases x with
  | error error => exact .failed error
  | ok a => exact h a rfl

theorem rewrites_ofContents {old : Bytes} (hr : held = .ok old) (new : Bytes) :
    (ofContents old new).Rewrites part held := by
  unfold ofContents
  split
  · exact .keep
  · rename_i h
    exact .replace hr h

theorem reports_ofExcept {α : Type} {x : Except OperationError α} {k : α → Proposal}
    (h : ∀ a, (k a).Reports) : (ofExcept x k).Reports := by
  cases x with
  | error error => exact .failed error
  | ok a => exact h a

theorem reports_ofDiagnostics (diagnostics : List Diagnostic) :
    (ofDiagnostics diagnostics).Reports := by
  unfold ofDiagnostics
  split
  · exact .keep
  · exact .findings _

end Proposal

/-! ### Content that has no tool -/

variable {part : Prop} {held : Except OsError Bytes}

theorem dominantBytes_ne_nil (content : Bytes) : LineEnding.dominantBytes content ≠ [] := by
  unfold LineEnding.dominantBytes
  split <;> simp

theorem rewrites_proposeNewline {content : Bytes} (hr : held = .ok content) :
    (proposeNewline content).Rewrites part held := by
  unfold proposeNewline
  split
  · exact .replace hr fun h => dominantBytes_ne_nil content (by simpa using h)
  · exact .keep

/-! ### Notebooks -/

namespace Notebook

variable {text : String} {n : Notebook}

/-- When the stored text of a notebook is a text from which another was read, the two have the
same cells but for floats. -/
theorem mask_cells_of_render_eq (hn : parse text.toList = .ok n) {m : Notebook}
    (hm : m.Sound Json.Number.Fits) (h : m.render = text) :
    n.cells.map Cell.mask = m.cells.map Cell.mask :=
  mask_cells_of_parse_render hm (by rw [h, hn])

theorem isDirty_eq_any_mask (keys : List String) (n : Notebook) :
    n.isDirty keys = (n.cells.map Cell.mask).any (·.isDirty keys) := by
  rw [List.any_map, isDirty]
  exact congrArg (List.any n.cells) (funext fun c => (c.isDirty_mask keys).symm)

theorem isDirty_clean {P : Json.Number → Prop} (h : n.Sound P) (keys : List String) :
    (n.clean keys).isDirty keys = false := by
  refine List.any_eq_false.2 fun c hc => ?_
  obtain ⟨c, hc', rfl⟩ := List.mem_map.1 hc
  simp [Cell.isDirty_clean (h.cells c hc') keys]

theorem rewrites_proposeCleaning (hr : held = .ok (Utf8.encode text))
    (hn : parse text.toList = .ok n) (keys : List String) :
    (proposeCleaning keys n).Rewrites part held := by
  unfold proposeCleaning
  split
  · rename_i hd
    have hs := sound_of_parse hn
    refine .replace hr fun h => ?_
    have hm := mask_cells_of_render_eq hn (hs.clean keys) (encode_injective h)
    rw [isDirty_eq_any_mask, hm, ← isDirty_eq_any_mask, isDirty_clean hs] at hd
    exact Bool.false_ne_true hd
  · exact .keep

end Notebook

/-! ### Cells that a tool changes -/

theorem trimBreaksString_trimBreaksString (s : String) :
    trimBreaksString (trimBreaksString s) = trimBreaksString s := by
  unfold trimBreaksString
  rw [String.toList_ofList]
  exact congrArg String.ofList (List.rdropWhile_idempotent isBreak s.toList)

namespace CellResult

variable {select : Cell → Bool} {tool : Transformer} {c c' : Cell} {error : ToolError}

theorem ofCell_eq_failed_iff :
    ofCell select tool c = .failed error ↔ select c = true ∧ tool c.source = .error error := by
  unfold ofCell
  cases select c with
  | false => simp
  | true =>
    cases tool c.source with
    | error e => simp
    | ok output =>
      simp only [if_true]
      split <;> simp

theorem ofCell_eq_changed_iff :
    ofCell select tool c = .changed c' ↔
      select c = true ∧ ∃ output, tool c.source = .ok output ∧
        trimBreaksString output ≠ trimBreaksString c.source ∧
        c' = c.setSource (trimBreaksString output) := by
  unfold ofCell
  cases select c with
  | false => simp
  | true =>
    cases tool c.source with
    | error e => simp
    | ok output =>
      simp only [if_true]
      split
      · rename_i h
        simp [h]
      · rename_i h
        simp [h, eq_comm]

theorem missing?_eq_some_iff {r : CellResult} :
    r.missing? = some error ↔
      ∃ program, error = .notFound program ∧ r = .failed (.notFound program) := by
  unfold missing?
  split
  · rename_i program
    simp [eq_comm]
  · rename_i hne
    simpa using fun program _ => hne program

theorem missing?_eq_none_iff {r : CellResult} :
    r.missing? = none ↔ ∀ program, r ≠ .failed (.notFound program) := by
  rw [Option.eq_none_iff_forall_ne_some]
  simp only [Ne, missing?_eq_some_iff, not_exists, not_and]
  exact ⟨fun h program => h _ program rfl, fun h _ program _ => h program⟩

theorem isChanged_iff {r : CellResult} : r.isChanged = true ↔ ∃ c, r = .changed c := by
  cases r <;> simp [isChanged]

theorem source_ne_of_changed (h : ofCell select tool c = .changed c') : c'.source ≠ c.source := by
  obtain ⟨-, output, -, hne, rfl⟩ := ofCell_eq_changed_iff.1 h
  rw [Cell.source_setSource]
  intro e
  rw [← e, trimBreaksString_trimBreaksString] at hne
  exact hne rfl

theorem sound_cell {P : Json.Number → Prop} {d : Nat} (h : c.Sound P (d + 1)) :
    ((ofCell select tool c).cell c).Sound P (d + 1) := by
  cases hc : ofCell select tool c with
  | unchanged => exact h
  | failed e => exact h
  | changed c' =>
    obtain ⟨-, output, -, -, rfl⟩ := ofCell_eq_changed_iff.1 hc
    exact h.setSource _

end CellResult

namespace Transformer

variable {tool : Transformer} {select : Cell → Bool} {n : Notebook} {text : String}

theorem sound_transformCells {P : Json.Number → Prop} (h : n.Sound P) :
    (tool.transformCells select n).Sound P := by
  refine ⟨h.root, fun c hc => ?_⟩
  obtain ⟨c, hc', rfl⟩ := List.mem_map.1 hc
  exact CellResult.sound_cell (h.cells c hc')

/-- The tool fails on one of the cells that it is given, and changes another. -/
def PartlyFails (tool : Transformer) (select : Cell → Bool) (n : Notebook) : Prop :=
  (∃ c ∈ n.cells, ∃ error, CellResult.ofCell select tool c = .failed error) ∧
    ∃ c ∈ n.cells, ∃ c', CellResult.ofCell select tool c = .changed c'

theorem any_isChanged_iff :
    (tool.cellResults select n).any CellResult.isChanged = true ↔
      ∃ c ∈ n.cells, ∃ c', CellResult.ofCell select tool c = .changed c' := by
  simp [cellResults, CellResult.isChanged_iff]

/-- When a cell was changed, the stored notebook has another text than the one it was read
from. -/
theorem render_transformCells_ne (hn : Notebook.parse text.toList = .ok n)
    (h : (tool.cellResults select n).any CellResult.isChanged = true) :
    (tool.transformCells select n).render ≠ text := by
  intro e
  obtain ⟨c, hc, c', hc'⟩ := any_isChanged_iff.1 h
  have hm := Notebook.mask_cells_of_render_eq hn
    (sound_transformCells (Notebook.sound_of_parse hn)) e
  rw [transformCells, List.map_map] at hm
  have hmask : c.mask = c'.mask := by
    have hcell := List.map_inj_left.1 hm c hc
    rwa [Function.comp_apply, hc'] at hcell
  refine CellResult.source_ne_of_changed hc' ?_
  rw [← Cell.source_mask c', ← hmask, Cell.source_mask]

theorem content?_eq_some (hn : Notebook.parse text.toList = .ok n) {new : Bytes}
    (h : tool.content? select n = some new) :
    new ≠ Utf8.encode text ∧ ∃ c ∈ n.cells, ∃ c', CellResult.ofCell select tool c = .changed c' := by
  unfold content? at h
  split at h
  · rename_i hc
    obtain rfl := Option.some.inj h
    exact ⟨fun e => render_transformCells_ne hn hc (encode_injective e), any_isChanged_iff.1 hc⟩
  · simp at h

theorem failures_eq_nil_iff :
    ∀ {results : List CellResult} (number : Nat),
      CellResult.failures number results = [] ↔ ∀ r ∈ results, ∀ error, r ≠ .failed error
  | [], _ => by simp [CellResult.failures]
  | .unchanged :: results, number => by
    simp [CellResult.failures, failures_eq_nil_iff (number + 1)]
  | .changed c :: results, number => by
    simp [CellResult.failures, failures_eq_nil_iff (number + 1)]
  | .failed error :: results, number => by
    simp [CellResult.failures]

theorem exists_failed_iff :
    CellResult.failures 1 (tool.cellResults select n) ≠ [] ↔
      ∃ c ∈ n.cells, ∃ error, CellResult.ofCell select tool c = .failed error := by
  rw [Ne, failures_eq_nil_iff]
  simp [cellResults]

theorem proposeNotebook_of_missing {error : ToolError}
    (h : (tool.cellResults select n).findSome? CellResult.missing? = some error) :
    tool.proposeNotebook select n = .failed (.tool error) := by
  unfold proposeNotebook
  simp only [h]

theorem proposeNotebook_of_not_missing
    (h : (tool.cellResults select n).findSome? CellResult.missing? = none) :
    tool.proposeNotebook select n = tool.proposeCells select n := by
  unfold proposeNotebook
  simp only [h]

theorem rewrites_proposeNotebook (hr : held = .ok (Utf8.encode text))
    (hn : Notebook.parse text.toList = .ok n) :
    (tool.proposeNotebook select n).Rewrites (tool.PartlyFails select n) held := by
  cases hm : (tool.cellResults select n).findSome? CellResult.missing? with
  | some error =>
    rw [proposeNotebook_of_missing hm]
    exact .failed _
  | none =>
    rw [proposeNotebook_of_not_missing hm]
    unfold proposeCells
    split
    · cases hc : tool.content? select n with
      | none => exact .keep
      | some new => exact .replace hr (content?_eq_some hn hc).1
    · rename_i hf
      refine .partly _ fun new hc => ?_
      obtain ⟨hne, hchanged⟩ := content?_eq_some hn hc
      exact ⟨⟨exists_failed_iff.1 hf, hchanged⟩, _, hr, hne⟩

theorem rewrites_proposeSource {source : String} (hr : held = .ok (Utf8.encode source)) :
    (tool.proposeSource source).Rewrites part held :=
  Proposal.rewrites_ofExcept fun _ _ => Proposal.rewrites_ofContents hr _

end Transformer

/-! ### Operations -/

namespace Workshop

/-- What is read is a notebook, and a tool fails on one of the cells that it is given and changes
another. -/
def TransformPartlyFails (w : Workshop) (s : Site) (tool : Tool) (select : Cell → Bool)
    (path : Path) : Prop :=
  path.isNotebook = true ∧
    ∃ text n, s.files.read s.workingDirectory path = .ok (Utf8.encode text) ∧
      Notebook.parse text.toList = .ok n ∧ (w.transformer s tool path).PartlyFails select n

/-- The case in which an operation fails on a file and changes it nevertheless: sorting the
imports or formatting the code of a notebook, some cells of which fail while others change. -/
def PartlyFails (w : Workshop) (s : Site) (op : Operation) (path : Path) : Prop :=
  match op with
  | .sortImports => w.TransformPartlyFails s .isort Cell.hasCode path
  | .codeFormat => w.TransformPartlyFails s .black Cell.hasText path
  | _ => False

theorem rewrites_proposeTransform (w : Workshop) (s : Site) (tool : Tool) (select : Cell → Bool)
    (path : Path) :
    (w.proposeTransform s tool select path).Rewrites (w.TransformPartlyFails s tool select path)
      (s.files.read s.workingDirectory path) := by
  unfold proposeTransform
  split
  · rename_i hp
    refine Proposal.rewrites_ofExcept fun n hn => ?_
    obtain ⟨text, hr, hn⟩ := Site.readNotebook_eq_ok_iff.1 hn
    exact (Transformer.rewrites_proposeNotebook hr hn).mono fun h => ⟨hp, text, n, hr, hn, h⟩
  · exact Proposal.rewrites_ofExcept fun _ ht =>
      Transformer.rewrites_proposeSource (Site.readText_eq_ok_iff.1 ht)

/-- **An operation that can change files fails, keeps a file, or rewrites it with other bytes.** -/
theorem rewrites_propose (w : Workshop) (s : Site) {op : Operation} (h : op.fixable = true)
    (path : Path) :
    (w.propose s op path).Rewrites (w.PartlyFails s op path)
      (s.files.read s.workingDirectory path) := by
  cases op with
  | sortImports => exact rewrites_proposeTransform w s .isort Cell.hasCode path
  | codeFormat => exact rewrites_proposeTransform w s .black Cell.hasText path
  | grammarCheck => simp [Operation.fixable] at h
  | newlineFix =>
    exact Proposal.rewrites_ofExcept fun _ hb =>
      rewrites_proposeNewline (Site.readBytes_eq_ok_iff.1 hb)
  | cleanNotebook =>
    refine Proposal.rewrites_ofExcept fun n hn => ?_
    obtain ⟨text, hr, hn⟩ := Site.readNotebook_eq_ok_iff.1 hn
    exact Notebook.rewrites_proposeCleaning hr hn _
  | docformat =>
    exact Proposal.rewrites_ofExcept fun _ ht =>
      Proposal.rewrites_ofContents (Site.readText_eq_ok_iff.1 ht) _

/-- **The style checker reports and changes nothing.** -/
theorem reports_propose (w : Workshop) (s : Site) {op : Operation} (h : op.fixable = false)
    (path : Path) : (w.propose s op path).Reports := by
  obtain rfl : op = .grammarCheck := by cases op <;> simp_all [Operation.fixable]
  exact Proposal.reports_ofExcept fun _ => Proposal.reports_ofDiagnostics _

end Workshop

end CodeTidy
