import CodeTidy.Operation.StyleCheck
import CodeTidy.Proofs.Text.Lines
import Mathlib.Algebra.GroupWithZero.Nat
import Mathlib.Data.Prod.Lex
import Mathlib.Data.List.Basic

/-!
# Findings in notebooks

The checker sees the cells of a notebook as one document.  Its lines, one after the other, are the
lines of the checked cells (`CheckedCell.labels`), and `CheckedCell.locate` reads off this list
where a line comes from (`locate_succ`).  So every finding is brought back to the cell and the
line that the checker saw (`Checker.findings_located`).
-/

namespace CodeTidy

open CodeTidy.Text

/-! ### Trimmed sources -/

theorem exists_not_break_of_isCodeLine {line : List Char} (h : Cell.isCodeLine line = true) :
    ∃ c ∈ line, isBreak c = false := by
  refine Decidable.byContradiction fun hno => ?_
  have hno : ∀ c ∈ line, isBreak c ≠ false := fun c hc hb => hno ⟨c, hc, hb⟩
  have hall : ∀ c ∈ line, isBlank c = true := fun c hc =>
    isBlank_of_isBreak (by simpa using hno c hc)
  have htrim : trim line = [] := trim_eq_nil_iff.2 hall
  simp [Cell.isCodeLine, htrim] at h

namespace CheckedCell

/-- The source is not empty and does not end with a break. -/
structure Trimmed (c : CheckedCell) : Prop where
  ne_nil : c.source.toList ≠ []
  last : ∀ ch, c.source.toList.getLast? = some ch → isBreak ch = false

theorem trimmed_of_hasCode {c : Cell} (h : c.hasCode = true) (number : Nat) :
    Trimmed ⟨number, trimBreaksString c.source⟩ := by
  obtain ⟨line, hline, hcode⟩ := List.any_eq_true.1 (Bool.and_eq_true_iff.1 h).2
  obtain ⟨ch, hch, hbreak⟩ := exists_not_break_of_isCodeLine hcode
  have htrim : (trimBreaksString c.source).toList = c.source.toList.rdropWhile isBreak :=
    String.toList_ofList
  refine ⟨fun hnil => ?_, fun last hlast => ?_⟩
  · rw [htrim] at hnil
    have hall := List.rdropWhile_eq_nil_iff.1 hnil ch (subset_of_mem_lines hline hch)
    rw [hbreak] at hall
    exact Bool.false_ne_true hall
  · rw [htrim] at hlast
    obtain ⟨hne, rfl⟩ := List.mem_getLast?_eq_getLast hlast
    simpa using List.rdropWhile_last_not isBreak _ hne

/-! ### The checked cells -/

/-- The checked cells are those with code, under their numbers. -/
theorem mem_ofCells_iff {checked : CheckedCell} :
    ∀ {cells : List Cell} {number : Nat}, checked ∈ ofCells number cells ↔
      ∃ i c, cells[i]? = some c ∧ c.hasCode = true ∧
        checked = ⟨number + i, trimBreaksString c.source⟩
  | [], number => by simp [ofCells]
  | c :: cs, number => by
    have hrest : checked ∈ ofCells (number + 1) cs ↔
        ∃ i d, (c :: cs)[i + 1]? = some d ∧ d.hasCode = true ∧
          checked = ⟨number + (i + 1), trimBreaksString d.source⟩ := by
      rw [mem_ofCells_iff]
      simp only [List.getElem?_cons_succ, Nat.add_assoc, Nat.add_comm 1]
    have hsplit : (∃ i d, (c :: cs)[i]? = some d ∧ d.hasCode = true ∧
        checked = ⟨number + i, trimBreaksString d.source⟩) ↔
        (c.hasCode = true ∧ checked = ⟨number, trimBreaksString c.source⟩) ∨
          checked ∈ ofCells (number + 1) cs := by
      rw [hrest, ← Nat.or_exists_add_one]
      simp
    rw [ofCells, hsplit]
    split
    · rename_i h
      simp [h]
    · rename_i h
      simp [h]

theorem ofCells_eq_nil_iff {cells : List Cell} {number : Nat} :
    ofCells number cells = [] ↔ ∀ c ∈ cells, c.hasCode = false := by
  rw [List.eq_nil_iff_forall_not_mem]
  constructor
  · intro h c hc
    obtain ⟨i, hi⟩ := List.mem_iff_getElem?.1 hc
    exact Bool.eq_false_iff.2 fun hcode => h _ (mem_ofCells_iff.2 ⟨i, c, hi, hcode, rfl⟩)
  · intro h checked hchecked
    obtain ⟨i, c, hi, hcode, -⟩ := mem_ofCells_iff.1 hchecked
    exact Bool.eq_false_iff.1 (h c (List.mem_of_getElem? hi)) hcode

theorem pairwise_ofCells : ∀ (cells : List Cell) (number : Nat),
    (ofCells number cells).Pairwise fun c c' => c.number < c'.number
  | [], _ => .nil
  | c :: cs, number => by
    rw [ofCells]
    split
    · refine .cons (fun c' hc' => ?_) (pairwise_ofCells cs (number + 1))
      obtain ⟨i, d, -, -, rfl⟩ := mem_ofCells_iff.1 hc'
      show number < number + 1 + i
      omega
    · exact pairwise_ofCells cs (number + 1)

/-! ### The lines of the checked cells -/

/-- The lines of the cells, one after the other: the number of the cell, the number of the line in
the cell, and the line. -/
def labels (cells : List CheckedCell) : List (Nat × Nat × String) :=
  cells.flatMap fun c => (linesOf c.source).mapIdx fun i text => (c.number, i + 1, text)

theorem labels_cons (c : CheckedCell) (cs : List CheckedCell) :
    labels (c :: cs)
      = ((linesOf c.source).mapIdx fun i text => (c.number, i + 1, text)) ++ labels cs := rfl

theorem mem_labels_iff {cells : List CheckedCell} {number line : Nat} {text : String} :
    (number, line, text) ∈ labels cells ↔
      ∃ c ∈ cells, ∃ i, (linesOf c.source)[i]? = some text ∧ number = c.number ∧ line = i + 1 := by
  rw [labels, List.mem_flatMap]
  refine exists_congr fun c => and_congr_right fun _ => ?_
  rw [List.mem_iff_getElem?]
  refine exists_congr fun i => ?_
  rw [List.getElem?_mapIdx, Option.map_eq_some_iff]
  constructor
  · rintro ⟨text', ht, e⟩
    obtain ⟨rfl, rfl, rfl⟩ : c.number = number ∧ i + 1 = line ∧ text' = text := by simpa using e
    exact ⟨ht, rfl, rfl⟩
  · rintro ⟨ht, rfl, rfl⟩
    exact ⟨text, ht, rfl⟩

theorem pairwise_labels : ∀ {cells : List CheckedCell},
    (cells.Pairwise fun c c' => c.number < c'.number) →
      (labels cells).Pairwise fun x y => Prod.Lex (· < ·) (· < ·) (x.1, x.2.1) (y.1, y.2.1)
  | [], _ => .nil
  | c :: cs, h => by
    obtain ⟨hc, hcs⟩ := List.pairwise_cons.1 h
    rw [labels_cons]
    refine List.pairwise_append.2 ⟨?_, pairwise_labels hcs, ?_⟩
    · refine List.pairwise_iff_getElem.2 fun i j hi hj hij => ?_
      rw [List.getElem_mapIdx, List.getElem_mapIdx]
      exact .right _ (Nat.succ_lt_succ hij)
    · rintro x hx ⟨number, line, text⟩ hy
      obtain ⟨i, hi, rfl⟩ := List.mem_mapIdx.1 hx
      obtain ⟨c', hc', j, -, rfl, rfl⟩ := mem_labels_iff.1 hy
      exact .left _ _ (hc c' hc')

/-- **A line is located where it stands in the list of all lines.** -/
theorem locate_succ : ∀ (cells : List CheckedCell) (i : Nat),
    locate cells (i + 1) = (labels cells)[i]?.map fun x => (x.1, x.2.1)
  | [], i => by simp [locate, labels]
  | c :: cs, i => by
    have hlength : ((linesOf c.source).mapIdx fun i text => (c.number, i + 1, text)).length
        = c.size := List.length_mapIdx
    rw [locate, labels_cons]
    split
    · rename_i h
      have hi : i < (linesOf c.source).length := h
      rw [List.getElem?_append_left (by omega), List.getElem?_mapIdx,
        List.getElem?_eq_getElem hi]
      rfl
    · rename_i h
      have hrest : i + 1 - c.size = i - c.size + 1 := by omega
      rw [List.getElem?_append_right (by omega), hlength, hrest, locate_succ cs]

/-- The lines before a located line, and its number in its cell, make its number. -/
theorem locate_eq_some {number line : Nat} :
    ∀ {cells : List CheckedCell} {k : Nat}, locate cells k = some (number, line) →
      ∃ before c after, cells = before ++ c :: after ∧ c.number = number ∧
        (before.map size).sum + line = k
  | [], k, h => by simp [locate] at h
  | c :: cs, k, h => by
    rw [locate] at h
    split at h
    · obtain ⟨rfl, rfl⟩ := Prod.mk.inj (Option.some.inj h)
      exact ⟨[], c, cs, rfl, rfl, by simp⟩
    · obtain ⟨before, c', after, rfl, hnumber, hsum⟩ := locate_eq_some h
      refine ⟨c :: before, c', after, rfl, hnumber, ?_⟩
      rw [List.map_cons, List.sum_cons]
      omega

/-! ### The document -/

theorem toList_document : ∀ {cells : List CheckedCell}, cells ≠ [] →
    (document cells).toList = cells.flatMap fun c => c.source.toList ++ ['\n']
  | [], hne => absurd rfl hne
  | [c], _ => by simp [document]
  | c :: d :: cs, _ => by
    have ih := toList_document (List.cons_ne_nil d cs)
    rw [document, String.toList_append, List.map_cons] at ih
    rw [document, List.map_cons, List.map_cons, String.intercalate_cons_cons, String.toList_append,
      String.toList_append, List.append_assoc, ih, List.flatMap_cons, String.toList_append]
    rfl

theorem lines_flatMap : ∀ {cells : List CheckedCell}, (∀ c ∈ cells, c.Trimmed) →
    lines (cells.flatMap fun c => c.source.toList ++ ['\n'])
      = cells.flatMap fun c => lines c.source.toList
  | [], _ => rfl
  | c :: cs, h => by
    obtain ⟨hc, hcs⟩ := List.forall_mem_cons.1 h
    rw [List.flatMap_cons, List.append_assoc, List.singleton_append,
      lines_append_newline hc.ne_nil hc.last, lines_flatMap hcs, List.flatMap_cons]

theorem linesOf_document {cells : List CheckedCell} (hne : cells ≠ [])
    (h : ∀ c ∈ cells, c.Trimmed) :
    linesOf (document cells) = (labels cells).map fun x => x.2.2 := by
  rw [linesOf, toList_document hne, lines_flatMap h, labels, List.map_flatMap, List.map_flatMap]
  refine congrArg (List.flatMap · cells) (funext fun c => List.ext_getElem? fun i => ?_)
  simp [linesOf, Function.comp_def]

end CheckedCell

/-! ### Findings of a notebook -/

/-- Line `line` of cell `number` is checked and reads `text`: the cell is one with code, it counts
from one among all cells of the notebook, and the breaks at the end of its source are no lines. -/
def Notebook.CheckedLine (n : Notebook) (number line : Nat) (text : String) : Prop :=
  ∃ i j c, number = i + 1 ∧ line = j + 1 ∧ n.cells[i]? = some c ∧ c.hasCode = true ∧
    (linesOf (trimBreaksString c.source))[j]? = some text

/-- The lines of a document are, in their order, the checked lines of a notebook, and `place` says
which is which: a strictly increasing bijection that keeps what the lines read. -/
structure Notebook.LinesUp (n : Notebook) (document : List String)
    (place : Nat → Option (Nat × Nat)) : Prop where
  placed : ∀ k, 1 ≤ k → k ≤ document.length → ∃ number line text,
    place k = some (number, line) ∧ n.CheckedLine number line text ∧
      document[k - 1]? = some text
  increasing : ∀ k k', 1 ≤ k → k < k' → k' ≤ document.length → ∃ p p',
    place k = some p ∧ place k' = some p' ∧ Prod.Lex (· < ·) (· < ·) p p'
  onto : ∀ number line text, n.CheckedLine number line text → ∃ k,
    1 ≤ k ∧ k ≤ document.length ∧ place k = some (number, line)
  beyond : ∀ k, document.length < k → place k = none

namespace CheckedCell

variable {n : Notebook}

theorem mem_labels_ofCells_iff {number line : Nat} {text : String} :
    (number, line, text) ∈ labels (ofCells 1 n.cells) ↔ n.CheckedLine number line text := by
  rw [mem_labels_iff]
  constructor
  · rintro ⟨checked, hc, j, ht, rfl, rfl⟩
    obtain ⟨i, c, hi, hcode, rfl⟩ := mem_ofCells_iff.1 hc
    exact ⟨i, j, c, Nat.add_comm 1 i, rfl, hi, hcode, ht⟩
  · rintro ⟨i, j, c, rfl, rfl, hi, hcode, ht⟩
    exact ⟨⟨1 + i, trimBreaksString c.source⟩, mem_ofCells_iff.2 ⟨i, c, hi, hcode, rfl⟩, j, ht,
      Nat.add_comm i 1, rfl⟩

/-- **The lines of the document are the checked lines, and `locate` says which is which.** -/
theorem linesUp_locate (hne : ofCells 1 n.cells ≠ []) :
    n.LinesUp (linesOf (document (ofCells 1 n.cells))) (locate (ofCells 1 n.cells)) := by
  have hdoc : linesOf (document (ofCells 1 n.cells))
      = (labels (ofCells 1 n.cells)).map fun x => x.2.2 := by
    refine linesOf_document hne fun checked hc => ?_
    obtain ⟨i, c, -, hcode, rfl⟩ := mem_ofCells_iff.1 hc
    exact trimmed_of_hasCode hcode _
  have hlength : (linesOf (document (ofCells 1 n.cells))).length
      = (labels (ofCells 1 n.cells)).length := by
    rw [hdoc, List.length_map]
  have hplace : ∀ i (hi : i < (labels (ofCells 1 n.cells)).length),
      locate (ofCells 1 n.cells) (i + 1)
        = some ((labels (ofCells 1 n.cells))[i].1, (labels (ofCells 1 n.cells))[i].2.1) := by
    intro i hi
    rw [locate_succ, List.getElem?_eq_getElem hi]
    rfl
  have hsorted := List.pairwise_iff_getElem.1 (pairwise_labels (pairwise_ofCells n.cells 1))
  refine ⟨fun k hk hkn => ?_, fun k k' hk hkk hkn => ?_, fun number line text h => ?_,
    fun k hk => ?_⟩
  · obtain ⟨i, rfl⟩ : ∃ i, k = i + 1 := ⟨k - 1, by omega⟩
    have hi : i < (labels (ofCells 1 n.cells)).length := by omega
    refine ⟨_, _, (labels (ofCells 1 n.cells))[i].2.2, hplace i hi,
      mem_labels_ofCells_iff.1 (List.getElem_mem hi), ?_⟩
    rw [Nat.add_sub_cancel, hdoc, List.getElem?_map, List.getElem?_eq_getElem hi]
    rfl
  · obtain ⟨i, rfl⟩ : ∃ i, k = i + 1 := ⟨k - 1, by omega⟩
    obtain ⟨j, rfl⟩ : ∃ j, k' = j + 1 := ⟨k' - 1, by omega⟩
    exact ⟨_, _, hplace i (by omega), hplace j (by omega), hsorted i j _ _ (by omega)⟩
  · obtain ⟨i, hi, e⟩ := List.mem_iff_getElem.1 (mem_labels_ofCells_iff.2 h)
    refine ⟨i + 1, by omega, by omega, ?_⟩
    rw [hplace i hi, e]
  · obtain ⟨i, rfl⟩ : ∃ i, k = i + 1 := ⟨k - 1, by omega⟩
    rw [locate_succ, List.getElem?_eq_none (by omega)]
    rfl

end CheckedCell

namespace Diagnostic

theorem cell_of_parse? {line : List Char} {d : Diagnostic} (h : parse? line = some d) :
    d.cell = none := by
  unfold parse? at h
  simp only [Option.bind_eq_bind, Option.bind_eq_some_iff] at h
  obtain ⟨_, -, _, -, _, -, _, -, _, -, h⟩ := h
  rw [← Option.some.inj h]

theorem cell_of_mem_parseAll {output : List Char} {d : Diagnostic} (h : d ∈ parseAll output) :
    d.cell = none := by
  obtain ⟨line, -, hd⟩ := List.mem_filterMap.1 h
  exact cell_of_parse? hd

end Diagnostic

namespace Checker

variable {checker : Checker} {program document : String} {found : List Diagnostic}

theorem cell_of_findings (h : checker.findings program document = .ok found) :
    ∀ d ∈ found, d.cell = none := by
  unfold findings at h
  split at h
  · simp at h
  · dsimp only at h
    split at h
    · simp at h
    · obtain rfl := Except.ok.inj h
      exact fun d => Diagnostic.cell_of_mem_parseAll

/-- Of a notebook the checker sees the document of its checked cells. -/
theorem notebookFindings_eq (checker : Checker) (program : String) {n : Notebook}
    (hne : CheckedCell.ofCells 1 n.cells ≠ []) :
    checker.notebookFindings program n
      = (checker.findings program (CheckedCell.document (CheckedCell.ofCells 1 n.cells))).map
          (List.map (·.relocate (CheckedCell.ofCells 1 n.cells))) := by
  unfold notebookFindings
  split
  · rename_i hnil
    exact absurd hnil hne
  · split
    · rename_i e
      rw [e]
      rfl
    · rename_i e
      rw [e]
      rfl

/-- **Findings in notebooks are located.**  Without a cell that has code there is nothing to find.
Otherwise what the checker finds in the document comes back finding by finding, in order.  A finding on a line of the document comes back with the cell and
the line of that cell from which the line was taken (`LinesUp`); one beyond the last line comes
back as it was, without a cell.  Whatever the line, its number is the number of lines in the cells
before the located one and the located line together, so nothing is ever taken away from less. -/
theorem findings_located (checker : Checker) (program : String) (n : Notebook) :
    let cells := CheckedCell.ofCells 1 n.cells
    let document := CheckedCell.document cells
    ((∀ c ∈ n.cells, c.hasCode = false) → checker.notebookFindings program n = .ok []) ∧
      ((∃ c ∈ n.cells, c.hasCode = true) →
        checker.notebookFindings program n
            = (checker.findings program document).map (List.map (·.relocate cells)) ∧
          n.LinesUp (linesOf document) (CheckedCell.locate cells)) ∧
      (∀ found, checker.findings program document = .ok found → ∀ d ∈ found, d.cell = none) ∧
      ∀ d : Diagnostic,
        (CheckedCell.locate cells d.line = none → d.relocate cells = d) ∧
          ∀ number line, CheckedCell.locate cells d.line = some (number, line) →
            d.relocate cells = { d with cell := some number, line := line } ∧
              ∃ before c after, cells = before ++ c :: after ∧ c.number = number ∧
                (before.map CheckedCell.size).sum + line = d.line := by
  intro cells document
  refine ⟨fun hnone => ?_, ?_, fun found h => cell_of_findings h, fun d =>
    ⟨fun hd => ?_, fun number line hd => ⟨?_, CheckedCell.locate_eq_some hd⟩⟩⟩
  · rw [notebookFindings, CheckedCell.ofCells_eq_nil_iff.2 hnone]
  · rintro ⟨c, hc, hcode⟩
    have hne : CheckedCell.ofCells 1 n.cells ≠ [] := fun hnil =>
      Bool.eq_false_iff.1 (CheckedCell.ofCells_eq_nil_iff.1 hnil c hc) hcode
    exact ⟨checker.notebookFindings_eq program hne, CheckedCell.linesUp_locate hne⟩
  · rw [Diagnostic.relocate, hd]
  · rw [Diagnostic.relocate, hd]

end Checker

end CodeTidy
