import CodeTidy.Lookup
import CodeTidy.Proofs.Text.Lines
import CodeTidy.Proofs.Text.Splitting
import CodeTidy.Settings.IgnoreList

/-!
# Ignores by file that are read line by line

A text is read when every line that is not blank is an entry (`FileIgnores.IsEntry`), and then its
entries are gathered by file (`FileIgnores.parse_eq`).  Gathering what stands in two lists is
merging what is gathered from each (`FileIgnores.gather_append`), and blanks at the end of a line
make no difference, so a text that is put together from two is read as the two are
(`FileIgnores.parse_exact`).
-/

namespace CodeTidy

open CodeTidy.Text

/-! ### Codes -/

/-- The pieces between commas, trimmed, without the blank ones. -/
def commaPieces (codes : List Char) : List String :=
  (((codes.splitOn ',').map trim).filter (· ≠ [])).map String.ofList

theorem splitCodes_eq_commaPieces (codes : List Char) : splitCodes codes = commaPieces codes := by
  rw [splitCodes, commaPieces, splitAtEach_eq_splitOn]
  congr 2
  funext piece
  cases piece <;> rfl

/-- Blanks at the end of a list of codes are no part of it. -/
theorem commaPieces_append_blanks (codes : List Char) {b : List Char}
    (hb : ∀ c ∈ b, isBlank c = true) : commaPieces (codes ++ b) = commaPieces codes := by
  have hcomma : ',' ∉ b := fun h => absurd (hb _ h) (by decide)
  obtain ⟨parts, last, hcodes, hmore⟩ := exists_splitOn_append codes hcomma
  rw [commaPieces, commaPieces, hcodes, hmore, List.map_append, List.map_append, List.map_singleton,
    List.map_singleton, trim_append_blanks last hb]

namespace FileIgnores

/-! ### Entries -/

variable {line : List Char}

/-- A line is an entry when it has one colon, and before it something that is no blank. -/
structure IsEntry (line : List Char) : Prop where
  colon : line.count ':' = 1
  name : ∃ c ∈ line.takeWhile (· != ':'), isBlank c = false

theorem isEntry_iff : IsEntry line ↔
    line.count ':' = 1 ∧ ∃ c ∈ line.takeWhile (· != ':'), isBlank c = false :=
  ⟨fun h => ⟨h.colon, h.name⟩, fun h => ⟨h.1, h.2⟩⟩

instance (line : List Char) : Decidable (IsEntry line) :=
  decidable_of_iff (line.count ':' = 1 ∧ (line.takeWhile (· != ':')).any (!isBlank ·) = true) <| by
    simp only [isEntry_iff, List.any_eq_true, Bool.not_eq_true']

/-- The file of an entry: what stands before the colon, trimmed. -/
def fileOf (line : List Char) : String :=
  String.ofList (trim (line.takeWhile (· != ':')))

/-- The codes of an entry: the pieces between commas that stand after the colon. -/
def codesIn (line : List Char) : List String :=
  commaPieces ((line.dropWhile (· != ':')).drop 1)

def entryOf (line : List Char) : String × List String :=
  (fileOf line, codesIn line)

section colon

variable {before after : List Char} (h : ':' ∉ before)

include h

theorem takeWhile_colon : (before ++ ':' :: after).takeWhile (· != ':') = before :=
  takeWhile_append_of_head (fun c hc => by simpa using fun e : c = ':' => h (e ▸ hc)) (by simp)

theorem dropWhile_colon : (before ++ ':' :: after).dropWhile (· != ':') = ':' :: after :=
  dropWhile_append_of_head (fun c hc => by simpa using fun e : c = ':' => h (e ▸ hc)) (by simp)

theorem isEntry_colon_iff :
    IsEntry (before ++ ':' :: after) ↔ trim before ≠ [] ∧ ':' ∉ after := by
  rw [isEntry_iff, takeWhile_colon h, List.count_append, List.count_eq_zero.2 h,
    List.count_cons_self, Nat.zero_add, Nat.add_eq_right, List.count_eq_zero, Ne, trim_eq_nil_iff,
    and_comm]
  simp

theorem entryOf_colon :
    entryOf (before ++ ':' :: after) = (String.ofList (trim before), commaPieces after) := by
  rw [entryOf, fileOf, codesIn, takeWhile_colon h, dropWhile_colon h, List.drop_one, List.tail_cons]

end colon

section noColon

variable (h : ':' ∉ line)

include h

theorem not_isEntry : ¬ IsEntry line := fun he => by
  simpa [List.count_eq_zero.2 h] using he.colon

theorem entryOf_noColon : entryOf line = (String.ofList (trim line), []) := by
  have hne : ∀ c ∈ line, (c != ':') = true := fun c hc => by
    simpa using fun e : c = ':' => h (e ▸ hc)
  rw [entryOf, fileOf, codesIn, List.takeWhile_eq_self_iff.2 hne, List.dropWhile_eq_nil_iff.2 hne]
  rfl

end noColon

theorem entry?_eq (line : List Char) :
    entry? line = if IsEntry line then some (entryOf line) else none := by
  by_cases h : ':' ∈ line
  · obtain ⟨before, after, rfl, hbefore⟩ := List.eq_append_cons_of_mem h
    unfold entry?
    rw [splitOnce_of_notMem hbefore, entryOf_colon hbefore, ← splitCodes_eq_commaPieces]
    simp only [isEntry_colon_iff hbefore, List.isEmpty_iff, List.contains_iff_mem]
    by_cases hname : trim before = [] <;> by_cases hafter : ':' ∈ after <;> simp [hname, hafter]
  · unfold entry?
    rw [splitOnce_eq_none h, if_neg (not_isEntry h)]

/-- Blanks at the end of a line make no difference. -/
theorem entry_trimEnd (line : List Char) :
    (IsEntry (trimEnd line) ↔ IsEntry line) ∧ entryOf (trimEnd line) = entryOf line := by
  obtain ⟨b, hline, hb⟩ := exists_dropEndWhile_append isBlank line
  have hcolon : ':' ∉ b := fun h => absurd (hb _ h) (by decide)
  by_cases h : ':' ∈ trimEnd line
  · obtain ⟨before, after, he, hbefore⟩ := List.eq_append_cons_of_mem h
    have hline : line = before ++ ':' :: (after ++ b) := by
      rw [hline, ← trimEnd, he, List.append_assoc]
      rfl
    rw [he, hline, isEntry_colon_iff hbefore, isEntry_colon_iff hbefore, entryOf_colon hbefore,
      entryOf_colon hbefore, commaPieces_append_blanks after hb]
    simp [hcolon]
  · have hline' : ':' ∉ line := by
      rw [hline]
      exact List.not_mem_append h hcolon
    rw [entryOf_noColon h, entryOf_noColon hline', trim_trimEnd]
    exact ⟨iff_of_false (not_isEntry h) (not_isEntry hline'), rfl⟩

/-! ### Gathering entries by file -/

/-- All codes that entries have for a file. -/
def allCodes (entries : List (String × List String)) (file : String) : List String :=
  (entries.filter (·.1 = file)).flatMap Prod.snd

/-- The codes of entries, gathered by file: every file stands where it occurs first. -/
def gather (entries : List (String × List String)) : FileIgnores :=
  (entries.map Prod.fst).eraseDups.map fun file => (file, allCodes entries file)

/-- Merges by file: the files of the first, with what the second has for them, and then those that
only the second has. -/
def merge (a b : FileIgnores) : FileIgnores :=
  (a.map fun e => (e.1, e.2 ++ b.codesFor e.1)) ++ b.filter fun e => e.1 ∉ a.map Prod.fst

variable {entries more : List (String × List String)} {file : String} {codes : List String}

theorem keys_gather (entries : List (String × List String)) :
    (gather entries).map Prod.fst = (entries.map Prod.fst).eraseDups := by
  rw [gather, List.map_map]
  exact List.map_id _

theorem lookup_map_key {β : Type} (f : String → β) (file : String) :
    ∀ files : List String, (files.map fun file => (file, f file)).lookup file
      = if file ∈ files then some (f file) else none
  | [] => rfl
  | file' :: files => by
    rw [List.map_cons, List.lookup_cons, lookup_map_key f file files]
    cases h : file == file' with
    | true => simp [eq_of_beq h]
    | false => simp [ne_of_beq_false h]

theorem allCodes_append (entries more : List (String × List String)) (file : String) :
    allCodes (entries ++ more) file = allCodes entries file ++ allCodes more file := by
  rw [allCodes, List.filter_append, List.flatMap_append]
  rfl

theorem allCodes_eq_nil (h : file ∉ entries.map Prod.fst) : allCodes entries file = [] := by
  have hnone : entries.filter (·.1 = file) = [] := by
    refine List.filter_eq_nil_iff.2 fun e he hfile => h ?_
    rw [← of_decide_eq_true hfile]
    exact List.mem_map_of_mem he
  rw [allCodes, hnone]
  rfl

theorem codesFor_gather (entries : List (String × List String)) (file : String) :
    (gather entries).codesFor file = allCodes entries file := by
  rw [codesFor, gather, lookup_map_key]
  by_cases h : file ∈ entries.map Prod.fst
  · rw [if_pos (List.mem_eraseDups.2 h)]
    rfl
  · rw [if_neg fun hf => h (List.mem_eraseDups.1 hf), allCodes_eq_nil h]
    rfl

/-- **Gathering what stands in two lists is merging what is gathered from each.** -/
theorem gather_append (entries more : List (String × List String)) :
    gather (entries ++ more) = (gather entries).merge (gather more) := by
  have hfirst : (entries.map Prod.fst).eraseDups.map
        (fun file => (file, allCodes (entries ++ more) file))
      = (gather entries).map fun e => (e.1, e.2 ++ (gather more).codesFor e.1) := by
    rw [gather.eq_def entries, List.map_map]
    refine List.map_congr_left fun file _ => ?_
    rw [Function.comp_apply, codesFor_gather, allCodes_append]
  have hnew : ((more.map Prod.fst).removeAll (entries.map Prod.fst)).eraseDups
      = (more.map Prod.fst).eraseDups.filter fun file => file ∉ (gather entries).map Prod.fst := by
    rw [List.removeAll, ← filter_eraseDups, keys_gather]
    exact List.filter_congr fun file _ => by simp [List.mem_eraseDups]
  have hsecond : ((more.map Prod.fst).removeAll (entries.map Prod.fst)).eraseDups.map
        (fun file => (file, allCodes (entries ++ more) file))
      = (gather more).filter fun e => e.1 ∉ (gather entries).map Prod.fst := by
    rw [hnew, gather.eq_def more, List.filter_map]
    refine List.map_congr_left fun file h => ?_
    have hnot : file ∉ entries.map Prod.fst := by
      have hgather := of_decide_eq_true (List.mem_filter.1 h).2
      rwa [keys_gather, List.mem_eraseDups] at hgather
    rw [allCodes_append, allCodes_eq_nil hnot, List.nil_append]
  rw [merge, ← hfirst, ← hsecond, ← List.map_append, ← List.eraseDups_append, ← List.map_append]
  rfl

theorem codesFor_singleton_of_ne {file name : String} (h : name ≠ file) (codes : List String) :
    codesFor [(file, codes)] name = [] := by
  rw [codesFor, List.lookup_cons, beq_false_of_ne h]
  rfl

/-- Adding codes is merging with one entry. -/
theorem add_eq_merge (file : String) (codes : List String) : ∀ ignores : FileIgnores,
    (ignores.map Prod.fst).Nodup → ignores.add file codes = ignores.merge [(file, codes)]
  | [], _ => by simp [add, merge]
  | (f, cs) :: rest, h => by
    obtain ⟨hf, hrest⟩ : f ∉ rest.map Prod.fst ∧ (rest.map Prod.fst).Nodup := List.nodup_cons.1 h
    by_cases hfile : f = file
    · have hsame : rest.map (fun e => (e.1, e.2 ++ codesFor [(file, codes)] e.1)) = rest := by
        refine (List.map_congr_left fun e he => ?_).trans (List.map_id rest)
        have hne : e.1 ≠ file := by
          intro he'
          refine hf ?_
          rw [hfile, ← he']
          exact List.mem_map_of_mem he
        simp [codesFor_singleton_of_ne hne]
      rw [add, if_pos hfile, merge, List.map_cons, hsame]
      simp [codesFor, hfile]
    · have hself : codesFor [(file, codes)] f = [] := codesFor_singleton_of_ne hfile codes
      have hnew : (file ∉ ((f, cs) :: rest).map Prod.fst) = (file ∉ rest.map Prod.fst) := by
        simp [Ne.symm hfile]
      rw [add, if_neg hfile, add_eq_merge file codes rest hrest, merge, merge, List.map_cons, hself,
        List.append_nil, List.cons_append, List.filter_singleton, List.filter_singleton]
      simp only [hnew]

theorem add_gather (entries : List (String × List String)) (e : String × List String) :
    (gather entries).add e.1 e.2 = gather (entries ++ [e]) := by
  have hnodup : ((gather entries).map Prod.fst).Nodup := by
    rw [keys_gather]
    exact nodup_eraseDups _
  rw [add_eq_merge _ _ _ hnodup, gather_append]
  congr 1
  simp [gather, allCodes, List.eraseDups_cons]

/-! ### Reading lines -/

/-- The lines that are not blank. -/
def written (ls : List (List Char)) : List (List Char) :=
  ls.filter fun line => !line.all isBlank

/-- What comes of lines that are not blank: the first that is no entry is the error. -/
def reading (entries : List (String × List String)) (ls : List (List Char)) :
    Except (List Char) FileIgnores :=
  match ls.find? fun line => !decide (IsEntry line) with
  | some line => .error (trim line)
  | none => .ok (gather (entries ++ ls.map entryOf))

/-- Lines are read one after the other; what has been read is gathered. -/
theorem addLines_gather : ∀ (ls : List (List Char)) (entries : List (String × List String)),
    addLines (gather entries) ls = reading entries (written ls)
  | [], entries => by simp [addLines, reading, written]
  | line :: rest, entries => by
    rw [addLines, written, List.filter_cons]
    by_cases hblank : line.all isBlank = true
    · rw [if_pos hblank, if_neg (by simp [hblank]), addLines_gather rest entries, written]
    · rw [if_neg hblank, if_pos (by simpa using hblank), entry?_eq]
      by_cases he : IsEntry line
      · have ih := addLines_gather rest (entries ++ [entryOf line])
        rw [if_pos he]
        dsimp only
        rw [add_gather entries (entryOf line), ih, reading, reading,
          List.find?_cons_of_neg (by simp [he]), List.map_cons, List.append_assoc,
          List.singleton_append, written]
      · rw [if_neg he, reading, List.find?_cons_of_pos (by simp [he])]

theorem reading_map_trimEnd (entries : List (String × List String)) (ls : List (List Char)) :
    reading entries (ls.map trimEnd) = reading entries ls := by
  have hentry : ((fun line => !decide (IsEntry line)) ∘ trimEnd)
      = fun line => !decide (IsEntry line) := by
    funext line
    simp [(entry_trimEnd line).1]
  have hread : ls.map (entryOf ∘ trimEnd) = ls.map entryOf :=
    List.map_congr_left fun line _ => (entry_trimEnd line).2
  rw [reading, reading, List.find?_map, hentry, List.map_map, hread]
  cases ls.find? fun line => !decide (IsEntry line) with
  | none => rfl
  | some line => exact congrArg Except.error (trim_trimEnd line)

theorem written_map_trimEnd (ls : List (List Char)) :
    written (ls.map trimEnd) = (written ls).map trimEnd := by
  have hblank : ((fun line => !line.all isBlank) ∘ trimEnd)
      = fun line : List Char => !line.all isBlank := by
    funext line
    obtain ⟨b, hline, hb⟩ := exists_dropEndWhile_append isBlank line
    rw [Function.comp_apply, hline, List.all_append, List.all_eq_true.2 hb, Bool.and_true, ← hline]
    rfl
  rw [written, List.filter_map, hblank]
  rfl

theorem parse_eq (text : List Char) : parse text = reading [] (written (lines text)) :=
  addLines_gather (lines text) []

theorem reading_eq_ok_iff {ls : List (List Char)} {ignores : FileIgnores} :
    reading [] ls = .ok ignores ↔
      (∀ line ∈ ls, IsEntry line) ∧ ignores = gather (ls.map entryOf) := by
  rw [reading]
  cases h : ls.find? fun line => !decide (IsEntry line) with
  | none =>
    have hall : ∀ line ∈ ls, IsEntry line := by simpa using h
    exact ⟨fun e => ⟨hall, (Except.ok.inj e).symm⟩, fun e => congrArg Except.ok e.2.symm⟩
  | some line =>
    have hline : ¬ IsEntry line := by simpa using List.find?_some h
    have hnot : ¬ ∀ line ∈ ls, IsEntry line := fun hall =>
      hline (hall line (List.mem_of_find?_eq_some h))
    simp [hnot]

theorem reading_eq_error_iff {ls : List (List Char)} {bad : List Char} :
    reading [] ls = .error bad ↔ ∃ before line after, ls = before ++ line :: after ∧
      (∀ l ∈ before, IsEntry l) ∧ ¬ IsEntry line ∧ bad = trim line := by
  have hfind : reading [] ls = .error bad ↔
      ∃ line, (ls.find? fun line => !decide (IsEntry line)) = some line ∧ bad = trim line := by
    rw [reading]
    cases ls.find? fun line => !decide (IsEntry line) <;> simp [eq_comm]
  rw [hfind]
  simp only [List.find?_eq_some_iff_append, Bool.not_eq_true', decide_eq_false_iff_not,
    Bool.not_not, decide_eq_true_eq]
  constructor
  · rintro ⟨line, ⟨hline, before, after, hls, hbefore⟩, hbad⟩
    exact ⟨before, line, after, hls, hbefore, hline, hbad⟩
  · rintro ⟨before, line, after, hls, hbefore, hline, hbad⟩
    exact ⟨line, ⟨hline, before, after, hls, hbefore⟩, hbad⟩

/-- **A text that is put together from two is read as the two are.** -/
theorem parse_append_newline (a b : List Char) (ignores : FileIgnores) :
    parse (a ++ '\n' :: b) = .ok ignores ↔
      ∃ x y, parse a = .ok x ∧ parse b = .ok y ∧ ignores = x.merge y := by
  obtain ⟨between, hbetween, hlines⟩ := exists_lines_append_newline a b
  have hblank : written between = [] := by
    rcases hbetween with rfl | rfl <;> rfl
  have hboth : written ((lines (a ++ '\n' :: b)).map trimEnd)
      = written ((lines a).map trimEnd) ++ written ((lines b).map trimEnd) := by
    rw [hlines, written, List.filter_append, List.filter_append, ← written, ← written, ← written,
      hblank, List.append_nil]
  have hparse : ∀ text, parse text = reading [] (written ((lines text).map trimEnd)) := by
    intro text
    rw [parse_eq, written_map_trimEnd, reading_map_trimEnd]
  rw [hparse, hparse, hparse, hboth]
  simp only [reading_eq_ok_iff, List.map_append, gather_append, List.forall_mem_append]
  constructor
  · rintro ⟨⟨ha, hb⟩, rfl⟩
    exact ⟨_, _, ⟨ha, rfl⟩, ⟨hb, rfl⟩, rfl⟩
  · rintro ⟨_, _, ⟨ha, rfl⟩, ⟨hb, rfl⟩, rfl⟩
    exact ⟨⟨ha, hb⟩, rfl⟩

/-- **Ignores by file are read exactly as they are written.**  A text is read when every line that
is not blank is an entry: it has one colon, and before it something that is no blank.  Otherwise the
first line that is none is the error, trimmed.  What is read has the files of the entries in the
order in which they occur first, each once, and for each file the codes of all its entries in their
order.  So of two texts with a line feed between them both have to be readable, and what is read is
merged by file. -/
theorem parse_exact (text : List Char) :
    ((∃ ignores, parse text = .ok ignores) ↔
        ∀ line ∈ lines text, (∃ c ∈ line, isBlank c = false) → IsEntry line) ∧
      (∀ bad, parse text = .error bad ↔
        ∃ before line after, written (lines text) = before ++ line :: after ∧
          (∀ l ∈ before, IsEntry l) ∧ ¬ IsEntry line ∧ bad = trim line) ∧
      (∀ ignores, parse text = .ok ignores →
        ignores.map Prod.fst = ((written (lines text)).map fileOf).eraseDups ∧
          (ignores.map Prod.fst).Nodup ∧
          ∀ file, ignores.codesFor file
            = ((written (lines text)).filter (fileOf · = file)).flatMap codesIn) ∧
      ∀ more ignores, parse (text ++ '\n' :: more) = .ok ignores ↔
        ∃ x y, parse text = .ok x ∧ parse more = .ok y ∧ ignores = x.merge y := by
  refine ⟨?_, fun bad => ?_, fun ignores h => ?_, parse_append_newline text⟩
  · simp only [parse_eq, reading_eq_ok_iff, exists_and_left, exists_eq, and_true]
    simp [written]
  · rw [parse_eq, reading_eq_error_iff]
  · rw [parse_eq, reading_eq_ok_iff] at h
    obtain ⟨-, rfl⟩ := h
    have hfiles : ((written (lines text)).map entryOf).map Prod.fst
        = (written (lines text)).map fileOf := by
      rw [List.map_map]
      rfl
    refine ⟨by rw [keys_gather, hfiles], ?_, fun file => ?_⟩
    · rw [keys_gather]
      exact nodup_eraseDups _
    · rw [codesFor_gather, allCodes, List.filter_map, List.flatMap_map]
      rfl

example : parse "b.py: E1, ,E2\r\n\na.py:\n b.py :W".toList
    = .ok [("b.py", ["E1", "E2", "W"]), ("a.py", [])] := by
  rfl

end FileIgnores

end CodeTidy
