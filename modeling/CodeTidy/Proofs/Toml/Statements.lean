import CodeTidy.Proofs.Toml.Tables
import Mathlib.Data.List.Basic

/-!
# Documents, statement by statement

A document is built by a run of steps, one for each statement (`Built`, `built_of_build?`).  So a
table stands at a path at the end exactly when one of the statements makes it (`Statement.Makes`)
and none has an array of tables there or further up (`Statement.Arrays`): that is
`Built.hasTable_iff`, and `get?_toEntries_iff` for the document that is read.
-/

namespace CodeTidy.Toml

/-! ### What a statement does -/

namespace Statement

/-- The path to what a statement is about. -/
def target : Statement → List String
  | table path key => path ++ [key]
  | element path key => path ++ [key]
  | pair path key _ => path ++ [key]

/-- What a statement leaves at the end of its path: a header opens a table that was not there or had
no header, or adds to an array, and a pair needs a new key. -/
inductive Puts : Statement → Option Node → Node → Prop
  | opened {path : List String} {key : String} :
      Puts (.table path key) none (.table .header [])
  | named {path : List String} {key : String} {entries : Nodes} :
      Puts (.table path key) (some (.table .path entries)) (.table .header entries)
  | first {path : List String} {key : String} : Puts (.element path key) none (.tables [[]])
  | further {path : List String} {key : String} {elements : List Nodes} :
      Puts (.element path key) (some (.tables elements)) (.tables (elements ++ [[]]))
  | pair {path : List String} {key : String} {value : Toml} :
      Puts (.pair path key value) none (.value value)

/-- A statement makes a table at a path: its header names the table or something in it, or it is a
pair in the table or has the table in its value. -/
inductive Makes (p : List String) : Statement → Prop
  | table {path : List String} {key : String} (h : p <+: path ++ [key]) :
      Makes p (.table path key)
  | element {path : List String} {key : String} (h : p <+: path) : Makes p (.element path key)
  | pair {path : List String} {key : String} {value : Toml} (h : p <+: path) :
      Makes p (.pair path key value)
  | value {path r : List String} {key : String} {value : Toml} {entries : Entries}
      (hp : p = path ++ [key] ++ r) (h : value.get? r = some (.table entries)) :
      Makes p (.pair path key value)

/-- A statement has an array of tables at a path or further up. -/
inductive Arrays (p : List String) : Statement → Prop
  | element {path : List String} {key : String} (h : path ++ [key] <+: p) :
      Arrays p (.element path key)

instance (p : List String) : DecidablePred (Arrays p)
  | .table .. => .isFalse nofun
  | .element path key => decidable_of_iff (path ++ [key] <+: p) ⟨.element, fun | .element h => h⟩
  | .pair .. => .isFalse nofun

theorem Puts.grows {statement : Statement} {old : Option Node} {new : Node}
    (h : Puts statement old new) : Node.Grows old new := by
  intro q m hm
  cases h with
  | opened | first | pair => nomatch hm
  | named =>
    cases q with
    | nil =>
      obtain rfl := Option.some.inj hm
      exact ⟨_, rfl, .table⟩
    | cons key q => exact ⟨m, hm, .refl m⟩
  | further =>
    cases q with
    | nil =>
      obtain rfl := Option.some.inj hm
      exact ⟨_, rfl, .tables⟩
    | cons key q => nomatch hm

theorem Puts.distinct {statement : Statement} {old : Option Node} {new : Node}
    (h : Puts statement old new) (hold : ∀ m ∈ old, Node.Distinct m) : Node.Distinct new := by
  intro q origin entries hq
  cases h with
  | opened =>
    cases q with
    | nil => cases hq; exact List.nodup_nil
    | cons key q => nomatch hq
  | named =>
    cases q with
    | nil => cases hq; exact hold _ rfl [] _ _ rfl
    | cons key q => exact hold _ rfl (key :: q) _ _ hq
  | first | further => cases q <;> nomatch hq
  | @pair _ _ value =>
    rw [Node.get?_value] at hq
    cases h : value.get? q <;> simp [h] at hq

end Statement

/-! ### Building step by step -/

namespace Nodes

open Node (Step)

variable {final : Option Node → Node → Prop} {p : List String} {key : String} {node : Node}
  {nodes nodes' : Nodes}

theorem put_of_lookup_eq_none (h : nodes.lookup key = none) :
    nodes.put key node = nodes ++ [(key, node)] :=
  if_neg (by simp [h])

theorem put_of_lookup_eq_some {old : Node} (h : nodes.lookup key = some old) :
    nodes.put key node = replace key node nodes :=
  if_pos (by simp [h])

theorem add?_eq_some_iff :
    nodes.add? key node = some nodes' ↔ nodes.lookup key = none ∧ nodes' = nodes.put key node := by
  unfold add?
  cases h : nodes.lookup key with
  | none => simp [put_of_lookup_eq_none h, eq_comm]
  | some old => simp

/-- A table that is missing is made as an empty one is filled. -/
theorem step_of_empty {origin origin' : Origin} (hp : p ≠ [])
    (h : Step final p (some (.table origin [])) (.table origin' nodes)) :
    Step final p none (.table origin' nodes) := by
  cases h with
  | last => exact absurd rfl hp
  | table h => exact .new h

/-- Changing the table at the end of a path is a step, if the change is. -/
theorem step_modify {dotted : Bool} {f : Origin → Nodes → Option Nodes} (hp : p ≠ [])
    (hf : ∀ {origin inner inner'}, f origin inner = some inner' → ∀ o o',
      Step final p (some (.table o inner)) (.table o' inner')) :
    ∀ {q : List String} {origin : Origin} {nodes nodes' : Nodes},
      nodes.modify dotted f q origin = some nodes' → ∀ o o',
        Step final (q ++ p) (some (.table o nodes)) (.table o' nodes')
  | [], _, _, _, h, o, o' => hf h o o'
  | key :: q, origin, nodes, nodes', h, o, o' => by
    have hne : q ++ p ≠ [] := by simp [hp]
    rw [modify] at h
    cases hkey : nodes.lookup key with
    | none =>
      simp only [hkey, Option.map_eq_some_iff] at h
      obtain ⟨inner, hinner, rfl⟩ := h
      rw [← put_of_lookup_eq_none hkey]
      exact .table (hkey ▸ step_of_empty hne (step_modify hp hf hinner .path _))
    | some node =>
      cases node with
      | value v => simp [hkey] at h
      | table origin inner =>
        simp only [hkey] at h
        split at h
        · nomatch h
        · obtain ⟨inner', hinner, rfl⟩ := Option.map_eq_some_iff.1 h
          rw [← put_of_lookup_eq_some hkey]
          exact .table (hkey ▸ step_modify hp hf hinner origin origin)
      | tables elements =>
        simp only [hkey] at h
        cases hlast : elements.reverse with
        | nil => simp [hlast] at h
        | cons last before =>
          simp only [hlast, Option.map_eq_some_iff] at h
          obtain ⟨last', -, rfl⟩ := h
          rw [← put_of_lookup_eq_some hkey]
          obtain ⟨k, r, hqp⟩ := List.exists_cons_of_ne_nil hne
          rw [List.cons_append, hqp]
          exact .table (hkey ▸ .tables)

variable {path : List String} {value : Toml} {origin origin' : Origin}

theorem step_openTable? (h : nodes.openTable? path key = some nodes') :
    Step (Statement.table path key).Puts (path ++ [key]) (some (.table origin nodes))
      (.table origin' nodes') := by
  refine step_modify (by simp) (fun {_ inner inner'} h o o' => ?_) h origin origin'
  cases hkey : inner.lookup key with
  | none =>
    simp only [hkey, add?_eq_some_iff] at h
    obtain ⟨-, rfl⟩ := h
    exact .table (hkey ▸ .last .opened)
  | some node =>
    cases node with
    | table origin entries =>
      cases origin with
      | path =>
        simp only [hkey, Option.some.injEq] at h
        subst h
        rw [← put_of_lookup_eq_some hkey]
        exact .table (hkey ▸ .last .named)
      | _ => simp [hkey] at h
    | _ => simp [hkey] at h

theorem step_openElement? (h : nodes.openElement? path key = some nodes') :
    Step (Statement.element path key).Puts (path ++ [key]) (some (.table origin nodes))
      (.table origin' nodes') := by
  refine step_modify (by simp) (fun {_ inner inner'} h o o' => ?_) h origin origin'
  cases hkey : inner.lookup key with
  | none =>
    simp only [hkey, add?_eq_some_iff] at h
    obtain ⟨-, rfl⟩ := h
    exact .table (hkey ▸ .last .first)
  | some node =>
    cases node with
    | tables elements =>
      simp only [hkey, Option.some.injEq] at h
      subst h
      rw [← put_of_lookup_eq_some hkey]
      exact .table (hkey ▸ .last .further)
    | _ => simp [hkey] at h

theorem step_set? (current : List String)
    (h : nodes.set? path key (.value value) = some nodes') :
    Step (Statement.pair current key value).Puts (path ++ [key]) (some (.table origin nodes))
      (.table origin' nodes') := by
  refine step_modify (by simp) (fun {_ inner inner'} h o o' => ?_) h origin origin'
  split at h
  · nomatch h
  · obtain ⟨hkey, rfl⟩ := add?_eq_some_iff.1 h
    exact .table (hkey ▸ .last .pair)

end Nodes

/-! ### What a statement makes -/

namespace Statement

variable {p q : List String} {statement : Statement} {before after m : Node}

/-- What is new at a path after a statement. -/
inductive News (q : List String) : Statement → Node → Prop
  | above {statement : Statement} {origin : Origin} {entries : Nodes} (h : q <+: statement.target)
      (hne : q ≠ statement.target) : News q statement (.table origin entries)
  | opened {path : List String} {key : String} (h : q = path ++ [key]) :
      News q (.table path key) (.table .header [])
  | first {path : List String} {key : String} (h : q = path ++ [key]) :
      News q (.element path key) (.tables [[]])
  | pair {path r : List String} {key : String} {value v : Toml} (h : q = path ++ [key] ++ r)
      (hv : value.get? r = some v) : News q (.pair path key value) (.value v)

theorem news_of_step (h : Node.Step statement.Puts statement.target (some before) after)
    (hnew : after.get? q = some m) (hold : before.get? q = none) : statement.News q m := by
  rcases h.origin hnew hold with
    ⟨hq, hne, origin, entries, rfl⟩ | ⟨r, old, node, rfl, hputs, hr, hold⟩
  · exact .above hq hne
  · cases hputs with
    | opened =>
      cases r with
      | nil =>
        cases hr
        exact .opened (List.append_nil _)
      | cons key r => nomatch hr
    | named =>
      cases r with
      | nil => nomatch hold
      | cons key r => exact absurd (hr.symm.trans hold) (Option.some_ne_none _)
    | first =>
      cases r with
      | nil =>
        cases hr
        exact .first (List.append_nil _)
      | cons key r => nomatch hr
    | further => cases r <;> [nomatch hold; nomatch hr]
    | pair =>
      rw [Node.get?_value] at hr
      obtain ⟨v, hv, rfl⟩ := Option.map_eq_some_iff.1 hr
      exact .pair rfl hv

theorem prefix_of_prefix_target {path : List String} {key : String} (h : p <+: path ++ [key])
    (hne : p ≠ path ++ [key]) : p <+: path :=
  (List.prefix_concat_iff.1 h).resolve_left hne

theorem News.makes (h : statement.News p m) (htable : m.IsTable) : statement.Makes p := by
  cases h with
  | above h hne =>
    cases statement with
    | table path key => exact .table h
    | element path key => exact .element (prefix_of_prefix_target h hne)
    | pair path key value => exact .pair (prefix_of_prefix_target h hne)
  | opened h => exact .table (h ▸ List.prefix_rfl)
  | first => exact absurd htable (Node.not_isTable_tables _)
  | pair h hv =>
    obtain ⟨entries, hentries⟩ := htable
    rw [Node.toToml] at hentries
    exact .value h (hv.trans (congrArg some hentries))

theorem Makes.reaches (h : statement.Makes p)
    (step : Node.Step statement.Puts statement.target (some before) after) :
    after.ArrayOn p ∨ ∃ m, after.get? p = some m ∧ m.IsTable := by
  have habove (hp : p <+: statement.target) (hne : p ≠ statement.target) :
      after.ArrayOn p ∨ ∃ m, after.get? p = some m ∧ m.IsTable := by
    refine (step.above hp hne).imp_right ?_
    rintro ⟨origin, entries, hm⟩
    exact ⟨_, hm, Node.isTable_table _ _⟩
  have hbelow {path : List String} {key : String} (hp : p <+: path) :
      p <+: path ++ [key] ∧ p ≠ path ++ [key] := by
    refine ⟨hp.trans (List.prefix_append _ _), ?_⟩
    rintro rfl
    exact absurd hp.length_le (by simp)
  cases h with
  | @table path key hp =>
    by_cases hne : p = path ++ [key]
    · subst hne
      refine step.reaches.imp_right ?_
      rintro ⟨old, m, hm, hputs⟩
      refine ⟨m, hm, ?_⟩
      cases hputs <;> exact Node.isTable_table _ _
    · exact habove hp hne
  | element hp => exact habove (hbelow hp).1 (hbelow hp).2
  | pair hp => exact habove (hbelow hp).1 (hbelow hp).2
  | @value _ r _ value entries hp hvalue =>
    subst hp
    rcases step.reaches with harray | ⟨old, m, hm, hputs⟩
    · exact .inl (harray.mono (List.prefix_append _ _))
    · cases hputs
      refine .inr ⟨.value (.table entries), ?_, entries, by rw [Node.toToml]⟩
      rw [Node.get?_append]
      refine (congrArg (Option.bind · _) hm).trans ?_
      rw [Option.bind_some, Node.get?_value, hvalue]
      rfl

theorem Arrays.arrayOn (h : statement.Arrays p)
    (step : Node.Step statement.Puts statement.target (some before) after) :
    after.ArrayOn p := by
  cases h with
  | element hp =>
    rcases step.reaches with harray | ⟨old, m, hm, hputs⟩
    · exact harray.mono hp
    · cases hputs <;> exact ⟨_, hp, _, hm⟩

end Statement

/-! ### Whole documents -/

/-- The statements with the paths of their pairs from the top; `current` is the path of the table
that is open. -/
def absolute : (current : List String) → List Statement → List Statement
  | _, [] => []
  | _, .table path key :: rest => .table path key :: absolute (path ++ [key]) rest
  | _, .element path key :: rest => .element path key :: absolute (path ++ [key]) rest
  | current, .pair path key value :: rest =>
    .pair (current ++ path) key value :: absolute current rest

theorem mem_absolute {statement : Statement}
    (hheader : ∀ path key value, statement ≠ .pair path key value) :
    ∀ {statements : List Statement} {current : List String}, statement ∈ statements →
      statement ∈ absolute current statements
  | .table path key :: rest, _, hm | .element path key :: rest, _, hm => by
    rcases List.mem_cons.1 hm with rfl | hm
    · exact List.mem_cons_self
    · exact List.mem_cons_of_mem _ (mem_absolute hheader hm)
  | .pair path key value :: rest, _, hm => by
    rcases List.mem_cons.1 hm with rfl | hm
    · exact absurd rfl (hheader path key value)
    · exact List.mem_cons_of_mem _ (mem_absolute hheader hm)

/-- One statement after the other takes a step. -/
inductive Built : List Statement → Node → Node → Prop
  | nil (node : Node) : Built [] node node
  | cons {statement : Statement} {rest : List Statement} {node next last : Node}
      (step : Node.Step statement.Puts statement.target (some node) next)
      (built : Built rest next last) : Built (statement :: rest) node last

theorem built_of_build? : ∀ {statements : List Statement} {current : List String}
    {nodes nodes' : Nodes}, build? nodes current statements = some nodes' →
      Built (absolute current statements) (.table .header nodes) (.table .header nodes')
  | [], _, _, _, h => by
    obtain rfl := Option.some.inj h
    exact .nil _
  | .table path key :: rest, _, nodes, _, h => by
    rw [build?] at h
    cases hopen : nodes.openTable? path key with
    | none => simp [hopen] at h
    | some next =>
      simp only [hopen] at h
      exact .cons (Nodes.step_openTable? hopen) (built_of_build? h)
  | .element path key :: rest, _, nodes, _, h => by
    rw [build?] at h
    cases hopen : nodes.openElement? path key with
    | none => simp [hopen] at h
    | some next =>
      simp only [hopen] at h
      exact .cons (Nodes.step_openElement? hopen) (built_of_build? h)
  | .pair path key value :: rest, current, nodes, _, h => by
    rw [build?] at h
    cases hset : nodes.modify false (fun _ inner => inner.set? path key (.value value)) current
        .header with
    | none => simp [hset] at h
    | some next =>
      simp only [hset] at h
      have hstep := Nodes.step_modify (p := path ++ [key]) (by simp)
        (fun hinner _ _ => Nodes.step_set? (current ++ path) hinner) hset .header .header
      rw [← List.append_assoc] at hstep
      exact .cons hstep (built_of_build? h)

namespace Built

variable {statements : List Statement} {node last m : Node} {p q : List String}

theorem grows (h : Built statements node last) : Node.Grows (some node) last := by
  induction h with
  | nil node => exact fun q m hm => ⟨m, hm, .refl m⟩
  | cons step _ ih =>
    intro q m hm
    obtain ⟨m', hm', hkeeps⟩ := step.grows (fun _ _ => Statement.Puts.grows) q m hm
    obtain ⟨m'', hm'', hkeeps'⟩ := ih q m' hm'
    exact ⟨m'', hm'', hkeeps.trans hkeeps'⟩

theorem distinct (h : Built statements node last) (hnode : node.Distinct) : last.Distinct := by
  induction h with
  | nil => exact hnode
  | cons step _ ih =>
    refine ih (step.distinct (fun _ _ => Statement.Puts.distinct) fun m hm => ?_)
    obtain rfl := Option.some.inj hm
    exact hnode

/-- Each statement of a run takes its step between two others. -/
theorem exists_step (h : Built statements node last) {statement : Statement}
    (hm : statement ∈ statements) : ∃ before after,
      Node.Step statement.Puts statement.target (some before) after ∧
      Node.Grows (some after) last := by
  induction h with
  | nil => nomatch hm
  | cons step built ih =>
    rcases List.mem_cons.1 hm with rfl | hm
    · exact ⟨_, _, step, built.grows⟩
    · exact ih hm

/-- What stands somewhere at the end stood there at the start, or one of the statements made it. -/
theorem origin (h : Built statements node last) (hm : last.get? q = some m) :
    (∃ m', node.get? q = some m' ∧ m'.Keeps m) ∨
      ∃ statement ∈ statements, ∃ m', statement.News q m' ∧ m'.Keeps m := by
  induction h with
  | nil => exact .inl ⟨m, hm, .refl m⟩
  | @cons statement rest node next last step built ih =>
    rcases ih hm with ⟨m', hm', hkeeps⟩ | ⟨s, hs, hnews⟩
    · cases hold : node.get? q with
      | none =>
        exact .inr ⟨statement, List.mem_cons_self, m', Statement.news_of_step step hm' hold, hkeeps⟩
      | some m₀ =>
        obtain ⟨m₁, hm₁, hkeeps₁⟩ := step.grows (fun _ _ => Statement.Puts.grows) q m₀ hold
        obtain rfl := Option.some.inj (hm'.symm.trans hm₁)
        exact .inl ⟨m₀, rfl, hkeeps₁.trans hkeeps⟩
    · exact .inr ⟨s, List.mem_cons_of_mem _ hs, hnews⟩

section empty

variable (h : Built statements (.table .header []) last)

include h

theorem arrayOn_iff : last.ArrayOn p ↔ ∃ statement ∈ statements, statement.Arrays p := by
  constructor
  · rintro ⟨q, hq, elements, harray⟩
    rcases h.origin harray with ⟨m', hm', hkeeps⟩ | ⟨s, hs, m', hnews, hkeeps⟩
    · cases hkeeps
      cases q <;> nomatch hm'
    · cases hkeeps
      cases hnews with
      | first htarget => exact ⟨_, hs, .element (htarget ▸ hq)⟩
  · rintro ⟨s, hs, harrays⟩
    obtain ⟨before, after, step, hgrows⟩ := h.exists_step hs
    exact (harrays.arrayOn step).grows hgrows

/-- **The tables of a document.**  A table stands at a path exactly when a statement makes it and no
statement has an array of tables there or further up. -/
theorem hasTable_iff (hp : p ≠ []) : (∃ m, last.get? p = some m ∧ m.IsTable) ↔
    (∃ statement ∈ statements, statement.Makes p) ∧
      ∀ statement ∈ statements, ¬ statement.Arrays p := by
  constructor
  · rintro ⟨m, hm, htable⟩
    refine ⟨?_, fun s hs harrays =>
      ((arrayOn_iff h).2 ⟨s, hs, harrays⟩).not_isTable hm htable⟩
    rcases h.origin hm with ⟨m', hm', -⟩ | ⟨s, hs, m', hnews, hkeeps⟩
    · cases p with
      | nil => exact absurd rfl hp
      | cons key p => nomatch hm'
    · exact ⟨s, hs, hnews.makes (hkeeps.isTable_iff.1 htable)⟩
  · rintro ⟨⟨s, hs, hmakes⟩, hnone⟩
    obtain ⟨before, after, step, hgrows⟩ := h.exists_step hs
    rcases hmakes.reaches step with harray | ⟨m, hm, htable⟩
    · obtain ⟨s', hs', harrays⟩ := (arrayOn_iff h).1 (harray.grows hgrows)
      exact absurd harrays (hnone s' hs')
    · obtain ⟨m', hm', hkeeps⟩ := hgrows p m hm
      exact ⟨m', hm', hkeeps.isTable_iff.2 htable⟩

end empty

end Built

/-- **The tables of a document that is read.** -/
theorem get?_toEntries_iff {statements : List Statement} {nodes : Nodes} (hp : p ≠ [])
    (h : build? [] [] statements = some nodes) :
    (∃ entries, get? p (.table (toEntries nodes)) = some (.table entries)) ↔
      (∃ statement ∈ absolute [] statements, statement.Makes p) ∧
        ∀ statement ∈ absolute [] statements, ¬ statement.Arrays p := by
  have hbuilt := built_of_build? h
  have hdistinct := hbuilt.distinct fun q _ _ hq => by
    cases q with
    | nil => cases hq; exact List.nodup_nil
    | cons key q => nomatch hq
  have hget := Node.get?_toToml (q := p) hdistinct
  rw [Node.toToml] at hget
  rw [← hbuilt.hasTable_iff hp, hget]
  constructor
  · rintro ⟨entries, hentries⟩
    obtain ⟨m, hm, htable⟩ := Option.map_eq_some_iff.1 hentries
    exact ⟨m, hm, entries, htable⟩
  · rintro ⟨m, hm, entries, htable⟩
    exact ⟨entries, by rw [hm, Option.map_some, htable]⟩

end CodeTidy.Toml
