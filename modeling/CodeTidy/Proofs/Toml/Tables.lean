import CodeTidy.Lookup
import CodeTidy.Toml.Parser

/-!
# The tables that a document makes

A statement descends along its path and puts something new at the end of it (`Node.Step`).  A step
never changes what kind of thing stands somewhere (`Step.grows`), it gets to the end of its path
unless there is an array of tables on the way (`Step.reaches`, `Step.above`), and whatever is new
afterwards is on its way or at its end (`Step.origin`).  No key stands twice in a table
(`Step.distinct`), so the finished document has the same at every path (`Node.get?_toToml`).
-/

namespace CodeTidy.Toml

/-! ### Paths of keys -/

def get? : List String → Toml → Option Toml
  | [], value => some value
  | key :: path, .table entries => (entries.lookup key).bind fun value => value.get? path
  | _ :: _, _ => none

theorem get?_append : ∀ {q : List String} {value : Toml} (r : List String),
    value.get? (q ++ r) = (value.get? q).bind (·.get? r)
  | [], _, _ => rfl
  | key :: q, .table entries, r => by
    rw [List.cons_append, get?, get?]
    cases entries.lookup key with
    | none => rfl
    | some value => exact get?_append r
  | _ :: _, .string _, _ => rfl
  | _ :: _, .integer _, _ => rfl
  | _ :: _, .float _, _ => rfl
  | _ :: _, .boolean _, _ => rfl
  | _ :: _, .dateTime _, _ => rfl
  | _ :: _, .array _, _ => rfl

namespace Node

/-- What stands at a path of keys.  No path leads into an array of tables. -/
def get? : List String → Node → Option Node
  | [], node => some node
  | key :: path, .table _ entries => (entries.lookup key).bind fun node => node.get? path
  | key :: path, .value v => (v.get? (key :: path)).map .value
  | _ :: _, .tables _ => none

variable {path q : List String} {node : Node}

@[simp] theorem get?_table (origin : Origin) (entries : Nodes) (key : String)
    (path : List String) :
    (table origin entries).get? (key :: path) = (entries.lookup key).bind (·.get? path) := rfl

@[simp] theorem get?_value (v : Toml) (path : List String) :
    (value v).get? path = (v.get? path).map .value := by
  cases path <;> rfl

theorem get?_append : ∀ {q : List String} {node : Node} (r : List String),
    node.get? (q ++ r) = (node.get? q).bind (·.get? r)
  | [], _, _ => rfl
  | key :: q, .table _ entries, r => by
    rw [List.cons_append, get?_table, get?_table]
    cases entries.lookup key with
    | none => rfl
    | some node => exact get?_append r
  | key :: q, .tables _, _ => rfl
  | key :: q, .value v, r => by
    rw [get?_value, get?_value, Toml.get?_append]
    cases v.get? (key :: q) <;> simp

/-- An array of tables stands somewhere on the path. -/
def ArrayOn (node : Node) (path : List String) : Prop :=
  ∃ q, q <+: path ∧ ∃ elements, node.get? q = some (.tables elements)

theorem ArrayOn.mono (h : ArrayOn node q) (hq : q <+: path) : ArrayOn node path :=
  have ⟨r, hr, harray⟩ := h
  ⟨r, hr.trans hq, harray⟩

end Node

/-! ### Putting a node under a key -/

namespace Nodes

/-- Puts a node under a key, in the place of what stands there. -/
def put (key : String) (node : Node) (nodes : Nodes) : Nodes :=
  if (nodes.lookup key).isSome then replace key node nodes else nodes ++ [(key, node)]

theorem replace_eq (key : String) (node : Node) (nodes : Nodes) : replace key node nodes
    = nodes.map fun e => (e.1, if e.1 = key then node else e.2) := by
  refine List.map_congr_left fun e _ => ?_
  by_cases h : e.1 = key <;> simp [h]

theorem lookup_put (key : String) (node : Node) (nodes : Nodes) (k : String) :
    (nodes.put key node).lookup k = if k = key then some node else nodes.lookup k := by
  unfold put
  split
  · rename_i hkey
    rw [replace_eq, lookup_map_snd (fun k n => if k = key then node else n)]
    split
    · rename_i heq
      obtain ⟨n, hn⟩ := Option.isSome_iff_exists.1 hkey
      rw [heq, hn]
      rfl
    · simp
  · rename_i hkey
    rw [List.lookup_append]
    split
    · rename_i heq
      rw [heq, Option.not_isSome_iff_eq_none.1 hkey]
      simp
    · rename_i hne
      simp [List.lookup_cons, beq_false_of_ne hne]

theorem nodup_put (key : String) (node : Node) {nodes : Nodes} (h : (nodes.map Prod.fst).Nodup) :
    ((nodes.put key node).map Prod.fst).Nodup := by
  unfold put
  split
  · rwa [replace_eq, List.map_map]
  · rename_i hkey
    have hnot := List.lookup_eq_none_iff.1 (Option.not_isSome_iff_eq_none.1 hkey)
    rw [List.map_append, List.nodup_append]
    refine ⟨h, by simp, fun a ha b hb => ?_⟩
    obtain ⟨e, he, rfl⟩ := List.mem_map.1 ha
    obtain rfl := List.mem_singleton.1 hb
    exact fun heq => absurd heq.symm (by simpa using hnot e he)

end Nodes

namespace Node

variable {final : Option Node → Node → Prop} {path q : List String} {old : Option Node}
  {new m : Node}

theorem get?_put (origin : Origin) (key : String) (node : Node) (entries : Nodes)
    (k : String) (q : List String) : (table origin (entries.put key node)).get? (k :: q)
      = if k = key then node.get? q else (entries.lookup k).bind (·.get? q) := by
  rw [get?_table, Nodes.lookup_put]
  split <;> rfl

theorem get?_put_self (origin : Origin) (key : String) (node : Node) (entries : Nodes)
    (q : List String) : (table origin (entries.put key node)).get? (key :: q) = node.get? q :=
  (get?_put origin key node entries key q).trans (if_pos rfl)

theorem ArrayOn.put {node : Node} (h : ArrayOn node path) (origin : Origin) (key : String)
    (entries : Nodes) : ArrayOn (table origin (entries.put key node)) (key :: path) := by
  obtain ⟨q, hq, elements, hget⟩ := h
  exact ⟨key :: q, List.cons_prefix_cons.2 ⟨rfl, hq⟩, elements,
    (get?_put_self origin key node entries q).trans hget⟩

/-! ### One step -/

/-- One step along a path: what was there and what is there then.  At the end, `final` says what
happens; a table that is missing is made, and in an array of tables nothing is followed. -/
inductive Step (final : Option Node → Node → Prop) : List String → Option Node → Node → Prop
  | last {old : Option Node} {new : Node} (h : final old new) : Step final [] old new
  | new {key : String} {path : List String} {node : Node} {origin : Origin}
      (h : Step final path none node) :
      Step final (key :: path) none (.table origin (Nodes.put key node []))
  | table {key : String} {path : List String} {node : Node} {origin origin' : Origin}
      {entries : Nodes} (h : Step final path (entries.lookup key) node) :
      Step final (key :: path) (some (.table origin entries))
        (.table origin' (entries.put key node))
  | tables {key : String} {path : List String} {elements elements' : List Nodes} :
      Step final (key :: path) (some (.tables elements)) (.tables elements')

/-- A node stays what it is: a value, a table or an array of tables. -/
inductive Keeps : Node → Node → Prop
  | value (v : Toml) : Keeps (.value v) (.value v)
  | table {origin origin' : Origin} {entries entries' : Nodes} :
      Keeps (.table origin entries) (.table origin' entries')
  | tables {elements elements' : List Nodes} : Keeps (.tables elements) (.tables elements')

theorem Keeps.refl : ∀ m : Node, Keeps m m
  | .value v => .value v
  | .table .. => .table
  | .tables _ => .tables

theorem Keeps.trans {m₁ m₂ m₃ : Node} (h : Keeps m₁ m₂) (h' : Keeps m₂ m₃) : Keeps m₁ m₃ := by
  cases h <;> cases h' <;> constructor

def IsTable (node : Node) : Prop :=
  ∃ entries, node.toToml = .table entries

theorem isTable_table (origin : Origin) (entries : Nodes) : IsTable (.table origin entries) :=
  ⟨toEntries entries, by rw [toToml]⟩

theorem not_isTable_tables (elements : List Nodes) : ¬ IsTable (.tables elements) := by
  rintro ⟨entries, h⟩
  rw [toToml] at h
  nomatch h

theorem Keeps.isTable_iff {m m' : Node} (h : Keeps m m') : m'.IsTable ↔ m.IsTable := by
  cases h with
  | value => rfl
  | table => exact iff_of_true (isTable_table _ _) (isTable_table _ _)
  | tables => exact iff_of_false (not_isTable_tables _) (not_isTable_tables _)

/-- Whatever stood somewhere stays what it is. -/
def Grows (old : Option Node) (new : Node) : Prop :=
  ∀ q m, old.bind (·.get? q) = some m → ∃ m', new.get? q = some m' ∧ Keeps m m'

theorem Step.grows (hfinal : ∀ old new, final old new → Grows old new)
    (h : Step final path old new) : Grows old new := by
  induction h with
  | last h => exact hfinal _ _ h
  | new => exact fun q m hm => nomatch hm
  | @table key path node origin origin' entries _ ih =>
    intro q m hm
    cases q with
    | nil =>
      obtain rfl := Option.some.inj hm
      exact ⟨_, rfl, .table⟩
    | cons k q =>
      rw [get?_put]
      rw [Option.bind_some, get?_table] at hm
      split
      · rename_i hk
        exact ih q m (hk ▸ hm)
      · exact ⟨m, hm, .refl m⟩
  | tables =>
    intro q m hm
    cases q with
    | nil =>
      obtain rfl := Option.some.inj hm
      exact ⟨_, rfl, .tables⟩
    | cons k q => nomatch hm

theorem ArrayOn.grows (h : ArrayOn m path) (hgrows : Grows (some m) new) : ArrayOn new path := by
  obtain ⟨q, hq, elements, harray⟩ := h
  obtain ⟨m', hm', hkeeps⟩ := hgrows q _ harray
  cases hkeeps
  exact ⟨q, hq, _, hm'⟩

theorem ArrayOn.not_isTable (h : ArrayOn new path) (hm : new.get? path = some m) : ¬ m.IsTable := by
  obtain ⟨q, ⟨r, rfl⟩, elements, harray⟩ := h
  rw [get?_append, harray] at hm
  cases r with
  | nil =>
    obtain rfl := Option.some.inj hm
    exact not_isTable_tables elements
  | cons key r => nomatch hm

/-- What is asked for is done at the end of the path, unless there is an array of tables. -/
theorem Step.reaches (h : Step final path old new) :
    ArrayOn new path ∨ ∃ old' m, new.get? path = some m ∧ final old' m := by
  induction h with
  | last h => exact .inr ⟨_, _, rfl, h⟩
  | new _ ih | table _ ih =>
    rcases ih with harray | ⟨old', m, hm, h⟩
    · exact .inl (harray.put _ _ _)
    · exact .inr ⟨old', m, (get?_put_self _ _ _ _ _).trans hm, h⟩
  | tables => exact .inl ⟨[], List.nil_prefix, _, rfl⟩

/-- There are tables above the end of the path, unless there is an array of tables. -/
theorem Step.above (h : Step final path old new) (hq : q <+: path) (hne : q ≠ path) :
    ArrayOn new q ∨ ∃ origin entries, new.get? q = some (.table origin entries) := by
  induction h generalizing q with
  | last => exact absurd (List.prefix_nil.1 hq) hne
  | @new key _ _ _ _ ih | @table key _ _ _ _ _ _ ih =>
    cases q with
    | nil => exact .inr ⟨_, _, rfl⟩
    | cons k q =>
      obtain ⟨rfl, hbegin⟩ := List.cons_prefix_cons.1 hq
      rcases ih hbegin fun h => hne (h ▸ rfl) with harray | ⟨origin, entries, hm⟩
      · exact .inl (harray.put _ _ _)
      · exact .inr ⟨origin, entries, (get?_put_self _ _ _ _ _).trans hm⟩
  | tables => exact .inl ⟨[], List.nil_prefix, _, rfl⟩

/-- What can be new at `q` after a step along `path`: a table above the end of the path, or part of
what is put there. -/
def Arises (final : Option Node → Node → Prop) (path q : List String) (m : Node) : Prop :=
  (q <+: path ∧ q ≠ path ∧ ∃ origin entries, m = .table origin entries) ∨
    ∃ r old node, q = path ++ r ∧ final old node ∧ node.get? r = some m ∧
      old.bind (·.get? r) = none

theorem Arises.cons (h : Arises final path q m) (key : String) :
    Arises final (key :: path) (key :: q) m := by
  rcases h with ⟨hq, hne, htable⟩ | ⟨r, old, node, rfl, hr⟩
  · exact .inl ⟨List.cons_prefix_cons.2 ⟨rfl, hq⟩, by simpa using hne, htable⟩
  · exact .inr ⟨r, old, node, rfl, hr⟩

theorem Step.origin (h : Step final path old new) (hnew : new.get? q = some m)
    (hold : old.bind (·.get? q) = none) : Arises final path q m := by
  induction h generalizing q with
  | last h => exact .inr ⟨q, _, _, rfl, h, hnew, hold⟩
  | @new key path node _ _ ih =>
    cases q with
    | nil => exact .inl ⟨List.nil_prefix, by simp, _, _, (Option.some.inj hnew).symm⟩
    | cons k q =>
      rw [get?_put] at hnew
      split at hnew
      · rename_i hk
        exact hk ▸ (ih hnew rfl).cons k
      · nomatch hnew
  | @table key path node _ _ entries _ ih =>
    cases q with
    | nil => nomatch hold
    | cons k q =>
      rw [get?_put] at hnew
      rw [Option.bind_some, get?_table] at hold
      split at hnew
      · rename_i hk
        subst hk
        exact (ih hnew hold).cons k
      · exact absurd (hnew.symm.trans hold) (Option.some_ne_none _)
  | tables =>
    cases q with
    | nil => nomatch hold
    | cons k q => nomatch hnew

/-! ### Keys that stand once -/

/-- In every table that a path leads to, no key stands twice. -/
def Distinct (node : Node) : Prop :=
  ∀ q origin entries, node.get? q = some (.table origin entries) → (entries.map Prod.fst).Nodup

theorem Distinct.lookup {origin : Origin} {entries : Nodes} {key : String} {node : Node}
    (h : Distinct (.table origin entries)) (hnode : entries.lookup key = some node) :
    Distinct node := by
  intro q _ _ hq
  exact h (key :: q) _ _ (by rw [get?_table, hnode]; exact hq)

theorem Step.distinct (hfinal : ∀ old new, final old new → (∀ m ∈ old, Distinct m) → Distinct new)
    (h : Step final path old new) (hold : ∀ m ∈ old, Distinct m) : Distinct new := by
  induction h with
  | last h => exact hfinal _ _ h hold
  | new _ ih =>
    intro q origin entries hq
    cases q with
    | nil =>
      cases hq
      exact Nodes.nodup_put _ _ (List.nodup_nil)
    | cons k q =>
      rw [get?_put] at hq
      split at hq
      · exact ih (by simp) q origin entries hq
      · nomatch hq
  | @table key path node origin origin' entries _ ih =>
    have hentries := hold _ rfl
    intro q origin₁ entries₁ hq
    cases q with
    | nil =>
      cases hq
      exact Nodes.nodup_put key node (hentries [] _ _ rfl)
    | cons k q =>
      rw [get?_put] at hq
      split at hq
      · exact ih (fun m hm => hentries.lookup hm) q origin₁ entries₁ hq
      · exact hentries (k :: q) origin₁ entries₁ hq
  | tables =>
    intro q origin entries hq
    cases q <;> cases hq

theorem lookup_insert {key : String} {value : Toml} (k : String) : ∀ {entries : Entries},
    entries.lookup key = none →
      (entries.insert key value).lookup k = if k = key then some value else entries.lookup k
  | [], _ => by
    by_cases hk : k = key <;> simp [Entries.insert, List.lookup_cons, hk, beq_false_of_ne]
  | (k', v) :: entries, h => by
    have hk' : (key == k') = false := by
      cases hkey : key == k' with
      | false => rfl
      | true => rw [List.lookup_cons, hkey] at h; nomatch h
    rw [List.lookup_cons, hk'] at h
    rw [Entries.insert]
    split
    · by_cases hk : k = key <;> simp [List.lookup_cons, hk, beq_false_of_ne]
    · rw [List.lookup_cons, lookup_insert k h, List.lookup_cons]
      by_cases hk : k = key
      · simp [hk, hk']
      · simp [hk]

theorem lookup_toEntries (key : String) : ∀ {entries : Nodes}, (entries.map Prod.fst).Nodup →
    (toEntries entries).lookup key = (entries.lookup key).map toToml
  | [], _ => by rw [toEntries]; rfl
  | (k, node) :: entries, h => by
    obtain ⟨hnot, hn⟩ := List.nodup_cons.1 h
    have hnone : (toEntries entries).lookup k = none := by
      rw [lookup_toEntries k hn, lookup_eq_none_of_notMem hnot]
      rfl
    rw [toEntries, lookup_insert key hnone, lookup_toEntries key hn, List.lookup_cons]
    by_cases hk : key = k
    · simp [hk]
    · simp [hk, beq_false_of_ne hk]

/-- What stands at a path does not change when the document is finished. -/
theorem get?_toToml : ∀ {q : List String} {node : Node}, Distinct node →
    node.toToml.get? q = (node.get? q).map toToml
  | [], _, _ => rfl
  | key :: q, .table origin entries, h => by
    rw [toToml, Toml.get?, lookup_toEntries key (h [] _ _ rfl), get?_table]
    cases hnode : entries.lookup key with
    | none => rfl
    | some node => exact get?_toToml (h.lookup hnode)
  | key :: q, .value v, _ => by
    rw [toToml, get?_value, Option.map_map]
    have hid : toToml ∘ Node.value = id := funext fun v => by rw [Function.comp, toToml]; rfl
    rw [hid, Option.map_id_fun, id]
  | key :: q, .tables _, _ => by
    rw [toToml]
    rfl

end Node

end CodeTidy.Toml
