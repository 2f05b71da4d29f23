import CodeTidy.Host.Path
import CodeTidy.Lookup

/-!
# Listings

A listing says what stands at which location below the root.  A proper one (`Listing.Proper`) is as
a file system has it: each location stands once, its names are names, and the directory in which it
is stands too.  Replacing files, removing what is below a location and adding to a directory keep a
listing proper.
-/

namespace CodeTidy

/-! ### Locations -/

def maxName : Nat := 255

/-- A name that can stand between slashes and is no dot or pair of dots. -/
structure IsName (name : Bytes) : Prop where
  ne_nil : name ≠ []
  notMem : Path.slash ∉ name
  ne_dot : name ≠ [Path.dot]
  ne_dots : name ≠ [Path.dot, Path.dot]

instance (name : Bytes) : Decidable (IsName name) :=
  decidable_of_iff
    (name ≠ [] ∧ Path.slash ∉ name ∧ name ≠ [Path.dot] ∧ name ≠ [Path.dot, Path.dot])
    ⟨fun ⟨ne_nil, notMem, ne_dot, ne_dots⟩ => ⟨ne_nil, notMem, ne_dot, ne_dots⟩,
      fun h => ⟨h.ne_nil, h.notMem, h.ne_dot, h.ne_dots⟩⟩

/-- A name that an entry of a directory can have. -/
structure Storable (name : Bytes) : Prop extends IsName name where
  noNul : 0 ∉ name
  short : name.length ≤ maxName

instance (name : Bytes) : Decidable (Storable name) :=
  decidable_of_iff (IsName name ∧ 0 ∉ name ∧ name.length ≤ maxName)
    ⟨fun ⟨isName, noNul, short⟩ => ⟨isName, noNul, short⟩, fun h => ⟨h.toIsName, h.noNul, h.short⟩⟩

/-- The names on the way from the root. -/
abbrev Location := List Bytes

def Location.toPath (l : Location) : Path :=
  ⟨if l.isEmpty then [Path.slash] else l.flatMap fun name => Path.slash :: name⟩

/-! ### Entries -/

/-- What stands at a location. -/
inductive Entry where
  | file (content : Bytes) (executable : Bool)
  | dir
  | link (target : Path)
  deriving DecidableEq, Repr

/-- The entry with other bytes, if it is a file. -/
def Entry.setContent (content : Bytes) : Entry → Entry
  | .file _ executable => .file content executable
  | e => e

/-- What stands at which location below the root. -/
abbrev Listing := List (Location × Entry)

namespace Listing

variable {es : Listing} {l k : Location} {name : Bytes} {e : Entry}

/-- What stands at a location; the root is a directory. -/
def get? (es : Listing) (l : Location) : Option Entry :=
  if l.isEmpty then some .dir else es.lookup l

theorem get?_of_ne_nil (h : l ≠ []) : es.get? l = es.lookup l :=
  if_neg (by simpa using h)

theorem mem_of_get? (hl : l ≠ []) (h : es.get? l = some e) : (l, e) ∈ es := by
  rw [get?_of_ne_nil hl] at h
  obtain ⟨before, after, hes, -⟩ := List.lookup_eq_some_iff.1 h
  rw [hes]
  exact List.mem_append_right _ List.mem_cons_self

/-- Replaced entries stand where they stood; the root stays a directory. -/
theorem get?_replace (es : Listing) (f : Location → Entry → Entry) (hdir : ∀ k, f k .dir = .dir)
    (k : Location) : get? (es.map fun e => (e.1, f e.1 e.2)) k = (es.get? k).map (f k) := by
  unfold get?
  split
  · rw [Option.map_some, hdir]
  · exact lookup_map_snd f k es

theorem get?_filter (es : Listing) (p : Location → Bool) (hp : p k = true) :
    get? (es.filter fun e => p e.1) k = es.get? k := by
  unfold get?
  split
  · rfl
  · exact lookup_filter_fst p hp es

theorem get?_append (h : es.get? k = some e) (es' : Listing) : get? (es ++ es') k = some e := by
  unfold get? at h ⊢
  split
  · rename_i hnil
    rwa [if_pos hnil] at h
  · rename_i hne
    rw [if_neg hne] at h
    rw [List.lookup_append, h]
    rfl

/-- A listing as a file system has it. -/
structure Proper (es : Listing) : Prop where
  nodup : (es.map Prod.fst).Nodup
  ne_nil : ∀ k ∈ es.map Prod.fst, k ≠ []
  names : ∀ k ∈ es.map Prod.fst, ∀ name ∈ k, Storable name
  parent : ∀ k ∈ es.map Prod.fst, es.get? k.dropLast = some .dir

instance (es : Listing) : Decidable es.Proper :=
  decidable_of_iff
    ((es.map Prod.fst).Nodup ∧ (∀ k ∈ es.map Prod.fst, k ≠ [])
      ∧ (∀ k ∈ es.map Prod.fst, ∀ name ∈ k, Storable name)
      ∧ ∀ k ∈ es.map Prod.fst, es.get? k.dropLast = some .dir)
    ⟨fun ⟨nodup, ne_nil, names, parent⟩ => ⟨nodup, ne_nil, names, parent⟩,
      fun h => ⟨h.nodup, h.ne_nil, h.names, h.parent⟩⟩

namespace Proper

theorem single (h : Storable name) (e : Entry) : Proper [([name], e)] where
  nodup := by simp
  ne_nil := by simp
  names := by simpa using h
  parent := by simp [Listing.get?]

theorem names_of_get? (h : es.Proper) (hk : es.get? k = some e) :
    ∀ name ∈ k, Storable name := by
  intro name hn
  exact h.names k (List.mem_map.2 ⟨_, mem_of_get? (List.ne_nil_of_mem hn) hk, rfl⟩) name hn

/-- What stands above an entry is a directory. -/
theorem above (h : es.Proper) {k : Location} {n : Nat} (hk : k ∈ es.map Prod.fst)
    (hn : n < k.length) : es.get? (k.take n) = some .dir := by
  have hparent := h.parent k hk
  rw [List.dropLast_eq_take] at hparent
  rcases Nat.lt_or_eq_of_le (Nat.le_sub_one_of_lt hn) with hlt | rfl
  · have hne : k.take (k.length - 1) ≠ [] := by
      intro e
      have hlength := congrArg List.length e
      rw [List.length_take, List.length_nil] at hlength
      omega
    have hk' : k.take (k.length - 1) ∈ es.map Prod.fst :=
      List.mem_map.2 ⟨_, mem_of_get? hne hparent, rfl⟩
    have habove := h.above hk' (n := n) (by rw [List.length_take]; omega)
    rwa [List.take_take, Nat.min_eq_left (by omega)] at habove
  · exact hparent
  termination_by k.length

/-! ### What keeps a listing proper -/

/-- Entries may be replaced where they stand, if directories stay. -/
theorem replace (h : es.Proper) (f : Location → Entry → Entry) (hdir : ∀ k, f k .dir = .dir) :
    Proper (es.map fun e => (e.1, f e.1 e.2)) := by
  have hkeys : (es.map fun e => (e.1, f e.1 e.2)).map Prod.fst = es.map Prod.fst := by
    rw [List.map_map]
    rfl
  refine ⟨hkeys ▸ h.nodup, hkeys ▸ h.ne_nil, hkeys ▸ h.names, fun k hk => ?_⟩
  rw [get?_replace es f hdir, h.parent k (hkeys ▸ hk), Option.map_some, hdir]

/-- What is at or below a location may be removed. -/
theorem remove (h : es.Proper) (l : Location) :
    Proper (es.filter fun e => !l.isPrefixOf e.1) := by
  have hkeys : ((es.filter fun e => !l.isPrefixOf e.1).map Prod.fst).Sublist (es.map Prod.fst) :=
    List.filter_sublist.map _
  refine ⟨h.nodup.sublist hkeys, fun k hk => h.ne_nil k (hkeys.subset hk),
    fun k hk => h.names k (hkeys.subset hk), fun k hk => ?_⟩
  have hparent := h.parent k (hkeys.subset hk)
  obtain ⟨e, he, rfl⟩ := List.mem_map.1 hk
  have hkept : l.isPrefixOf e.1 = false := by simpa using (List.mem_filter.1 he).2
  -- what is above an entry that is kept is kept
  have habove : l.isPrefixOf e.1.dropLast = false := by
    rw [← Bool.not_eq_true, List.isPrefixOf_iff_prefix] at hkept ⊢
    exact fun hp => hkept (hp.trans (List.dropLast_prefix e.1))
  rw [get?_filter es (fun k => !l.isPrefixOf k) (by simp [habove]), hparent]

/-- An entry may be added to a directory that has none of its name. -/
theorem add (h : es.Proper) (hdir : es.get? l = some .dir) (hname : Storable name)
    (hfree : es.get? (l ++ [name]) = none) (e : Entry) :
    Proper (es ++ [(l ++ [name], e)]) := by
  have hkeys : (es ++ [(l ++ [name], e)]).map Prod.fst = es.map Prod.fst ++ [l ++ [name]] := by simp
  have hnew : l ++ [name] ∉ es.map Prod.fst := by
    rw [get?_of_ne_nil (by simp)] at hfree
    exact notMem_of_lookup_eq_none hfree
  have hmem : ∀ k ∈ (es ++ [(l ++ [name], e)]).map Prod.fst,
      k ∈ es.map Prod.fst ∨ k = l ++ [name] := by
    intro k hk
    rw [hkeys] at hk
    exact (List.mem_append.1 hk).imp_right List.mem_singleton.1
  refine ⟨?_, fun k hk => ?_, fun k hk => ?_, fun k hk => ?_⟩
  · rw [hkeys]
    refine List.nodup_append.2 ⟨h.nodup, by simp, fun k hk k' hk' => ?_⟩
    rw [List.mem_singleton.1 hk']
    exact fun he => hnew (he ▸ hk)
  · rcases hmem k hk with hk | rfl
    · exact h.ne_nil k hk
    · simp
  · rcases hmem k hk with hk | rfl
    · exact h.names k hk
    · intro n hn
      rcases List.mem_append.1 hn with hn | hn
      · exact h.names_of_get? hdir n hn
      · rwa [List.mem_singleton.1 hn]
  · rcases hmem k hk with hk | rfl
    · exact get?_append (h.parent k hk) _
    · rw [List.dropLast_concat]
      exact get?_append hdir _

end Proper

end Listing

end CodeTidy
