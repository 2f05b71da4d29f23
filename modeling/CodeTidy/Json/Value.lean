import CodeTidy.Decimal.Binary64

/-!
# JSON values

Objects keep their members in the order in which they were written, each key once.
`Json.Members` is an association list with the operations that preserve both: `insert` replaces
a value where its key stands or appends the member, and `erase` keeps the order of the rest.
-/

namespace CodeTidy

namespace Json

/-- A number: an integer where the text was one, otherwise a signed binary64. -/
inductive Number where
  | int (value : Int)
  | float (negative : Bool) (magnitude : Binary64)
  deriving DecidableEq, Repr

end Json

inductive Json where
  | null
  | bool (value : Bool)
  | number (value : Json.Number)
  | string (value : String)
  | array (items : List Json)
  | object (members : List (String × Json))
  deriving Repr, Inhabited

namespace Json

/-! ### Equality -/

mutual

/-- Whether two values are the same. -/
def same : Json → Json → Bool
  | .null, .null => true
  | .bool a, .bool b => a == b
  | .number a, .number b => a == b
  | .string a, .string b => a == b
  | .array as, .array bs => sameItems as bs
  | .object as, .object bs => sameMembers as bs
  | _, _ => false

def sameItems : List Json → List Json → Bool
  | [], [] => true
  | a :: as, b :: bs => same a b && sameItems as bs
  | _, _ => false

def sameMembers : List (String × Json) → List (String × Json) → Bool
  | [], [] => true
  | (k, a) :: as, (l, b) :: bs => k == l && same a b && sameMembers as bs
  | _, _ => false

end

mutual

theorem same_iff : ∀ a b : Json, a.same b = true ↔ a = b
  | .null, b => by cases b <;> simp [same]
  | .bool a, b => by cases b <;> simp [same]
  | .number a, b => by cases b <;> simp [same]
  | .string a, b => by cases b <;> simp [same]
  | .array as, b => by cases b <;> simp [same, sameItems_iff as]
  | .object as, b => by cases b <;> simp [same, sameMembers_iff as]

theorem sameItems_iff : ∀ as bs : List Json, sameItems as bs = true ↔ as = bs
  | [], bs => by cases bs <;> simp [sameItems]
  | a :: as, bs => by cases bs <;> simp [sameItems, same_iff a, sameItems_iff as]

theorem sameMembers_iff : ∀ as bs : List (String × Json), sameMembers as bs = true ↔ as = bs
  | [], bs => by cases bs <;> simp [sameMembers]
  | (k, a) :: as, bs => by
    rcases bs with _ | ⟨⟨l, b⟩, bs⟩ <;> simp [sameMembers, same_iff a, sameMembers_iff as]

end

instance : DecidableEq Json := fun a b =>
  decidable_of_iff _ (same_iff a b)

/-! ### Parts -/

/-- The members of an object, in order. -/
abbrev Members := List (String × Json)

def nat (n : Nat) : Json :=
  .number (.int n)

def isNull : Json → Bool
  | .null => true
  | _ => false

def string? : Json → Option String
  | .string s => some s
  | _ => none

def items? : Json → Option (List Json)
  | .array items => some items
  | _ => none

def members? : Json → Option Members
  | .object members => some members
  | _ => none

namespace Members

def get? (ms : Members) (key : String) : Option Json :=
  ms.lookup key

/-- Sets the value of a key, where the key stands or else at the end. -/
def insert (key : String) (value : Json) : Members → Members
  | [] => [(key, value)]
  | (k, v) :: ms => if k = key then (k, value) :: ms else (k, v) :: insert key value ms

def erase (key : String) : Members → Members
  | [] => []
  | (k, v) :: ms => if k = key then ms else (k, v) :: erase key ms

def eraseAll (ms : Members) (keys : List String) : Members :=
  keys.foldl (fun ms key => erase key ms) ms

/-- The members that remain when a list is inserted from the left: each key stands where it
first occurs, with the value that it has last. -/
def ofList (ms : List (String × Json)) : Members :=
  ms.foldl (fun acc m => insert m.1 m.2 acc) []

def keys (ms : Members) : List String :=
  ms.map Prod.fst

theorem get?_insert_self (key : String) (value : Json) (ms : Members) :
    (insert key value ms).get? key = some value := by
  induction ms with
  | nil => simp [insert, get?]
  | cons m ms ih =>
    obtain ⟨k, v⟩ := m
    by_cases h : k = key
    · simp [insert, get?, h]
    · have h' : (key == k) = false := by simpa using fun h'' => h h''.symm
      simpa [insert, get?, h, h', List.lookup_cons] using ih

theorem get?_insert_of_ne {key other : String} (hne : other ≠ key) (value : Json)
    (ms : Members) : (insert key value ms).get? other = ms.get? other := by
  have hb : (other == key) = false := by simpa using hne
  induction ms with
  | nil => simp [insert, get?, hb, List.lookup_cons]
  | cons m ms ih =>
    obtain ⟨k, v⟩ := m
    by_cases h : k = key
    · simp [insert, get?, h, hb, List.lookup_cons]
    · by_cases ho : (other == k) = true
      · simp [insert, get?, h, ho, List.lookup_cons]
      · simp only [Bool.not_eq_true] at ho
        simpa [insert, get?, h, ho, List.lookup_cons] using ih

/-! ### Keys and members -/

theorem mem_of_get? {key : String} {value : Json} :
    ∀ {ms : Members}, ms.get? key = some value → (key, value) ∈ ms
  | [], h => by simp [get?] at h
  | (k, v) :: ms, h => by
    rw [get?, List.lookup_cons] at h
    by_cases hk : key = k
    · obtain rfl : v = value := by simpa [hk] using h
      rw [hk]
      exact List.mem_cons_self
    · have hb : (key == k) = false := by simpa using hk
      rw [hb] at h
      exact List.mem_cons_of_mem _ (mem_of_get? h)

theorem mem_insert {m : String × Json} {key : String} {value : Json} :
    ∀ {ms : Members}, m ∈ insert key value ms → m = (key, value) ∨ m ∈ ms
  | [], h => by simpa [insert] using h
  | (k, v) :: ms, h => by
    rw [insert] at h
    split at h
    · rename_i hk
      rw [hk] at h
      exact (List.mem_cons.1 h).imp_right (List.mem_cons_of_mem _)
    · rcases List.mem_cons.1 h with rfl | h
      · exact .inr List.mem_cons_self
      · exact (mem_insert h).imp_right (List.mem_cons_of_mem _)

theorem keys_insert (key : String) (value : Json) (ms : Members) :
    (insert key value ms).keys = if key ∈ ms.keys then ms.keys else ms.keys ++ [key] := by
  induction ms with
  | nil => simp [insert, keys]
  | cons m ms ih =>
    by_cases h : m.1 = key
    · simp [insert, keys, h]
    · have h' : ¬ key = m.1 := fun e => h e.symm
      have hc : key ∈ keys (m :: ms) ↔ key ∈ keys ms := by simp [keys, h']
      rw [insert, if_neg h]
      by_cases hm : key ∈ keys ms
      · rw [if_pos hm] at ih
        rw [if_pos (hc.2 hm)]
        exact congrArg (m.1 :: ·) ih
      · rw [if_neg hm] at ih
        rw [if_neg (mt hc.1 hm)]
        exact congrArg (m.1 :: ·) ih

theorem nodup_insert (key : String) (value : Json) {ms : Members} (h : ms.keys.Nodup) :
    (insert key value ms).keys.Nodup := by
  rw [keys_insert]
  split
  · exact h
  · rename_i hk
    refine List.nodup_append.2 ⟨h, by simp, ?_⟩
    rintro a ha b hb rfl
    exact hk (List.mem_singleton.1 hb ▸ ha)

theorem insert_of_notMem {key : String} {value : Json} :
    ∀ {ms : Members}, key ∉ ms.keys → insert key value ms = ms ++ [(key, value)]
  | [], _ => rfl
  | (k, v) :: ms, h => by
    have hk : ¬ k = key := fun e => h (e ▸ List.mem_cons_self)
    have hm : key ∉ keys ms := fun e => h (List.mem_cons_of_mem _ e)
    rw [insert, if_neg hk, insert_of_notMem hm]
    rfl

theorem insert_insert (key : String) (value old : Json) :
    ∀ ms : Members, insert key value (insert key old ms) = insert key value ms
  | [] => by simp [insert]
  | (k, v) :: ms => by
    by_cases h : k = key
    · simp [insert, h]
    · simp [insert, h, insert_insert key value old ms]

/-! ### Lists of members -/

theorem mem_foldl_insert {m : String × Json} {ms acc : Members}
    (h : m ∈ ms.foldl (fun acc m => insert m.1 m.2 acc) acc) : m ∈ acc ∨ m ∈ ms := by
  induction ms generalizing acc with
  | nil => exact .inl h
  | cons a ms ih =>
    rcases ih h with h | h
    · rcases mem_insert h with rfl | h
      · exact .inr List.mem_cons_self
      · exact .inl h
    · exact .inr (List.mem_cons_of_mem _ h)

theorem mem_of_mem_ofList {m : String × Json} {ms : Members} (h : m ∈ ofList ms) : m ∈ ms := by
  rcases mem_foldl_insert h with h | h
  · simp at h
  · exact h

theorem nodup_foldl_insert {ms acc : Members} (h : acc.keys.Nodup) :
    (keys (ms.foldl (fun acc m => insert m.1 m.2 acc) acc)).Nodup := by
  induction ms generalizing acc with
  | nil => exact h
  | cons m ms ih => exact ih (nodup_insert m.1 m.2 h)

/-- A list that is inserted from the left leaves each key once. -/
theorem nodup_ofList (ms : List (String × Json)) : (keys (ofList ms)).Nodup :=
  nodup_foldl_insert List.nodup_nil

theorem foldl_insert_of_nodup {ms acc : Members} (h : (keys (acc ++ ms)).Nodup) :
    ms.foldl (fun acc m => insert m.1 m.2 acc) acc = acc ++ ms := by
  induction ms generalizing acc with
  | nil => simp
  | cons m ms ih =>
    have e : acc ++ m :: ms = (acc ++ [m]) ++ ms := by simp
    have hm : m.1 ∉ keys acc := by
      rw [keys, List.map_append, List.nodup_append] at h
      exact fun hm => h.2.2 _ hm m.1 (by simp) rfl
    rw [List.foldl_cons, insert_of_notMem hm, e]
    exact ih (e ▸ h)

/-- Members whose keys differ are left as they are. -/
theorem ofList_of_nodup {ms : Members} (h : ms.keys.Nodup) : ofList ms = ms :=
  foldl_insert_of_nodup h

/-! ### Removal -/

theorem erase_sublist (key : String) : ∀ ms : Members, (erase key ms).Sublist ms
  | [] => List.Sublist.refl _
  | (k, v) :: ms => by
    rw [erase]
    split
    · exact List.sublist_cons_self _ _
    · exact (erase_sublist key ms).cons_cons _

theorem eraseAll_sublist : ∀ (keys : List String) (ms : Members), (ms.eraseAll keys).Sublist ms
  | [], _ => List.Sublist.refl _
  | key :: keys, ms => (eraseAll_sublist keys (erase key ms)).trans (erase_sublist key ms)

theorem notMem_keys_erase {key : String} :
    ∀ {ms : Members}, ms.keys.Nodup → key ∉ keys (erase key ms)
  | [], _ => by simp [erase, keys]
  | (k, v) :: ms, h => by
    obtain ⟨hk, hms⟩ := List.nodup_cons.1 h
    rw [erase]
    split
    · rename_i e
      exact e ▸ hk
    · rename_i e
      intro hc
      rcases List.mem_cons.1 hc with hc | hc
      · exact e hc.symm
      · exact notMem_keys_erase hms hc

theorem notMem_keys_eraseAll {key : String} {keys : List String} {ms : Members}
    (h : ms.keys.Nodup) (hk : key ∈ keys) : key ∉ (ms.eraseAll keys).keys := by
  induction keys generalizing ms with
  | nil => simp at hk
  | cons k keys ih =>
    rcases List.mem_cons.1 hk with rfl | hk
    · exact fun hc => notMem_keys_erase h (((eraseAll_sublist keys _).map _).subset hc)
    · exact ih (h.sublist ((erase_sublist k ms).map _)) hk

end Members

end Json

end CodeTidy
