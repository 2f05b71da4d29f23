import CodeTidy.Proofs.Json.Readers

/-!
# What the reader returns

`Json.WellFormed P d j` says that the numbers of `j` satisfy `P`, that no object has a key twice,
and that containers nest at most `d` deep.  In every value that `Json.parse` returns the integers
fit 64 bits and at most 127 containers are nested, whatever the text (`wellFormed_of_parse`).
-/

namespace CodeTidy

namespace Json

/-! ### Numbers -/

/-- An integer lies between the least signed and the greatest unsigned number of 64 bits. -/
def Number.Fits : Number → Prop
  | .int value => -0x8000000000000000 ≤ value ∧ value ≤ 0xffffffffffffffff
  | .float .. => True

/-- Whatever number a reading function returns fits. -/
def ReadsFitting (r : Read Number) : Prop :=
  ∀ n rest, r = .ok (n, rest) → n.Fits

theorem readsFitting_error (f : Fault) : ReadsFitting (.error f) := by
  intro n rest h
  simp at h

theorem readsFitting_float (negative : Bool) (x : Binary64) (rest : List Char) :
    ReadsFitting (.ok (.float negative x, rest)) := by
  intro n rest' h
  obtain ⟨rfl, -⟩ := Prod.mk.inj (Except.ok.inj h)
  trivial

theorem readsFitting_finishFloat (negative : Bool) (significand : Nat) (exponent : Int)
    (rest : List Char) : ReadsFitting (finishFloat negative significand exponent rest) := by
  unfold finishFloat
  split
  · exact readsFitting_float _ _ _
  · exact readsFitting_error _

theorem readsFitting_readExponentDigits (negative down : Bool) (significand : Nat) (start : Int) :
    ∀ (s : List Char) (value : Nat),
      ReadsFitting (readExponentDigits negative down significand start value s)
  | [], _ => readsFitting_finishFloat _ _ _ _
  | c :: cs, value => by
    unfold readExponentDigits
    dsimp only
    split
    · split
      · exact readsFitting_readExponentDigits negative down significand start cs _
      · split
        · exact readsFitting_error _
        · exact readsFitting_float _ _ _
    · exact readsFitting_finishFloat _ _ _ _

theorem readsFitting_readExponent (negative : Bool) (significand : Nat) (start : Int)
    (s : List Char) : ReadsFitting (readExponent negative significand start s) := by
  unfold readExponent
  split
  split
  · exact readsFitting_error _
  · split
    · exact readsFitting_readExponentDigits _ _ _ _ _ _
    · exact readsFitting_error _

theorem readsFitting_readFraction (negative : Bool) (significand : Nat) (exponent : Int)
    (s : List Char) : ReadsFitting (readFraction negative significand exponent s) := by
  unfold readFraction
  dsimp only
  split
  · exact readsFitting_error _
  · unfold readScale
    split
    · exact readsFitting_readExponent _ _ _ _
    · exact readsFitting_readExponent _ _ _ _
    · exact readsFitting_finishFloat _ _ _ _

theorem readsFitting_finishInteger (negative : Bool) {significand : Nat}
    (h : significand ≤ maxSignificand) (rest : List Char) :
    ReadsFitting (finishInteger negative significand rest) := by
  unfold maxSignificand at h
  unfold finishInteger
  split
  · intro n rest' e
    obtain ⟨rfl, -⟩ := Prod.mk.inj (Except.ok.inj e)
    unfold Number.Fits
    omega
  · split
    · intro n rest' e
      obtain ⟨rfl, -⟩ := Prod.mk.inj (Except.ok.inj e)
      unfold Number.Fits
      omega
    · exact readsFitting_finishFloat _ _ _ _

theorem readsFitting_readTail (negative : Bool) {significand : Nat}
    (h : significand ≤ maxSignificand) (dropped : Nat) (s : List Char) :
    ReadsFitting (readTail negative significand dropped s) := by
  unfold readTail
  split
  · exact readsFitting_readFraction _ _ _ _
  · exact readsFitting_readExponent _ _ _ _
  · exact readsFitting_readExponent _ _ _ _
  · split
    · exact readsFitting_finishInteger negative h _
    · exact readsFitting_finishFloat _ _ _ _

theorem digitValue_le {c : Char} (h : c.isDigit = true) : digitValue c ≤ 9 := by
  have h9 : c.toNat ≤ 57 := (Char.isDigit_iff_toNat.1 h).2
  unfold digitValue
  omega

theorem significand_absorb_le :
    ∀ (s : List Char) (significand kept dropped : Nat), significand ≤ maxSignificand →
      (absorb significand kept dropped s).significand ≤ maxSignificand
  | [], _, _, _, h => h
  | c :: cs, significand, kept, dropped, h => by
    unfold absorb
    dsimp only
    split
    · split
      · rename_i hn
        exact significand_absorb_le cs _ _ _ hn.2
      · exact significand_absorb_le cs _ _ _ h
    · exact h

theorem readsFitting_readNumber (negative : Bool) (s : List Char) :
    ReadsFitting (readNumber negative s) := by
  unfold readNumber
  split
  · exact readsFitting_error _
  · split
    · exact readsFitting_error _
    · exact readsFitting_readTail negative (Nat.zero_le _) _ _
  · rename_i c cs _
    dsimp only
    split
    · rename_i hc
      have hd : digitValue c ≤ maxSignificand := Nat.le_trans (digitValue_le hc) (by decide)
      exact readsFitting_readTail negative (significand_absorb_le cs _ _ _ hd) _ _
    · exact readsFitting_error _

/-! ### Values -/

/-- The numbers of the value satisfy `P`, no object has a key twice, and at most `depth` containers
are nested. -/
inductive WellFormed (P : Number → Prop) : (depth : Nat) → Json → Prop where
  | null {d : Nat} : WellFormed P d .null
  | bool {d : Nat} (b : Bool) : WellFormed P d (.bool b)
  | number {d : Nat} {n : Number} (h : P n) : WellFormed P d (.number n)
  | string {d : Nat} (s : String) : WellFormed P d (.string s)
  | array {d : Nat} {items : List Json} (h : ∀ j ∈ items, WellFormed P d j) :
      WellFormed P (d + 1) (.array items)
  | object {d : Nat} {members : Members} (hk : members.keys.Nodup)
      (h : ∀ m ∈ members, WellFormed P d m.2) : WellFormed P (d + 1) (.object members)

namespace WellFormed

variable {P Q : Number → Prop} {d d' : Nat}

theorem mono {j : Json} (h : WellFormed P d j) (hd : d ≤ d') : WellFormed P d' j := by
  induction h generalizing d' with
  | null => exact .null
  | bool b => exact .bool b
  | number h => exact .number h
  | string s => exact .string s
  | array h ih =>
    obtain ⟨d', rfl⟩ : ∃ e, d' = e + 1 := ⟨d' - 1, by omega⟩
    exact .array fun j hj => ih j hj (by omega)
  | object hk h ih =>
    obtain ⟨d', rfl⟩ : ∃ e, d' = e + 1 := ⟨d' - 1, by omega⟩
    exact .object hk fun m hm => ih m hm (by omega)

/-! ### Parts and insertions -/

theorem of_mem_items {items : List Json} (h : WellFormed P (d + 1) (.array items)) {j : Json}
    (hj : j ∈ items) : WellFormed P d j := by
  cases h with
  | array h => exact h j hj

theorem of_mem_members {members : Members} (h : WellFormed P (d + 1) (.object members))
    {m : String × Json} (hm : m ∈ members) : WellFormed P d m.2 := by
  cases h with
  | object hk h => exact h m hm

theorem of_get? {members : Members} (h : WellFormed P (d + 1) (.object members)) {key : String}
    {value : Json} (hv : members.get? key = some value) : WellFormed P d value :=
  h.of_mem_members (Members.mem_of_get? hv)

theorem nodup_keys {members : Members} (h : WellFormed P d (.object members)) :
    members.keys.Nodup := by
  cases h with
  | object hk h => exact hk

theorem insert {members : Members} (h : WellFormed P (d + 1) (.object members)) (key : String)
    {value : Json} (hv : WellFormed P d value) :
    WellFormed P (d + 1) (.object (members.insert key value)) := by
  refine .object (Members.nodup_insert key value h.nodup_keys) fun m hm => ?_
  rcases Members.mem_insert hm with rfl | hm
  · exact hv
  · exact h.of_mem_members hm

theorem eraseAll {members : Members} (h : WellFormed P d (.object members))
    (keys : List String) : WellFormed P d (.object (members.eraseAll keys)) := by
  have hs := Members.eraseAll_sublist keys members
  cases h with
  | object hk h =>
    exact .object (hk.sublist (hs.map _)) fun m hm => h m (hs.subset hm)

end WellFormed

/-! ### Reading -/

/-- What the three functions that read values return with some fuel is well formed, one level
less deep than the depth that they are given. -/
structure ReadsWellFormed (fuel : Nat) : Prop where
  value : ∀ {depth s j rest}, readValue fuel depth s = .ok (j, rest) →
    WellFormed Number.Fits (depth - 1) j
  items : ∀ {depth s js rest}, readItems fuel depth s = .ok (js, rest) →
    ∀ j ∈ js, WellFormed Number.Fits (depth - 1) j
  members : ∀ {depth s ms rest}, readMembers fuel depth s = .ok (ms, rest) →
    ∀ m ∈ ms, WellFormed Number.Fits (depth - 1) m.2

theorem readsWellFormed_zero : ReadsWellFormed 0 :=
  ⟨fun h => by simp [readValue] at h, fun h => by simp [readItems] at h,
    fun h => by simp [readMembers] at h⟩

theorem ReadsWellFormed.readItems_succ {fuel : Nat} (ih : ReadsWellFormed fuel) {depth : Nat}
    {s rest : List Char} {js : List Json} (h : readItems (fuel + 1) depth s = .ok (js, rest)) :
    ∀ j ∈ js, WellFormed Number.Fits (depth - 1) j := by
  have hread := itemsRead h
  generalize skipBlanks s = cs at hread
  cases hread with
  | close => simp
  | item hitem hitems => exact List.forall_mem_cons.2 ⟨ih.value hitem, ih.items hitems⟩

theorem ReadsWellFormed.readMembers_succ {fuel : Nat} (ih : ReadsWellFormed fuel) {depth : Nat}
    {s rest : List Char} {ms : List (String × Json)}
    (h : readMembers (fuel + 1) depth s = .ok (ms, rest)) :
    ∀ m ∈ ms, WellFormed Number.Fits (depth - 1) m.2 := by
  have hread := membersRead h
  generalize skipBlanks s = cs at hread
  cases hread with
  | close => simp
  | member _ _ hvalue hmembers =>
    exact List.forall_mem_cons.2 ⟨ih.value hvalue, ih.members hmembers⟩

theorem ReadsWellFormed.readValue_succ {fuel : Nat} (ih : ReadsWellFormed fuel) {depth : Nat}
    {s rest : List Char} {v : Json} (h : readValue (fuel + 1) depth s = .ok (v, rest)) :
    WellFormed Number.Fits (depth - 1) v := by
  have hread := valueRead h
  generalize skipBlanks s = cs at hread
  -- what stands in a container is one level less deep
  have hlevel : 1 < depth → depth - 1 = depth - 1 - 1 + 1 := by omega
  cases hread with
  | null => exact .null
  | true => exact .bool _
  | false => exact .bool _
  | number negative hn => exact .number (readsFitting_readNumber _ _ _ _ hn)
  | string _ => exact .string _
  | noArray hdepth _ =>
    rw [hlevel hdepth]
    exact .array (by simp)
  | array hdepth hitem hitems =>
    rw [hlevel hdepth]
    exact .array (List.forall_mem_cons.2 ⟨ih.value hitem, ih.items hitems⟩)
  | noObject hdepth _ =>
    rw [hlevel hdepth]
    exact .object (by simp [Members.keys]) (by simp)
  | object hdepth _ _ hvalue hmembers =>
    rw [hlevel hdepth]
    refine .object (Members.nodup_ofList _) fun m hm => ?_
    rcases List.mem_cons.1 (Members.mem_of_mem_ofList hm) with rfl | hm
    · exact ih.value hvalue
    · exact ih.members hmembers m hm

theorem readsWellFormed : ∀ fuel : Nat, ReadsWellFormed fuel
  | 0 => readsWellFormed_zero
  | fuel + 1 =>
    ⟨(readsWellFormed fuel).readValue_succ, (readsWellFormed fuel).readItems_succ,
      (readsWellFormed fuel).readMembers_succ⟩

/-- **Every value that is read from a text is well formed.** -/
theorem wellFormed_of_parse {text : List Char} {j : Json} (h : parse text = .ok j) :
    WellFormed Number.Fits (maxDepth - 1) j := by
  obtain ⟨⟨value, rest⟩, hv, h⟩ := bind_eq_ok.1 h
  dsimp only at h
  split at h
  · obtain rfl : value = j := by simpa [pure, Except.pure] using h
    exact (readsWellFormed _).value hv
  · simp [throw, throwThe, MonadExceptOf.throw] at h

end Json

end CodeTidy
