import CodeTidy.Proofs.Json.Scalars
import CodeTidy.Proofs.Json.WellFormed
import CodeTidy.Lookup

/-!
# Printed values are read back

`parse_pretty` says that a well-formed value without floats, printed over several lines, is read
as itself.  A float is printed with its shortest digits and read with one rounding, so it can
come back as another one; `maskFloats_of_parse_pretty` says that nothing else can change: if a
printed value is read at all, what is read differs from it in floats only.
-/

namespace CodeTidy.Json

/-! ### Values up to their floats -/

/-- The value with every float replaced by zero. -/
def maskFloats : Json → Json
  | .number (.float _ _) => .number (.float false .zero)
  | .array items => .array (items.map maskFloats)
  | .object members => .object (members.map fun m => (m.1, maskFloats m.2))
  | j => j
decreasing_by
  · decreasing_tactic
  · rename_i hm
    have := List.sizeOf_lt_of_mem hm
    obtain ⟨k, v⟩ := m
    simp only [Prod.mk.sizeOf_spec, object.sizeOf_spec] at this ⊢
    omega

/-- A member with the floats of its value replaced by zero. -/
def maskMember (m : String × Json) : String × Json :=
  (m.1, m.2.maskFloats)

theorem maskFloats_object (members : Members) :
    maskFloats (.object members) = .object (members.map maskMember) := by
  rw [maskFloats]
  rfl

/-- No number in the value is a float. -/
inductive Integral : Json → Prop where
  | null : Integral .null
  | bool (b : Bool) : Integral (.bool b)
  | int (value : Int) : Integral (.number (.int value))
  | string (s : String) : Integral (.string s)
  | array {items : List Json} (h : ∀ j ∈ items, Integral j) : Integral (.array items)
  | object {members : Members} (h : ∀ m ∈ members, Integral m.2) : Integral (.object members)

theorem integral_array_iff {items : List Json} :
    Integral (.array items) ↔ ∀ j ∈ items, Integral j :=
  ⟨fun h => by cases h; assumption, .array⟩

theorem integral_object_iff {members : Members} :
    Integral (.object members) ↔ ∀ m ∈ members, Integral m.2 :=
  ⟨fun h => by cases h; assumption, .object⟩

def Number.IsInt (n : Number) : Prop :=
  ∃ value, n = .int value

theorem Integral.wellFormed {P : Number → Prop} {d : Nat} {j : Json} (hi : j.Integral)
    (h : WellFormed P d j) : WellFormed (fun n => P n ∧ n.IsInt) d j := by
  induction h with
  | null => exact .null
  | bool b => exact .bool b
  | number h =>
    cases hi
    exact .number ⟨h, _, rfl⟩
  | string s => exact .string s
  | array h ih => exact .array fun j hj => ih j hj (integral_array_iff.1 hi j hj)
  | object hk h ih => exact .object hk fun m hm => ih m hm (integral_object_iff.1 hi m hm)

theorem WellFormed.integral {P : Number → Prop} {d : Nat} {j : Json} (h : WellFormed P d j)
    (hP : ∀ n, P n → n.IsInt) : j.Integral := by
  induction h with
  | null => exact .null
  | bool b => exact .bool b
  | number h =>
    obtain ⟨value, rfl⟩ := hP _ h
    exact .int value
  | string s => exact .string s
  | array h ih => exact .array ih
  | object hk h ih => exact .object ih

theorem eq_of_map_eq {α β : Type} {f : α → β} :
    ∀ {l l' : List α}, (∀ b ∈ l', ∀ a, f a = f b → a = b) → l.map f = l'.map f → l = l'
  | [], [], _, _ => rfl
  | [], _ :: _, _, e => by simp at e
  | _ :: _, [], _, e => by simp at e
  | a :: l, b :: l', h, e => by
    rw [List.map_cons, List.map_cons, List.cons.injEq] at e
    rw [h b List.mem_cons_self a e.1, eq_of_map_eq (fun b hb => h b (List.mem_cons_of_mem _ hb)) e.2]

theorem Integral.eq_of_maskFloats_eq {j v : Json} (hj : j.Integral)
    (h : v.maskFloats = j.maskFloats) : v = j := by
  induction hj generalizing v with
  | null => cases v with
    | number n => cases n <;> simp [maskFloats] at h
    | _ => simp_all [maskFloats]
  | bool b => cases v with
    | number n => cases n <;> simp [maskFloats] at h
    | _ => simp_all [maskFloats]
  | int value => cases v with
    | number n => cases n <;> simp_all [maskFloats]
    | _ => simp_all [maskFloats]
  | string s => cases v with
    | number n => cases n <;> simp [maskFloats] at h
    | _ => simp_all [maskFloats]
  | @array items hi ih => cases v with
    | number n => cases n <;> simp [maskFloats] at h
    | array vs =>
      have e : vs.map maskFloats = items.map maskFloats := by simpa [maskFloats] using h
      rw [eq_of_map_eq (fun j hj v => ih j hj) e]
    | _ => simp_all [maskFloats]
  | @object members hm ih => cases v with
    | number n => cases n <;> simp [maskFloats] at h
    | object vs =>
      have e : vs.map maskMember = members.map maskMember := by
        simpa [maskFloats_object] using h
      rw [eq_of_map_eq (fun m hm v e => ?_) e]
      obtain ⟨hk, hv⟩ := Prod.mk.inj e
      exact Prod.ext hk (ih m hm hv)
    | _ => simp_all [maskFloats]

/-! Masking changes neither the kind of a value nor its keys and strings. -/

theorem string?_maskFloats (j : Json) : j.maskFloats.string? = j.string? := by
  cases j with
  | number n => cases n <;> rw [maskFloats] <;> simp [string?]
  | _ => rw [maskFloats] <;> simp [string?]

theorem isNull_maskFloats (j : Json) : j.maskFloats.isNull = j.isNull := by
  cases j with
  | number n => cases n <;> rw [maskFloats] <;> simp [isNull]
  | _ => rw [maskFloats] <;> simp [isNull]

theorem items?_maskFloats (j : Json) : j.maskFloats.items? = j.items?.map (List.map maskFloats) := by
  cases j with
  | number n => cases n <;> rw [maskFloats] <;> simp [items?]
  | _ => rw [maskFloats] <;> simp [items?]

theorem members?_maskFloats (j : Json) :
    j.maskFloats.members? = j.members?.map (List.map maskMember) := by
  cases j with
  | number n => cases n <;> rw [maskFloats] <;> simp [members?]
  | object ms => rw [maskFloats_object]; rfl
  | _ => rw [maskFloats] <;> simp [members?]

theorem get?_map_maskMember (key : String) (ms : Members) :
    Members.get? (ms.map maskMember) key = (ms.get? key).map maskFloats :=
  lookup_map_snd (fun _ => maskFloats) key ms

/-! ### Blanks and first characters -/

theorem skipBlanks_cons {c : Char} (h : isJsonBlank c = false) (s : List Char) :
    skipBlanks (c :: s) = c :: s := by
  simp [skipBlanks, h]

def Blanks (b : List Char) : Prop :=
  ∀ c ∈ b, isJsonBlank c = true

theorem blanks_newLine (unit level : Nat) : Blanks (newLine unit level) := by
  intro c hc
  rcases List.mem_cons.1 hc with rfl | hc
  · rfl
  · rw [(List.mem_replicate.1 hc).2]
    rfl

theorem skipBlanks_append {b : List Char} (hb : Blanks b) (s : List Char) :
    skipBlanks (b ++ s) = skipBlanks s := by
  induction b with
  | nil => rfl
  | cons c b ih =>
    rw [List.cons_append, skipBlanks, List.dropWhile_cons_of_pos (hb c List.mem_cons_self)]
    exact ih fun x hx => hb x (List.mem_cons_of_mem _ hx)

theorem skipBlanks_newLine (unit level : Nat) (s : List Char) :
    skipBlanks (newLine unit level ++ s) = skipBlanks s :=
  skipBlanks_append (blanks_newLine unit level) s

theorem isJsonBlank_of_isDigit {c : Char} (h : c.isDigit = true) :
    isJsonBlank c = false ∧ c ≠ ']' := by
  refine ⟨Bool.eq_false_iff.2 fun hb => ?_, ?_⟩
  · simp only [isJsonBlank, Bool.or_eq_true, beq_iff_eq] at hb
    rcases hb with ((rfl | rfl) | rfl) | rfl <;> exact absurd h (by decide)
  · rintro rfl
    exact absurd h (by decide)

theorem number_text_head (n : Number) :
    ∃ c cs, n.text = c :: cs ∧ (c = '-' ∨ c.isDigit = true) := by
  have nat : ∀ n, ∃ c cs, Nat.toDigits 10 n = c :: cs ∧ (c = '-' ∨ c.isDigit = true) := by
    intro n
    cases h : Nat.toDigits 10 n with
    | nil => exact absurd h Nat.toDigits_ne_nil
    | cons c cs => exact ⟨c, cs, rfl, .inr (digits_toDigits n c (h ▸ List.mem_cons_self))⟩
  match n with
  | .int (.ofNat n) => exact nat n
  | .int (.negSucc n) => exact ⟨'-', _, rfl, .inl rfl⟩
  | .float true x => exact ⟨'-', _, rfl, .inl rfl⟩
  | .float false x =>
    obtain ⟨ds, tail, hne, hd, -, e⟩ := float_text_shape x
    obtain ⟨c, cs, rfl⟩ := List.exists_cons_of_ne_nil hne
    exact ⟨c, cs ++ tail, e, .inr (hd c List.mem_cons_self)⟩

/-- The first character of a printed value is no blank and closes no array. -/
theorem prettyAt_head (unit level : Nat) (j : Json) :
    ∃ c cs, prettyAt unit level j = c :: cs ∧ isJsonBlank c = false ∧ c ≠ ']' := by
  match j with
  | .null => exact ⟨'n', _, rfl, by decide⟩
  | .bool true => exact ⟨'t', _, rfl, by decide⟩
  | .bool false => exact ⟨'f', _, rfl, by decide⟩
  | .number n =>
    obtain ⟨c, cs, e, hc⟩ := number_text_head n
    refine ⟨c, cs, e, ?_⟩
    rcases hc with rfl | hc
    · decide
    · exact isJsonBlank_of_isDigit hc
  | .string s => exact ⟨'"', _, rfl, by decide⟩
  | .array [] => exact ⟨'[', _, rfl, by decide⟩
  | .array (j :: js) => exact ⟨'[', _, rfl, by decide⟩
  | .object [] => exact ⟨'{', _, rfl, by decide⟩
  | .object ((k, j) :: ms) => exact ⟨'{', _, rfl, by decide⟩

theorem stops_prettyItems (unit level level' : Nat) (js : List Json) (s : List Char) :
    Stops (prettyItems unit level js ++ newLine unit level' ++ s) := by
  cases js with
  | nil => exact stops_cons (by decide)
  | cons j js => exact stops_cons (by decide)

theorem stops_prettyMembers (unit level level' : Nat) (ms : List (String × Json))
    (s : List Char) : Stops (prettyMembers unit level ms ++ newLine unit level' ++ s) := by
  match ms with
  | [] => exact stops_cons (by decide)
  | (k, j) :: ms => exact stops_cons (by decide)

/-! ### Reading back -/

/-- What is read of the text of `j` before `rest`: a value that differs from `j` in floats only.
If nothing can be read, floats are to blame. -/
def Rereads (j : Json) (rest : List Char) : Except Fault (Json × List Char) → Prop
  | .ok (v, rest') => v.maskFloats = j.maskFloats ∧ rest' = rest
  | .error _ => ¬ j.Integral

/-- The same of items. -/
def RereadsItems (js : List Json) (rest : List Char) :
    Except Fault (List Json × List Char) → Prop
  | .ok (vs, rest') => vs.map maskFloats = js.map maskFloats ∧ rest' = rest
  | .error _ => ¬ ∀ j ∈ js, j.Integral

/-- The same of members. -/
def RereadsMembers (ms : Members) (rest : List Char) :
    Except Fault (List (String × Json) × List Char) → Prop
  | .ok (vs, rest') => vs.map maskMember = ms.map maskMember ∧ rest' = rest
  | .error _ => ¬ ∀ m ∈ ms, m.2.Integral

/-- Wherever the text of `j` stands, `j` is read back with enough fuel, `d` levels deep. -/
def ReadsBack (d : Nat) (j : Json) : Prop :=
  ∀ (unit level : Nat) {fuel depth : Nat} {s rest : List Char}, Stops rest →
    skipBlanks s = prettyAt unit level j ++ rest → (prettyAt unit level j).length ≤ fuel →
    d + 1 ≤ depth → Rereads j rest (readValue fuel depth s)

theorem ReadsBack.of_head {d : Nat} {j : Json} (h : ReadsBack d j) {unit level fuel depth : Nat}
    {mid cs : List Char} {c : Char} (e : prettyAt unit level j = c :: cs)
    (hb : isJsonBlank c = false) (hm : Stops mid) (hf : (prettyAt unit level j).length ≤ fuel)
    (hd : d + 1 ≤ depth) : Rereads j mid (readValue fuel depth (c :: (cs ++ mid))) :=
  h unit level hm (by rw [skipBlanks_cons hb, e, List.cons_append]) hf hd

theorem ReadsBack.of_blank {d : Nat} {j : Json} (h : ReadsBack d j) {unit level fuel depth : Nat}
    {mid : List Char} (hm : Stops mid) (hf : (prettyAt unit level j).length ≤ fuel)
    (hd : d + 1 ≤ depth) :
    Rereads j mid (readValue fuel depth (' ' :: (prettyAt unit level j ++ mid))) := by
  obtain ⟨c, cs, e, hb, -⟩ := prettyAt_head unit level j
  have hs : skipBlanks (' ' :: (prettyAt unit level j ++ mid)) = prettyAt unit level j ++ mid := by
    rw [e]
    exact skipBlanks_cons hb _
  exact h unit level hm hs hf hd

theorem readValue_of_digit {c : Char} {s cs : List Char} (hc : c.isDigit = true)
    (hs : skipBlanks s = c :: cs) (fuel depth : Nat) :
    readValue (fuel + 1) depth s
      = (readNumber false (c :: cs)).map fun (n, rest) => (.number n, rest) := by
  rw [readValue, hs]
  split <;> simp_all +decide

theorem readValue_of_minus {s cs : List Char} (hs : skipBlanks s = '-' :: cs)
    (fuel depth : Nat) :
    readValue (fuel + 1) depth s = (readNumber true cs).map fun (n, rest) => (.number n, rest) := by
  rw [readValue, hs]
  rfl

theorem rereads_of_readsFloat {negative : Bool} {x : Binary64} {rest : List Char}
    {r : Read Number} (h : ReadsFloat rest r) :
    Rereads (.number (.float negative x)) rest
      (r.map fun (n, rest) => (.number n, rest)) := by
  cases r with
  | error e =>
    intro hi
    cases hi
  | ok p =>
    obtain ⟨hrest, negative', x', hn⟩ := h p.1 p.2 rfl
    refine ⟨?_, hrest⟩
    rw [hn, maskFloats, maskFloats]

theorem readsBack_number {d : Nat} {n : Number} (h : n.Fits) : ReadsBack d (.number n) := by
  intro unit level fuel depth s rest hr hs hf _
  unfold prettyAt at hs hf
  obtain ⟨c, cs, e, -⟩ := number_text_head n
  obtain ⟨fuel, rfl⟩ : ∃ f, fuel = f + 1 := ⟨fuel - 1, by rw [e, List.length_cons] at hf; omega⟩
  match n, h with
  | .int (.ofNat n), h =>
    have hn : n ≤ 0xffffffffffffffff := by
      have h2 : (n : Int) ≤ 0xffffffffffffffff := h.2
      omega
    have hd := digits_toDigits n
    rw [Number.text] at hs e
    rw [e] at hd
    have hs' : skipBlanks s = c :: (cs ++ rest) := by rw [hs, e, List.cons_append]
    rw [readValue_of_digit (hd c List.mem_cons_self) hs', ← List.cons_append, ← e,
      readNumber_natText hn hr]
    exact ⟨rfl, rfl⟩
  | .int (.negSucc n), h =>
    have hn : n < 0x8000000000000000 := by
      have h1 : -0x8000000000000000 ≤ Int.negSucc n := h.1
      omega
    rw [Number.text, List.cons_append] at hs
    rw [readValue_of_minus hs, readNumber_negText hn hr]
    exact ⟨rfl, rfl⟩
  | .float negative x, _ =>
    obtain ⟨ds, tail, hne, hd, ht, e⟩ := float_text_shape x
    rw [Number.text, e] at hs
    cases negative with
    | true =>
      rw [readValue_of_minus hs]
      exact rereads_of_readsFloat (readsFloat_readNumber hd ht hr true)
    | false =>
      obtain ⟨c, cs, rfl⟩ := List.exists_cons_of_ne_nil hne
      rw [readValue_of_digit (hd c List.mem_cons_self) hs]
      exact rereads_of_readsFloat (readsFloat_readNumber hd ht hr false)

theorem readName_append (v : Json) (rest : List Char) :
    ∀ name : List Char, readName v name (name ++ rest) = .ok (v, rest)
  | [] => rfl
  | n :: ns => by
    rw [List.cons_append, readName, if_pos rfl]
    exact readName_append v rest ns

theorem rereads_readName (v : Json) (rest name : List Char) :
    Rereads v rest (readName v name (name ++ rest)) := by
  rw [readName_append]
  exact ⟨rfl, rfl⟩

theorem readsBack_null (d : Nat) : ReadsBack d .null := by
  intro unit level fuel depth s rest _ hs hf _
  unfold prettyAt at hs hf
  obtain ⟨fuel, rfl⟩ : ∃ f, fuel = f + 1 := ⟨fuel - 1, by simp at hf; omega⟩
  rw [readValue, hs]
  exact rereads_readName .null rest "ull".toList

theorem readsBack_bool (d : Nat) (b : Bool) : ReadsBack d (.bool b) := by
  intro unit level fuel depth s rest _ hs hf _
  cases b with
  | true =>
    unfold prettyAt at hs hf
    obtain ⟨fuel, rfl⟩ : ∃ f, fuel = f + 1 := ⟨fuel - 1, by simp at hf; omega⟩
    rw [readValue, hs]
    exact rereads_readName (.bool true) rest "rue".toList
  | false =>
    unfold prettyAt at hs hf
    obtain ⟨fuel, rfl⟩ : ∃ f, fuel = f + 1 := ⟨fuel - 1, by simp at hf; omega⟩
    rw [readValue, hs]
    exact rereads_readName (.bool false) rest "alse".toList

theorem quote_append (s : String) (rest : List Char) :
    quote s ++ rest = '"' :: (s.toList.flatMap escapeChar ++ '"' :: rest) := by
  simp [quote]

theorem readsBack_string (d : Nat) (t : String) : ReadsBack d (.string t) := by
  intro unit level fuel depth s rest _ hs hf _
  unfold prettyAt at hs hf
  obtain ⟨fuel, rfl⟩ : ∃ f, fuel = f + 1 := ⟨fuel - 1, by simp [quote] at hf; omega⟩
  rw [quote_append] at hs
  rw [readValue, hs]
  show Rereads _ _ (Except.map _ (readString (t.toList.flatMap escapeChar ++ '"' :: rest)))
  rw [readString_escaped]
  exact ⟨by rw [String.ofList_toList], rfl⟩

/-! ### Items -/

theorem skipBlanks_item {unit level : Nat} {j : Json} {c : Char} {cs : List Char}
    (e : prettyAt unit level j = c :: cs) (hb : isJsonBlank c = false) (rest : List Char) :
    skipBlanks (newLine unit level ++ (prettyAt unit level j ++ rest)) = c :: (cs ++ rest) := by
  rw [skipBlanks_newLine, e, List.cons_append, skipBlanks_cons hb]

theorem readItems_of_comma {s cs t : List Char} {c : Char} (hs : skipBlanks s = ',' :: cs)
    (ht : skipBlanks cs = c :: t) (hc : c ≠ ']') (fuel depth : Nat) :
    readItems (fuel + 1) depth s = do
      let (item, r) ← readValue fuel depth (c :: t)
      let (items, r) ← readItems fuel depth r
      return (item :: items, r) := by
  rw [readItems]
  simp only [hs, ht]
  split <;> simp_all

theorem rereadsItems_cons {j : Json} {js : List Json} {mid rest : List Char}
    {r : Except Fault (Json × List Char)} {fuel depth : Nat} (hj : Rereads j mid r)
    (hjs : RereadsItems js rest (readItems fuel depth mid)) :
    RereadsItems (j :: js) rest (do
      let (item, s) ← r
      let (items, s) ← readItems fuel depth s
      return (item :: items, s)) := by
  cases r with
  | error e => exact fun hi => hj (hi j List.mem_cons_self)
  | ok p =>
    obtain ⟨v, s⟩ := p
    obtain ⟨hv, rfl⟩ := hj
    simp only [bind, Except.bind]
    cases hi : readItems fuel depth s with
    | error e =>
      rw [hi] at hjs
      exact fun h => hjs fun j hj => h j (List.mem_cons_of_mem _ hj)
    | ok q =>
      obtain ⟨vs, s'⟩ := q
      rw [hi] at hjs
      obtain ⟨hvs, rfl⟩ := hjs
      exact ⟨by rw [List.map_cons, List.map_cons, hv, hvs], rfl⟩

theorem rereadsItems {d : Nat} {unit level level' depth : Nat} {rest : List Char}
    (hd : d + 1 ≤ depth) :
    ∀ {js : List Json} {fuel : Nat}, (∀ j ∈ js, ReadsBack d j) →
      (prettyItems unit level js).length + 1 ≤ fuel →
      RereadsItems js rest
        (readItems fuel depth (prettyItems unit level js ++ newLine unit level' ++ ']' :: rest))
  | [], fuel, _, hf => by
    obtain ⟨fuel, rfl⟩ : ∃ f, fuel = f + 1 := ⟨fuel - 1, by omega⟩
    have hs : skipBlanks (prettyItems unit level [] ++ newLine unit level' ++ ']' :: rest)
        = ']' :: rest := by
      rw [prettyItems, List.nil_append, skipBlanks_newLine, skipBlanks_cons (by decide)]
    rw [readItems, hs]
    exact ⟨rfl, rfl⟩
  | j :: js, fuel, h, hf => by
    obtain ⟨fuel, rfl⟩ : ∃ f, fuel = f + 1 := ⟨fuel - 1, by omega⟩
    obtain ⟨c, cs, e, hb, hc⟩ := prettyAt_head unit level j
    have hl : (prettyItems unit level (j :: js)).length
        = (newLine unit level).length + (prettyAt unit level j).length
          + (prettyItems unit level js).length + 1 := by
      rw [prettyItems]
      simp only [List.length_append, List.length_cons]
      omega
    generalize hmid : prettyItems unit level js ++ newLine unit level' ++ ']' :: rest = mid
    have hs : prettyItems unit level (j :: js) ++ newLine unit level' ++ ']' :: rest
        = ',' :: (newLine unit level ++ (prettyAt unit level j ++ mid)) := by
      rw [prettyItems, ← hmid]
      simp only [List.append_assoc, List.cons_append]
    have ht := skipBlanks_item e hb mid
    rw [hs, readItems_of_comma (skipBlanks_cons (by decide) _) ht hc]
    have hm : Stops mid := hmid ▸ stops_prettyItems _ _ _ _ _
    have hj := (h j List.mem_cons_self).of_head e hb hm (by omega : _ ≤ fuel) hd
    have hjs : RereadsItems js rest (readItems fuel depth mid) := by
      rw [← hmid]
      exact rereadsItems hd (fun j hj => h j (List.mem_cons_of_mem _ hj)) (by omega)
    exact rereadsItems_cons hj hjs

theorem readValue_of_bracket {s cs t : List Char} {c : Char} {depth : Nat} (hd : 1 < depth)
    (hs : skipBlanks s = '[' :: cs) (ht : skipBlanks cs = c :: t) (hc : c ≠ ']') (fuel : Nat) :
    readValue (fuel + 1) depth s =
      Except.map (fun (items, r) => (.array items, r)) (do
        let (item, r) ← readValue fuel (depth - 1) (c :: t)
        let (items, r) ← readItems fuel (depth - 1) r
        return (item :: items, r)) := by
  have hd' : ¬ depth ≤ 1 := by omega
  rw [readValue]
  simp only [hs, ht, if_neg hd']
  split
  · simp_all
  · simp_all
  · cases readValue fuel (depth - 1) (c :: t) with
    | error e => rfl
    | ok p =>
      simp only [bind, Except.bind]
      cases readItems fuel (depth - 1) p.2 with
      | error e => rfl
      | ok q => rfl

theorem rereads_array {js : List Json} {rest : List Char}
    {r : Except Fault (List Json × List Char)} (h : RereadsItems js rest r) :
    Rereads (.array js) rest (r.map fun (items, s) => (.array items, s)) := by
  cases r with
  | error e => exact fun hi => h (integral_array_iff.1 hi)
  | ok p =>
    obtain ⟨vs, s⟩ := p
    obtain ⟨hvs, rfl⟩ := h
    exact ⟨by rw [maskFloats, maskFloats, hvs], rfl⟩

theorem readsBack_array {d : Nat} {items : List Json} (h : ∀ j ∈ items, ReadsBack d j) :
    ReadsBack (d + 1) (.array items) := by
  intro unit level fuel depth s rest hr hs hf hd
  cases items with
  | nil =>
    unfold prettyAt at hs hf
    obtain ⟨fuel, rfl⟩ : ∃ f, fuel = f + 1 := ⟨fuel - 1, by simp at hf; omega⟩
    have ht : skipBlanks (']' :: rest) = ']' :: rest := skipBlanks_cons (by decide) _
    have hd' : ¬ depth ≤ 1 := by omega
    rw [readValue]
    simp only [hs, List.cons_append, List.nil_append, ht, if_neg hd']
    exact ⟨rfl, rfl⟩
  | cons j js =>
    obtain ⟨c, cs, e, hb, hc⟩ := prettyAt_head unit (level + 1) j
    generalize hmid :
      prettyItems unit (level + 1) js ++ newLine unit level ++ ']' :: rest = mid
    have hs' : prettyAt unit level (.array (j :: js)) ++ rest
        = '[' :: (newLine unit (level + 1) ++ (prettyAt unit (level + 1) j ++ mid)) := by
      rw [prettyAt.eq_def, ← hmid]
      simp only [List.append_assoc, List.cons_append, List.nil_append]
    have ht := skipBlanks_item e hb mid
    unfold prettyAt at hf
    simp only [List.length_append, List.length_cons, List.length_nil] at hf
    obtain ⟨fuel, rfl⟩ : ∃ f, fuel = f + 1 := ⟨fuel - 1, by omega⟩
    rw [readValue_of_bracket (by omega) (hs.trans hs') ht hc]
    have hm : Stops mid := hmid ▸ stops_prettyItems _ _ _ _ _
    have hj := (h j List.mem_cons_self).of_head e hb hm (by omega : _ ≤ fuel)
      (by omega : d + 1 ≤ depth - 1)
    have hjs : RereadsItems js rest (readItems fuel (depth - 1) mid) := by
      rw [← hmid]
      exact rereadsItems (by omega) (fun j hj => h j (List.mem_cons_of_mem _ hj)) (by omega)
    exact rereads_array (rereadsItems_cons hj hjs)

/-! ### Members -/

theorem readKey_escaped (key : String) (rest : List Char) :
    readKey (key.toList.flatMap escapeChar ++ '"' :: ':' :: rest) = .ok (key, rest) := by
  rw [readKey, readString_escaped]
  simp only [bind, Except.bind, skipBlanks_cons (c := ':') (by decide)]
  rw [String.ofList_toList]
  rfl

theorem skipBlanks_key (unit level : Nat) (key : String) (rest : List Char) :
    skipBlanks (newLine unit level ++ (quote key ++ rest))
      = '"' :: (key.toList.flatMap escapeChar ++ '"' :: rest) := by
  rw [skipBlanks_newLine, quote_append, skipBlanks_cons (by decide)]

theorem readMembers_of_comma {s cs t r : List Char} {key : String}
    (hs : skipBlanks s = ',' :: cs) (ht : skipBlanks cs = '"' :: t) (hk : readKey t = .ok (key, r))
    (fuel depth : Nat) :
    readMembers (fuel + 1) depth s = do
      let (value, r) ← readValue fuel depth r
      let (members, r) ← readMembers fuel depth r
      return ((key, value) :: members, r) := by
  rw [readMembers]
  simp only [hs, ht, hk]
  rfl

theorem rereadsMembers_cons {key : String} {j : Json} {ms : Members} {mid rest : List Char}
    {r : Except Fault (Json × List Char)} {fuel depth : Nat} (hj : Rereads j mid r)
    (hms : RereadsMembers ms rest (readMembers fuel depth mid)) :
    RereadsMembers ((key, j) :: ms) rest (do
      let (value, s) ← r
      let (members, s) ← readMembers fuel depth s
      return ((key, value) :: members, s)) := by
  cases r with
  | error e => exact fun hi => hj (hi (key, j) List.mem_cons_self)
  | ok p =>
    obtain ⟨v, s⟩ := p
    obtain ⟨hv, rfl⟩ := hj
    simp only [bind, Except.bind]
    cases hi : readMembers fuel depth s with
    | error e =>
      rw [hi] at hms
      exact fun h => hms fun m hm => h m (List.mem_cons_of_mem _ hm)
    | ok q =>
      obtain ⟨vs, s'⟩ := q
      rw [hi] at hms
      obtain ⟨hvs, rfl⟩ := hms
      exact ⟨by rw [List.map_cons, List.map_cons, maskMember, maskMember, hv, hvs], rfl⟩

theorem rereadsMembers {d : Nat} {unit level level' depth : Nat} {rest : List Char}
    (hd : d + 1 ≤ depth) :
    ∀ {ms : Members} {fuel : Nat}, (∀ m ∈ ms, ReadsBack d m.2) →
      (prettyMembers unit level ms).length + 1 ≤ fuel →
      RereadsMembers ms rest
        (readMembers fuel depth
          (prettyMembers unit level ms ++ newLine unit level' ++ '}' :: rest))
  | [], fuel, _, hf => by
    obtain ⟨fuel, rfl⟩ : ∃ f, fuel = f + 1 := ⟨fuel - 1, by omega⟩
    have hs : skipBlanks (prettyMembers unit level [] ++ newLine unit level' ++ '}' :: rest)
        = '}' :: rest := by
      rw [prettyMembers, List.nil_append, skipBlanks_newLine, skipBlanks_cons (by decide)]
    rw [readMembers, hs]
    exact ⟨rfl, rfl⟩
  | (k, j) :: ms, fuel, h, hf => by
    obtain ⟨fuel, rfl⟩ : ∃ f, fuel = f + 1 := ⟨fuel - 1, by omega⟩
    have hl : (prettyAt unit level j).length + (prettyMembers unit level ms).length + 1
        ≤ (prettyMembers unit level ((k, j) :: ms)).length := by
      rw [prettyMembers]
      simp only [List.length_append, List.length_cons]
      omega
    generalize hmid : prettyMembers unit level ms ++ newLine unit level' ++ '}' :: rest = mid
    have hs : prettyMembers unit level ((k, j) :: ms) ++ newLine unit level' ++ '}' :: rest
        = ',' :: (newLine unit level ++ (quote k ++ ':' :: ' ' ::
          (prettyAt unit level j ++ mid))) := by
      rw [prettyMembers, ← hmid]
      simp only [List.append_assoc, List.cons_append, List.nil_append]
    rw [hs, readMembers_of_comma (skipBlanks_cons (by decide) _) (skipBlanks_key _ _ _ _)
      (readKey_escaped k _)]
    have hj := (h _ List.mem_cons_self).of_blank (hmid ▸ stops_prettyMembers _ _ _ _ _)
      (by omega : (prettyAt unit level j).length ≤ fuel) hd
    have hms : RereadsMembers ms rest (readMembers fuel depth mid) := by
      rw [← hmid]
      exact rereadsMembers hd (fun m hm => h m (List.mem_cons_of_mem _ hm)) (by omega)
    exact rereadsMembers_cons hj hms

theorem readValue_of_brace {s cs t r : List Char} {key : String} {depth : Nat} (hd : 1 < depth)
    (hs : skipBlanks s = '{' :: cs) (ht : skipBlanks cs = '"' :: t)
    (hk : readKey t = .ok (key, r)) (fuel : Nat) :
    readValue (fuel + 1) depth s =
      Except.map (fun (members, r) => (.object (Members.ofList members), r)) (do
        let (value, r) ← readValue fuel (depth - 1) r
        let (members, r) ← readMembers fuel (depth - 1) r
        return ((key, value) :: members, r)) := by
  have hd' : ¬ depth ≤ 1 := by omega
  rw [readValue]
  simp only [hs, ht, hk, if_neg hd', bind, Except.bind]
  cases readValue fuel (depth - 1) r with
  | error e => rfl
  | ok p =>
    dsimp only
    cases readMembers fuel (depth - 1) p.2 with
    | error e => rfl
    | ok q => rfl

theorem rereads_object {ms : Members} (hk : ms.keys.Nodup) {rest : List Char}
    {r : Except Fault (List (String × Json) × List Char)} (h : RereadsMembers ms rest r) :
    Rereads (.object ms) rest
      (r.map fun (members, s) => (.object (Members.ofList members), s)) := by
  cases r with
  | error e => exact fun hi => h (integral_object_iff.1 hi)
  | ok p =>
    obtain ⟨vs, s⟩ := p
    obtain ⟨hvs, rfl⟩ := h
    have hkeys : Members.keys vs = ms.keys := by
      have := congrArg (List.map Prod.fst) hvs
      rw [List.map_map, List.map_map] at this
      exact this
    refine ⟨?_, rfl⟩
    rw [Members.ofList_of_nodup (hkeys ▸ hk), maskFloats_object, maskFloats_object, hvs]

theorem readsBack_object {d : Nat} {members : Members} (hk : members.keys.Nodup)
    (h : ∀ m ∈ members, ReadsBack d m.2) : ReadsBack (d + 1) (.object members) := by
  intro unit level fuel depth s rest hr hs hf hd
  match members with
  | [] =>
    unfold prettyAt at hs hf
    obtain ⟨fuel, rfl⟩ : ∃ f, fuel = f + 1 := ⟨fuel - 1, by simp at hf; omega⟩
    have ht : skipBlanks ('}' :: rest) = '}' :: rest := skipBlanks_cons (by decide) _
    have hd' : ¬ depth ≤ 1 := by omega
    rw [readValue]
    simp only [hs, List.cons_append, List.nil_append, ht, if_neg hd']
    exact ⟨rfl, rfl⟩
  | (k, j) :: ms =>
    generalize hmid :
      prettyMembers unit (level + 1) ms ++ newLine unit level ++ '}' :: rest = mid
    have hs' : prettyAt unit level (.object ((k, j) :: ms)) ++ rest
        = '{' :: (newLine unit (level + 1) ++ (quote k ++ ':' :: ' ' ::
          (prettyAt unit (level + 1) j ++ mid))) := by
      rw [prettyAt.eq_def, ← hmid]
      simp only [List.append_assoc, List.cons_append, List.nil_append]
    unfold prettyAt at hf
    simp only [List.length_append, List.length_cons, List.length_nil] at hf
    obtain ⟨fuel, rfl⟩ : ∃ f, fuel = f + 1 := ⟨fuel - 1, by omega⟩
    rw [readValue_of_brace (by omega) (hs.trans hs') (skipBlanks_key _ _ _ _) (readKey_escaped k _)]
    have hj := (h _ List.mem_cons_self).of_blank (hmid ▸ stops_prettyMembers _ _ _ _ _)
      (by omega : (prettyAt unit (level + 1) j).length ≤ fuel) (by omega : d + 1 ≤ depth - 1)
    have hms : RereadsMembers ms rest (readMembers fuel (depth - 1) mid) := by
      rw [← hmid]
      exact rereadsMembers (by omega) (fun m hm => h m (List.mem_cons_of_mem _ hm)) (by omega)
    exact rereads_object hk (rereadsMembers_cons hj hms)

/-! ### Whole texts -/

theorem readsBack_of_wellFormed {d : Nat} {j : Json} (h : WellFormed Number.Fits d j) :
    ReadsBack d j := by
  induction h with
  | null => exact readsBack_null _
  | bool b => exact readsBack_bool _ b
  | number h => exact readsBack_number h
  | string s => exact readsBack_string _ s
  | array h ih => exact readsBack_array ih
  | object hk h ih => exact readsBack_object hk ih

/-- What `parse` makes of the text of a well-formed value that a line feed ends. -/
theorem rereads_parse {j : Json} (h : WellFormed Number.Fits (maxDepth - 1) j) (unit : Nat) :
    (∀ v, parse (j.pretty unit ++ "\n").toList = .ok v → v.maskFloats = j.maskFloats) ∧
      (j.Integral → parse (j.pretty unit ++ "\n").toList = .ok j) := by
  have e : (j.pretty unit ++ "\n").toList = prettyAt unit 0 j ++ ['\n'] := by
    rw [String.toList_append, pretty, String.toList_ofList]
    rfl
  obtain ⟨c, cs, hc, hb, -⟩ := prettyAt_head unit 0 j
  have hs : skipBlanks (prettyAt unit 0 j ++ ['\n']) = prettyAt unit 0 j ++ ['\n'] := by
    rw [hc, List.cons_append, skipBlanks_cons hb]
  have key : Rereads j ['\n'] (readValue (2 * (prettyAt unit 0 j ++ ['\n']).length + 1) maxDepth
      (prettyAt unit 0 j ++ ['\n'])) := by
    refine readsBack_of_wellFormed h unit 0 (stops_cons (by decide)) hs ?_ (by decide)
    rw [List.length_append]
    omega
  rw [e]
  unfold parse
  cases hr : readValue (2 * (prettyAt unit 0 j ++ ['\n']).length + 1) maxDepth
      (prettyAt unit 0 j ++ ['\n']) with
  | error f =>
    rw [hr] at key
    exact ⟨fun v hv => by simp [bind, Except.bind] at hv, fun hi => absurd hi key⟩
  | ok p =>
    obtain ⟨v, rest⟩ := p
    rw [hr] at key
    obtain ⟨hv, rfl⟩ := key
    refine ⟨fun v' hv' => ?_, fun hi => ?_⟩
    · obtain rfl : v = v' := Except.ok.inj hv'
      exact hv
    · rw [← hi.eq_of_maskFloats_eq hv]
      rfl

/-- **A printed value without floats is read as itself.** -/
theorem parse_pretty {j : Json} (h : WellFormed Number.Fits (maxDepth - 1) j) (hi : j.Integral)
    (unit : Nat) : parse (j.pretty unit ++ "\n").toList = .ok j :=
  (rereads_parse h unit).2 hi

/-- **What is read of a printed value differs from it in floats only.** -/
theorem maskFloats_of_parse_pretty {j v : Json} (h : WellFormed Number.Fits (maxDepth - 1) j)
    {unit : Nat} (hv : parse (j.pretty unit ++ "\n").toList = .ok v) : v.maskFloats = j.maskFloats :=
  (rereads_parse h unit).1 v hv

end CodeTidy.Json
