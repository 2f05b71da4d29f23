import CodeTidy.Proofs.Json.Spelling
import Mathlib.Data.List.Forall2

/-!
# What is read of a document

A value `Agrees` with a spelling when it has, wherever the spelling has an integer literal, the
number that is read for that literal.  `Json.parse` takes in every piece of a document as a whole
(`reads_of_writes`), so the value that it returns agrees with what the document writes
(`agrees_of_parse`).
-/

namespace CodeTidy

namespace Json

/-! ### Agreement -/

/-- Wherever the spelling has an integer literal, the value has the number that is read for it. -/
def Agrees (t : Spelling) (j : Json) : Prop :=
  ∀ (p : Route) (negative : Bool) (m : Nat), t.at? p = some (.number (.integer negative m)) →
    ∃ n, j.at? p = some (.number n) ∧ integerNumber? negative m = some n

/-- A member with the same key and a value that agrees. -/
def AgreesMember (written : String × Spelling) (read : String × Json) : Prop :=
  written.1 = read.1 ∧ Agrees written.2 read.2

/-- What is no number agrees if its parts do. -/
theorem agrees_of_parts {t : Spelling} {j : Json} (hnumber : ∀ l, t ≠ .number l)
    (hparts : ∀ step t', t.part? step = some t' → ∃ j', j.part? step = some j' ∧ Agrees t' j') :
    Agrees t j := by
  rintro (_ | ⟨step, p⟩) negative m hp
  · exact absurd (Option.some.inj hp) (hnumber _)
  · obtain ⟨t', ht, hp⟩ := Option.bind_eq_some_iff.1 hp
    obtain ⟨j', hj, hag⟩ := hparts step t' ht
    rw [Json.at?, hj]
    exact hag p negative m hp

theorem agrees_null (j : Json) : Agrees .null j :=
  agrees_of_parts (by simp) (by rintro (_ | _) <;> simp [Spelling.part?])

theorem agrees_bool (b : Bool) (j : Json) : Agrees (.bool b) j :=
  agrees_of_parts (by simp) (by rintro (_ | _) <;> simp [Spelling.part?])

theorem agrees_string (v : String) (j : Json) : Agrees (.string v) j :=
  agrees_of_parts (by simp) (by rintro (_ | _) <;> simp [Spelling.part?])

theorem agrees_number {l : Literal} {n : Number}
    (h : ∀ negative m, l = .integer negative m → integerNumber? negative m = some n) :
    Agrees (.number l) (.number n) := by
  rintro (_ | ⟨_ | _, _⟩) negative m hp
  · have hl : l = .integer negative m := by simpa [Spelling.at?] using hp
    exact ⟨n, rfl, h negative m hl⟩
  · simp [Spelling.at?, Spelling.part?] at hp
  · simp [Spelling.at?, Spelling.part?] at hp

theorem agrees_array {ts : List Spelling} {js : List Json} (h : List.Forall₂ Agrees ts js) :
    Agrees (.array ts) (.array js) := by
  refine agrees_of_parts (by simp) ?_
  rintro (_ | i) t ht
  · simp [Spelling.part?] at ht
  · obtain ⟨hi, rfl⟩ := List.getElem?_eq_some_iff.1 ht
    have hi' : i < js.length := h.length_eq ▸ hi
    exact ⟨js[i], List.getElem?_eq_getElem hi', h.get hi hi'⟩

theorem exists_lookup_of_forall₂ {key : String} {t : Spelling} :
    ∀ {ms : List (String × Spelling)} {js : Members}, List.Forall₂ AgreesMember ms js →
      ms.lookup key = some t → ∃ j, js.lookup key = some j ∧ Agrees t j
  | [], _, _, h => by simp at h
  | (k, t') :: ms, (k', j) :: js, .cons hm hms, h => by
    obtain ⟨hk, hj⟩ := hm
    dsimp only at hk hj
    subst hk
    rw [List.lookup_cons] at h ⊢
    cases hkey : key == k with
    | true =>
      rw [hkey] at h
      exact ⟨j, rfl, Option.some.inj h ▸ hj⟩
    | false =>
      rw [hkey] at h
      exact exists_lookup_of_forall₂ hms h

theorem agrees_object {ms : List (String × Spelling)} {js : List (String × Json)}
    (h : List.Forall₂ AgreesMember ms js) : Agrees (.object ms) (.object (Members.ofList js)) := by
  refine agrees_of_parts (by simp) ?_
  rintro (k | _) t ht
  · obtain ⟨j, hj, hag⟩ := exists_lookup_of_forall₂ (List.forall₂_reverse_iff.2 h) ht
    exact ⟨j, (Members.get?_ofList js k).trans hj, hag⟩
  · simp [Spelling.part?] at ht

/-! ### Blanks and what follows a value -/

theorem skipBlanks_token {b : List Char} {c : Char} (hb : Blanks b) (hc : isJsonBlank c = false)
    (s : List Char) : skipBlanks (b ++ c :: s) = c :: s := by
  rw [skipBlanks_append hb, skipBlanks_cons hc]

theorem stops_of_isJsonBlank {c : Char} (hc : isJsonBlank c = true) (s : List Char) :
    Stops (c :: s) := by
  simp only [isJsonBlank, Bool.or_eq_true, beq_iff_eq] at hc
  rcases hc with ((rfl | rfl) | rfl) | rfl <;> exact stops_cons (by decide)

/-- No number goes on with blanks, nor with what may follow them. -/
theorem stops_append {b s : List Char} (hb : Blanks b) (hs : Stops s) : Stops (b ++ s) := by
  cases b with
  | nil => exact hs
  | cons c b => exact stops_of_isJsonBlank (hb c List.mem_cons_self) _

theorem stops_blanks {b : List Char} (hb : Blanks b) : Stops b := by
  have hs := stops_append hb (s := []) (by simp [Stops])
  rwa [List.append_nil] at hs

theorem stops_items {ts : List Spelling} {u : List Char} (h : Writes (.items ts) u)
    (rest : List Char) : Stops (u ++ rest) := by
  cases h with
  | noItems hb =>
    rw [List.append_assoc]
    exact stops_append hb (stops_cons (by decide))
  | items hb =>
    rw [List.append_assoc]
    exact stops_append hb (stops_cons (by decide))

theorem stops_members {ms : List (String × Spelling)} {u : List Char} (h : Writes (.members ms) u)
    (rest : List Char) : Stops (u ++ rest) := by
  cases h with
  | noMembers hb =>
    rw [List.append_assoc]
    exact stops_append hb (stops_cons (by decide))
  | members hb =>
    rw [List.append_assoc]
    exact stops_append hb (stops_cons (by decide))

theorem Literal.exists_body_eq_cons (l : Literal) :
    ∃ c cs, l.body = c :: cs ∧ c.isDigit = true := by
  obtain ⟨c, cs, h⟩ := List.exists_cons_of_ne_nil (Nat.toDigits_ne_nil (b := 10) (n := l.whole))
  refine ⟨c, cs ++ l.tail, ?_, digits_toDigits l.whole c (h ▸ List.mem_cons_self)⟩
  rw [body, h, List.cons_append]

/-- A character with which a value can begin. -/
def BeginsValue (c : Char) : Prop :=
  c.isDigit = true ∨ c ∈ ['n', 't', 'f', '-', '"', '[', '{']

theorem BeginsValue.not_blank {c : Char} (h : BeginsValue c) : isJsonBlank c = false ∧ c ≠ ']' := by
  have hnames : ∀ c ∈ ['n', 't', 'f', '-', '"', '[', '{'], isJsonBlank c = false ∧ c ≠ ']' := by
    simp [isJsonBlank]
  exact h.elim isJsonBlank_of_isDigit (hnames c)

theorem head_value {t : Spelling} {s : List Char} (h : Writes (.value t) s) :
    ∃ c cs, s = c :: cs ∧ BeginsValue c := by
  cases h with
  | null => exact ⟨'n', _, rfl, .inr (by decide)⟩
  | true => exact ⟨'t', _, rfl, .inr (by decide)⟩
  | false => exact ⟨'f', _, rfl, .inr (by decide)⟩
  | number l =>
    obtain ⟨c, cs, hbody, hc⟩ := l.exists_body_eq_cons
    cases hneg : l.negative with
    | true => exact ⟨'-', l.body, by simp [Literal.text, hneg], .inr (by decide)⟩
    | false => exact ⟨c, cs, by simp [Literal.text, hneg, hbody], .inl hc⟩
  | string => exact ⟨'"', _, rfl, .inr (by decide)⟩
  | noArray => exact ⟨'[', _, rfl, .inr (by decide)⟩
  | array => exact ⟨'[', _, rfl, .inr (by decide)⟩
  | noObject => exact ⟨'{', _, rfl, .inr (by decide)⟩
  | object => exact ⟨'{', _, rfl, .inr (by decide)⟩

/-! ### Reading one piece -/

/-- Whatever is read where a piece of a document stands before `rest` agrees with the piece, and
`rest` is left. -/
def Phrase.Reads (s rest : List Char) : Phrase → Prop
  | .value t => ∀ fuel depth input j rest', skipBlanks input = s ++ rest →
      readValue fuel depth input = .ok (j, rest') → rest' = rest ∧ Agrees t j
  | .items ts => ∀ fuel depth js rest', readItems fuel depth (s ++ rest) = .ok (js, rest') →
      rest' = rest ∧ List.Forall₂ Agrees ts js
  | .members ms => ∀ fuel depth js rest', readMembers fuel depth (s ++ rest) = .ok (js, rest') →
      rest' = rest ∧ List.Forall₂ AgreesMember ms js

variable {s u rest : List Char} {t : Spelling}

theorem exists_fuel_of_readValue {fuel depth : Nat} {r : Json × List Char}
    (h : readValue fuel depth s = .ok r) : ∃ f, fuel = f + 1 := by
  cases fuel with
  | zero => simp [readValue] at h
  | succ fuel => exact ⟨fuel, rfl⟩

theorem exists_fuel_of_readItems {fuel depth : Nat} {r : List Json × List Char}
    (h : readItems fuel depth s = .ok r) : ∃ f, fuel = f + 1 := by
  cases fuel with
  | zero => simp [readItems] at h
  | succ fuel => exact ⟨fuel, rfl⟩

theorem exists_fuel_of_readMembers {fuel depth : Nat} {r : List (String × Json) × List Char}
    (h : readMembers fuel depth s = .ok r) : ∃ f, fuel = f + 1 := by
  cases fuel with
  | zero => simp [readMembers] at h
  | succ fuel => exact ⟨fuel, rfl⟩

theorem reads_name {v : Json} (name : List Char)
    (hread : ∀ fuel depth input, skipBlanks input = s ++ rest →
      readValue (fuel + 1) depth input = readName v name (name ++ rest))
    (hv : Agrees t v) : (Phrase.value t).Reads s rest := by
  intro fuel depth input j rest' hs h
  obtain ⟨fuel, rfl⟩ := exists_fuel_of_readValue h
  rw [hread fuel depth input hs, readName_append] at h
  obtain ⟨rfl, rfl⟩ := Prod.mk.inj (Except.ok.inj h)
  exact ⟨rfl, hv⟩

theorem readValue_of_literal {l : Literal} {input : List Char}
    (hs : skipBlanks input = l.text ++ rest) (fuel depth : Nat) :
    readValue (fuel + 1) depth input
      = (readNumber l.negative (l.body ++ rest)).map fun (n, rest) => (.number n, rest) := by
  obtain ⟨c, cs, hbody, hc⟩ := l.exists_body_eq_cons
  cases hneg : l.negative with
  | true =>
    rw [Literal.text, hneg] at hs
    exact readValue_of_minus hs fuel depth
  | false =>
    rw [Literal.text, hneg, hbody] at hs
    rw [readValue_of_digit hc hs, hbody]
    rfl

theorem reads_number (hr : Stops rest) (l : Literal) :
    (Phrase.value (.number l)).Reads l.text rest := by
  intro fuel depth input j rest' hs h
  obtain ⟨fuel, rfl⟩ := exists_fuel_of_readValue h
  rw [readValue_of_literal hs] at h
  obtain ⟨⟨n, r⟩, hn, e⟩ := map_eq_ok.1 h
  obtain ⟨rfl, rfl⟩ := Prod.mk.inj e
  refine ⟨l.rest_of_readNumber hr hn, agrees_number ?_⟩
  rintro negative m rfl
  rw [Literal.body_integer] at hn
  have hread := (readNumber_integer hr negative m).symm.trans hn
  cases hm : integerNumber? negative m with
  | none =>
    rw [hm] at hread
    simp [readAs] at hread
  | some k =>
    rw [hm] at hread
    exact congrArg some (Prod.mk.inj (Except.ok.inj hread)).1

theorem reads_string {q v : List Char} (hq : Quoted q v) :
    (Phrase.value (.string (String.ofList v))).Reads ('"' :: (q ++ ['"'])) rest := by
  intro fuel depth input j rest' hs h
  obtain ⟨fuel, rfl⟩ := exists_fuel_of_readValue h
  rw [List.cons_append, List.append_assoc] at hs
  rw [readValue, hs] at h
  dsimp only at h
  obtain ⟨⟨v', r⟩, hv, e⟩ := map_eq_ok.1 h
  obtain ⟨rfl, rfl⟩ := Prod.mk.inj e
  obtain ⟨-, rfl⟩ := Prod.mk.inj (Except.ok.inj ((readString_of_quoted hq rest).symm.trans hv))
  exact ⟨rfl, agrees_string _ _⟩

/-! ### Arrays -/

/-- A value after blanks, as it is looked for behind a bracket or a comma. -/
theorem skipBlanks_value {b : List Char} (hb : Blanks b) (ht : Writes (.value t) s)
    (more : List Char) :
    ∃ c cs, skipBlanks (b ++ (s ++ more)) = c :: cs ∧ c :: cs = s ++ more ∧
      skipBlanks (c :: cs) = s ++ more ∧ c ≠ ']' := by
  obtain ⟨c, cs, rfl, hbegins⟩ := head_value ht
  obtain ⟨hc, hne⟩ := hbegins.not_blank
  refine ⟨c, cs ++ more, ?_, rfl, skipBlanks_cons hc _, hne⟩
  rw [skipBlanks_append hb]
  exact skipBlanks_cons hc _

theorem one_lt_depth_of_bracket {fuel depth : Nat} {input cs : List Char} {r : Json × List Char}
    (hs : skipBlanks input = '[' :: cs) (h : readValue (fuel + 1) depth input = .ok r) :
    1 < depth := by
  by_contra hd
  rw [readValue, hs] at h
  simp [Nat.le_of_not_lt hd] at h

theorem reads_noArray {b : List Char} (hb : Blanks b) :
    (Phrase.value (.array [])).Reads ('[' :: (b ++ [']'])) rest := by
  intro fuel depth input j rest' hs h
  obtain ⟨fuel, rfl⟩ := exists_fuel_of_readValue h
  rw [List.cons_append, List.append_assoc] at hs
  have hd := one_lt_depth_of_bracket hs h
  have hclose : skipBlanks (b ++ ([']'] ++ rest)) = ']' :: rest :=
    skipBlanks_token hb (by decide) rest
  rw [readValue] at h
  simp only [hs, hclose, if_neg (Nat.not_le.2 hd)] at h
  obtain ⟨rfl, rfl⟩ := Prod.mk.inj (Except.ok.inj h)
  exact ⟨rfl, agrees_array .nil⟩

theorem reads_noItems {b : List Char} (hb : Blanks b) :
    (Phrase.items []).Reads (b ++ [']']) rest := by
  intro fuel depth js rest' h
  obtain ⟨fuel, rfl⟩ := exists_fuel_of_readItems h
  have hclose : skipBlanks (b ++ [']'] ++ rest) = ']' :: rest := by
    rw [List.append_assoc]
    exact skipBlanks_token hb (by decide) rest
  rw [readItems, hclose] at h
  obtain ⟨rfl, rfl⟩ := Prod.mk.inj (Except.ok.inj h)
  exact ⟨rfl, .nil⟩

/-- A value and the items after it, read one after the other. -/
theorem reads_thenItems {ts : List Spelling} {fuel depth : Nat} {input rest' : List Char}
    {js : List Json} (ht : ∀ more, Stops more → (Phrase.value t).Reads s more)
    (hts : (Phrase.items ts).Reads u rest) (hstops : Stops (u ++ rest))
    (hs : skipBlanks input = s ++ (u ++ rest))
    (h : (do
      let (item, r) ← readValue fuel depth input
      let (items, r) ← readItems fuel depth r
      return (item :: items, r)) = Except.ok (js, rest')) :
    rest' = rest ∧ List.Forall₂ Agrees (t :: ts) js := by
  obtain ⟨⟨j, r⟩, hj, h⟩ := bind_eq_ok.1 h
  obtain ⟨⟨js', r'⟩, hjs, h⟩ := bind_eq_ok.1 h
  obtain ⟨rfl, rfl⟩ := Prod.mk.inj (Except.ok.inj h)
  obtain ⟨rfl, hag⟩ := ht _ hstops fuel depth input j r hs hj
  obtain ⟨rfl, hags⟩ := hts fuel depth js' r' hjs
  exact ⟨rfl, .cons hag hags⟩

theorem reads_items {b b' : List Char} {ts : List Spelling} (hb : Blanks b) (hb' : Blanks b')
    (hw : Writes (.value t) s) (ht : ∀ more, Stops more → (Phrase.value t).Reads s more)
    (hts : (Phrase.items ts).Reads u rest) (hstops : Stops (u ++ rest)) :
    (Phrase.items (t :: ts)).Reads (b ++ ',' :: (b' ++ (s ++ u))) rest := by
  intro fuel depth js rest' h
  obtain ⟨fuel, rfl⟩ := exists_fuel_of_readItems h
  have hcomma : skipBlanks (b ++ ',' :: (b' ++ (s ++ u)) ++ rest)
      = ',' :: (b' ++ (s ++ (u ++ rest))) := by
    rw [List.append_assoc, List.cons_append, skipBlanks_token hb (by decide)]
    simp only [List.append_assoc]
  obtain ⟨c, cs, hskip, -, hs, hne⟩ := skipBlanks_value hb' hw (u ++ rest)
  rw [readItems_of_comma hcomma hskip hne] at h
  exact reads_thenItems ht hts hstops hs h

theorem reads_array {b : List Char} {ts : List Spelling} (hb : Blanks b)
    (hw : Writes (.value t) s) (ht : ∀ more, Stops more → (Phrase.value t).Reads s more)
    (hts : (Phrase.items ts).Reads u rest) (hstops : Stops (u ++ rest)) :
    (Phrase.value (.array (t :: ts))).Reads ('[' :: (b ++ (s ++ u))) rest := by
  intro fuel depth input j rest' hs h
  obtain ⟨fuel, rfl⟩ := exists_fuel_of_readValue h
  rw [List.cons_append, List.append_assoc, List.append_assoc] at hs
  have hd := one_lt_depth_of_bracket hs h
  obtain ⟨c, cs, hskip, -, hs', hne⟩ := skipBlanks_value hb hw (u ++ rest)
  rw [readValue_of_bracket hd hs hskip hne] at h
  obtain ⟨⟨js, r⟩, hjs, e⟩ := map_eq_ok.1 h
  obtain ⟨rfl, rfl⟩ := Prod.mk.inj e
  obtain ⟨hrest, hag⟩ := reads_thenItems ht hts hstops hs' hjs
  exact ⟨hrest, agrees_array hag⟩

/-! ### Objects -/

theorem readKey_of_writtenKey {k : String} {w : List Char} (h : WrittenKey k w)
    (more : List Char) :
    ∃ b cs, Blanks b ∧ w ++ more = '"' :: cs ∧ readKey cs = .ok (k, b ++ more) := by
  obtain ⟨hq, hb, hb'⟩ := h
  rename_i q v b b'
  refine ⟨b', q ++ '"' :: (b ++ ':' :: (b' ++ more)), hb', by simp, ?_⟩
  rw [readKey, readString_of_quoted hq]
  simp only [bind, Except.bind, skipBlanks_append hb, skipBlanks_cons (c := ':') (by decide)]
  rfl

theorem one_lt_depth_of_brace {fuel depth : Nat} {input cs : List Char} {r : Json × List Char}
    (hs : skipBlanks input = '{' :: cs) (h : readValue (fuel + 1) depth input = .ok r) :
    1 < depth := by
  by_contra hd
  rw [readValue, hs] at h
  simp [Nat.le_of_not_lt hd] at h

theorem reads_noObject {b : List Char} (hb : Blanks b) :
    (Phrase.value (.object [])).Reads ('{' :: (b ++ ['}'])) rest := by
  intro fuel depth input j rest' hs h
  obtain ⟨fuel, rfl⟩ := exists_fuel_of_readValue h
  rw [List.cons_append, List.append_assoc] at hs
  have hd := one_lt_depth_of_brace hs h
  have hclose : skipBlanks (b ++ (['}'] ++ rest)) = '}' :: rest :=
    skipBlanks_token hb (by decide) rest
  rw [readValue] at h
  simp only [hs, hclose, if_neg (Nat.not_le.2 hd)] at h
  obtain ⟨rfl, rfl⟩ := Prod.mk.inj (Except.ok.inj h)
  exact ⟨rfl, agrees_object .nil⟩

theorem reads_noMembers {b : List Char} (hb : Blanks b) :
    (Phrase.members []).Reads (b ++ ['}']) rest := by
  intro fuel depth js rest' h
  obtain ⟨fuel, rfl⟩ := exists_fuel_of_readMembers h
  have hclose : skipBlanks (b ++ ['}'] ++ rest) = '}' :: rest := by
    rw [List.append_assoc]
    exact skipBlanks_token hb (by decide) rest
  rw [readMembers, hclose] at h
  obtain ⟨rfl, rfl⟩ := Prod.mk.inj (Except.ok.inj h)
  exact ⟨rfl, .nil⟩

/-- The value of a key and the members after it, read one after the other. -/
theorem reads_thenMembers {k : String} {ms : List (String × Spelling)} {fuel depth : Nat}
    {input rest' : List Char} {js : List (String × Json)}
    (ht : ∀ more, Stops more → (Phrase.value t).Reads s more)
    (hms : (Phrase.members ms).Reads u rest) (hstops : Stops (u ++ rest))
    (hs : skipBlanks input = s ++ (u ++ rest))
    (h : (do
      let (value, r) ← readValue fuel depth input
      let (members, r) ← readMembers fuel depth r
      return ((k, value) :: members, r)) = Except.ok (js, rest')) :
    rest' = rest ∧ List.Forall₂ AgreesMember ((k, t) :: ms) js := by
  obtain ⟨⟨j, r⟩, hj, h⟩ := bind_eq_ok.1 h
  obtain ⟨⟨js', r'⟩, hjs, h⟩ := bind_eq_ok.1 h
  obtain ⟨rfl, rfl⟩ := Prod.mk.inj (Except.ok.inj h)
  obtain ⟨rfl, hag⟩ := ht _ hstops fuel depth input j r hs hj
  obtain ⟨rfl, hags⟩ := hms fuel depth js' r' hjs
  exact ⟨rfl, .cons ⟨rfl, hag⟩ hags⟩

/-- A value after blanks is found behind them. -/
theorem skipBlanks_of_writes {b : List Char} (hb : Blanks b) (ht : Writes (.value t) s)
    (more : List Char) : skipBlanks (b ++ (s ++ more)) = s ++ more := by
  obtain ⟨c, cs, hskip, e, -, -⟩ := skipBlanks_value hb ht more
  rw [hskip, e]

theorem reads_members {b b' w : List Char} {k : String} {ms : List (String × Spelling)}
    (hb : Blanks b) (hb' : Blanks b') (hk : WrittenKey k w) (hw : Writes (.value t) s)
    (ht : ∀ more, Stops more → (Phrase.value t).Reads s more)
    (hms : (Phrase.members ms).Reads u rest) (hstops : Stops (u ++ rest)) :
    (Phrase.members ((k, t) :: ms)).Reads (b ++ ',' :: (b' ++ (w ++ (s ++ u)))) rest := by
  intro fuel depth js rest' h
  obtain ⟨fuel, rfl⟩ := exists_fuel_of_readMembers h
  have hcomma : skipBlanks (b ++ ',' :: (b' ++ (w ++ (s ++ u))) ++ rest)
      = ',' :: (b' ++ (w ++ (s ++ (u ++ rest)))) := by
    rw [List.append_assoc, List.cons_append, skipBlanks_token hb (by decide)]
    simp only [List.append_assoc]
  obtain ⟨b'', cs, hb'', hquote, hkey⟩ := readKey_of_writtenKey hk (s ++ (u ++ rest))
  have hskip : skipBlanks (b' ++ (w ++ (s ++ (u ++ rest)))) = '"' :: cs := by
    rw [hquote, skipBlanks_token hb' (by decide)]
  rw [readMembers_of_comma hcomma hskip hkey] at h
  exact reads_thenMembers ht hms hstops (skipBlanks_of_writes hb'' hw _) h

theorem reads_object {b w : List Char} {k : String} {ms : List (String × Spelling)}
    (hb : Blanks b) (hk : WrittenKey k w) (hw : Writes (.value t) s)
    (ht : ∀ more, Stops more → (Phrase.value t).Reads s more)
    (hms : (Phrase.members ms).Reads u rest) (hstops : Stops (u ++ rest)) :
    (Phrase.value (.object ((k, t) :: ms))).Reads ('{' :: (b ++ (w ++ (s ++ u)))) rest := by
  intro fuel depth input j rest' hs h
  obtain ⟨fuel, rfl⟩ := exists_fuel_of_readValue h
  rw [List.cons_append, List.append_assoc, List.append_assoc, List.append_assoc] at hs
  have hd := one_lt_depth_of_brace hs h
  obtain ⟨b', cs, hb', hquote, hkey⟩ := readKey_of_writtenKey hk (s ++ (u ++ rest))
  have hskip : skipBlanks (b ++ (w ++ (s ++ (u ++ rest)))) = '"' :: cs := by
    rw [hquote, skipBlanks_token hb (by decide)]
  rw [readValue_of_brace hd hs hskip hkey] at h
  obtain ⟨⟨js, r⟩, hjs, e⟩ := map_eq_ok.1 h
  obtain ⟨rfl, rfl⟩ := Prod.mk.inj e
  obtain ⟨hrest, hag⟩ := reads_thenMembers ht hms hstops (skipBlanks_of_writes hb' hw _) hjs
  exact ⟨hrest, agrees_object hag⟩

/-! ### Reading whole documents -/

/-- **Every piece of a document is taken in as a whole and agrees with what is read.** -/
theorem reads_of_writes {phrase : Phrase} (h : Writes phrase s) :
    ∀ rest, Stops rest → phrase.Reads s rest := by
  induction h with
  | null =>
    refine fun rest _ => reads_name "ull".toList (fun fuel depth input hs => ?_) (agrees_null .null)
    rw [readValue, hs]
    rfl
  | true =>
    refine fun rest _ => reads_name "rue".toList (fun fuel depth input hs => ?_)
      (agrees_bool true (.bool true))
    rw [readValue, hs]
    rfl
  | false =>
    refine fun rest _ => reads_name "alse".toList (fun fuel depth input hs => ?_)
      (agrees_bool false (.bool false))
    rw [readValue, hs]
    rfl
  | number l => exact fun rest hr => reads_number hr l
  | string hq => exact fun rest _ => reads_string hq
  | noArray hb => exact fun rest _ => reads_noArray hb
  | array hb hw hws iht ihts =>
    exact fun rest hr => reads_array hb hw iht (ihts rest hr) (stops_items hws rest)
  | noItems hb => exact fun rest _ => reads_noItems hb
  | items hb hb' hw hws iht ihts =>
    exact fun rest hr => reads_items hb hb' hw iht (ihts rest hr) (stops_items hws rest)
  | noObject hb => exact fun rest _ => reads_noObject hb
  | object hb hk hw hws iht ihms =>
    exact fun rest hr => reads_object hb hk hw iht (ihms rest hr) (stops_members hws rest)
  | noMembers hb => exact fun rest _ => reads_noMembers hb
  | members hb hb' hk hw hws iht ihms =>
    exact fun rest hr => reads_members hb hb' hk hw iht (ihms rest hr) (stops_members hws rest)

/-- **The value that is read of a document agrees with what the document writes.** -/
theorem agrees_of_parse {text : List Char} {j : Json} (hdoc : Document t text)
    (h : parse text = .ok j) : Agrees t j := by
  obtain ⟨hb, hw, hb'⟩ := hdoc
  rename_i b s b'
  obtain ⟨⟨v, r⟩, hv, h⟩ := bind_eq_ok.1 h
  have hag :=
    (reads_of_writes hw b' (stops_blanks hb') _ _ _ v r (skipBlanks_of_writes hb hw b') hv).2
  dsimp only at h
  split at h
  · exact Except.ok.inj h ▸ hag
  · simp [throw, throwThe, MonadExceptOf.throw] at h

end Json

end CodeTidy
