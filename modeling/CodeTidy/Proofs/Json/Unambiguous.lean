import CodeTidy.Proofs.Json.Reading

/-!
# A document is written in one way

A literal and a piece of a document are determined by the text in which they stand, whatever follows
(`Literal.unique`, `only_of_writes`).  So a text is the document of at most one spelling
(`Document.unique`).
-/

namespace CodeTidy

namespace Json

variable {s s' u u' rest rest' : List Char}

/-! ### Literals -/

theorem digits_unique {ds ds' : List Char} (hd : Digits ds) (hd' : Digits ds') (hr : NoDigit rest)
    (hr' : NoDigit rest') (h : ds ++ rest = ds' ++ rest') : ds' = ds ∧ rest' = rest := by
  have hrest : rest' = rest := by
    rw [← dropWhile_digits hr ds hd, h, dropWhile_digits hr' ds' hd']
  subst hrest
  exact ⟨(List.append_cancel_right h).symm, rfl⟩

theorem toDigits_inj {m m' : Nat} (h : Nat.toDigits 10 m = Nat.toDigits 10 m') : m = m' := by
  rw [← Nat.ofDigitChars_ten_toDigits (n := m), h, Nat.ofDigitChars_ten_toDigits]

/-- A sign is told from the digit after it. -/
theorem sign_unique {sign sign' : List Char} {c c' : Char}
    (hs : sign = [] ∨ sign = ['+'] ∨ sign = ['-'])
    (hs' : sign' = [] ∨ sign' = ['+'] ∨ sign' = ['-']) (hc : c.isDigit = true)
    (hc' : c'.isDigit = true) (h : sign ++ c :: s = sign' ++ c' :: s') :
    sign' = sign ∧ c' :: s' = c :: s := by
  have hplus : c ≠ '+' ∧ '+' ≠ c' :=
    ⟨ne_of_isDigit hc (by decide), (ne_of_isDigit hc' (by decide)).symm⟩
  have hminus : c ≠ '-' ∧ '-' ≠ c' :=
    ⟨ne_of_isDigit hc (by decide), (ne_of_isDigit hc' (by decide)).symm⟩
  rcases hs with rfl | rfl | rfl <;> rcases hs' with rfl | rfl | rfl <;> simp_all

theorem Exponent.unique {e e' : Exponent} (hr : NoDigit rest) (hr' : NoDigit rest')
    (h : e.text ++ rest = e'.text ++ rest') : e' = e ∧ rest' = rest := by
  obtain ⟨mark, sign, digits, hm, hs, hd, hne⟩ := e
  obtain ⟨mark', sign', digits', hm', hs', hd', hne'⟩ := e'
  obtain ⟨c, cs, rfl⟩ := List.exists_cons_of_ne_nil hne
  obtain ⟨c', cs', rfl⟩ := List.exists_cons_of_ne_nil hne'
  simp only [text, List.cons_append, List.append_assoc] at h
  obtain ⟨rfl, hafter⟩ := List.cons.inj h
  obtain ⟨rfl, hdigits⟩ :=
    sign_unique hs hs' (hd c List.mem_cons_self) (hd' c' List.mem_cons_self) hafter
  obtain ⟨hds, rfl⟩ := digits_unique hd hd' hr hr' hdigits.symm
  obtain ⟨rfl, rfl⟩ := List.cons.inj hds
  exact ⟨rfl, rfl⟩

/-- The text of an exponent that may be left out. -/
def scaleText (e? : Option Exponent) : List Char :=
  e?.elim [] Exponent.text

/-- An exponent, or what follows a number, begins neither with a digit nor with a point. -/
theorem head_scaleText (hr : Stops rest) (e? : Option Exponent) :
    ∀ c ∈ (scaleText e? ++ rest).head?, c.isDigit = false ∧ c ≠ '.' := by
  intro c hc
  cases e? with
  | none => exact ⟨(hr c hc).1, (hr c hc).2.1⟩
  | some e =>
    obtain rfl : e.mark = c := by simpa [scaleText, Exponent.text] using hc
    rcases e.isMark with hm | hm <;> rw [hm] <;> decide

theorem scale_unique {e? f? : Option Exponent} (hr : Stops rest) (hr' : Stops rest')
    (h : scaleText e? ++ rest = scaleText f? ++ rest') : f? = e? ∧ rest' = rest := by
  have hmark : ∀ {e : Exponent} {x y : List Char}, Stops x → x ≠ e.text ++ y := by
    rintro e x y hx rfl
    obtain ⟨-, -, he, hE⟩ := hx e.mark rfl
    exact e.isMark.elim he hE
  cases e? with
  | none =>
    cases f? with
    | none => exact ⟨rfl, h.symm⟩
    | some e' => exact absurd h (hmark hr)
  | some e =>
    cases f? with
    | none => exact absurd h.symm (hmark hr')
    | some e' =>
      obtain ⟨rfl, rfl⟩ := Exponent.unique hr.noDigit hr'.noDigit h
      exact ⟨rfl, rfl⟩

namespace Literal

theorem tail_eq (l : Literal) :
    l.tail = (if l.fraction = [] then [] else '.' :: l.fraction) ++ scaleText l.exponent? := rfl

theorem noDigit_tail (hr : Stops rest) (l : Literal) : NoDigit (l.tail ++ rest) := by
  rcases l.eq_integer_or_floatTail with hl | ht
  · rw [hl]
    exact hr.noDigit
  · exact ht.noDigit

theorem tail_unique {l l' : Literal} (hr : Stops rest) (hr' : Stops rest')
    (h : l.tail ++ rest = l'.tail ++ rest') :
    l'.fraction = l.fraction ∧ l'.exponent? = l.exponent? ∧ rest' = rest := by
  have hhead := head_scaleText hr l.exponent?
  have hnext := head_scaleText hr' l'.exponent?
  rw [tail_eq, tail_eq, List.append_assoc, List.append_assoc] at h
  split_ifs at h with hf hf' hf'
  · obtain ⟨he, hrest⟩ := scale_unique hr hr' h
    exact ⟨hf'.trans hf.symm, he, hrest⟩
  · rw [List.nil_append] at h
    exact absurd rfl (hhead '.' (h ▸ rfl)).2
  · rw [List.nil_append] at h
    exact absurd rfl (hnext '.' (h ▸ rfl)).2
  · obtain ⟨-, h⟩ := List.cons.inj h
    obtain ⟨hfraction, h⟩ := digits_unique l.isDigits l'.isDigits (fun c hc => (hhead c hc).1)
      (fun c hc => (hnext c hc).1) h
    obtain ⟨he, hrest⟩ := scale_unique hr hr' h.symm
    exact ⟨hfraction, he, hrest⟩

theorem body_unique {l l' : Literal} (hneg : l'.negative = l.negative) (hr : Stops rest)
    (hr' : Stops rest') (h : l.body ++ rest = l'.body ++ rest') : l' = l ∧ rest' = rest := by
  rw [body, body, List.append_assoc, List.append_assoc] at h
  obtain ⟨hwhole, htail⟩ := digits_unique (digits_toDigits _) (digits_toDigits _)
    (noDigit_tail hr l) (noDigit_tail hr' l') h
  obtain ⟨hfraction, he, hrest⟩ := tail_unique hr hr' htail.symm
  have hw := toDigits_inj hwhole
  refine ⟨?_, hrest⟩
  cases l
  cases l'
  simp_all

/-- The text of a literal begins with its sign, or else with a digit. -/
theorem head_text (l : Literal) (rest : List Char) :
    (l.text ++ rest).head? = some '-' ↔ l.negative = true := by
  obtain ⟨c, cs, hbody, hc⟩ := l.exists_body_eq_cons
  cases hneg : l.negative with
  | true => simp [text, hneg]
  | false => simpa [text, hneg, hbody] using ne_of_isDigit hc (by decide)

/-- **A literal is determined by its text, whatever follows.** -/
theorem unique {l l' : Literal} (hr : Stops rest) (hr' : Stops rest')
    (h : l.text ++ rest = l'.text ++ rest') : l' = l ∧ rest' = rest := by
  have hneg : l'.negative = l.negative := by
    rw [Bool.eq_iff_iff, ← head_text l rest, ← head_text l' rest', h]
  refine body_unique hneg hr hr' ?_
  rw [text, text, hneg, List.append_assoc, List.append_assoc] at h
  exact List.append_cancel_left h

end Literal

/-! ### Values -/

theorem quoted_unique {q q' v v' : List Char} (hq : Quoted q v) (hq' : Quoted q' v')
    (h : q ++ '"' :: rest = q' ++ '"' :: rest') : v' = v ∧ rest' = rest := by
  have hread := readString_of_quoted hq rest
  rw [h, readString_of_quoted hq' rest'] at hread
  exact Prod.mk.inj (Except.ok.inj hread)

theorem writtenKey_unique {k k' : String} {w w' : List Char} (hk : WrittenKey k w)
    (hk' : WrittenKey k' w') (h : w ++ rest = w' ++ rest') :
    k' = k ∧ skipBlanks rest' = skipBlanks rest := by
  obtain ⟨b, cs, hb, hw, hkey⟩ := readKey_of_writtenKey hk rest
  obtain ⟨b', cs', hb', hw', hkey'⟩ := readKey_of_writtenKey hk' rest'
  obtain ⟨-, rfl⟩ := List.cons.inj (hw.symm.trans (h.trans hw'))
  obtain ⟨hk, hrest⟩ := Prod.mk.inj (Except.ok.inj (hkey'.symm.trans hkey))
  exact ⟨hk, by rw [← skipBlanks_append hb', hrest, skipBlanks_append hb]⟩

/-- Two spellings of one kind. -/
inductive Spelling.Alike : Spelling → Spelling → Prop where
  | null : Alike .null .null
  | bool (b : Bool) : Alike (.bool b) (.bool b)
  | number (l l' : Literal) : Alike (.number l) (.number l')
  | string (v v' : String) : Alike (.string v) (.string v')
  | array (ts ts' : List Spelling) : Alike (.array ts) (.array ts')
  | object (ms ms' : List (String × Spelling)) : Alike (.object ms) (.object ms')

/-- The character with which a spelling of a kind begins; for numbers, one of them. -/
def Spelling.opening : Spelling → Char
  | .null => 'n'
  | .bool b => if b then 't' else 'f'
  | .number _ => '0'
  | .string _ => '"'
  | .array _ => '['
  | .object _ => '{'

/-- The kind that a first character announces. -/
def openingOf (c : Char) : Char :=
  if c.isDigit ∨ c = '-' then '0' else c

theorem alike_of_opening {t t' : Spelling} (h : t.opening = t'.opening) : t.Alike t' := by
  cases t <;> cases t' <;> simp only [Spelling.opening] at h
  case bool.bool b b' =>
    obtain rfl : b = b' := by
      cases b <;> cases b' <;> first | rfl | exact absurd h (by decide)
    exact .bool b
  all_goals first
    | constructor
    | exact absurd h (by decide)
    | split at h <;> exact absurd h (by decide)

theorem opening_of_writes {t : Spelling} (h : Writes (.value t) s) (rest : List Char) :
    (s ++ rest).head?.map openingOf = some t.opening := by
  cases h with
  | number l =>
    obtain ⟨c, cs, hbody, hc⟩ := l.exists_body_eq_cons
    cases hneg : l.negative with
    | true => simp [Literal.text, hneg, openingOf, Spelling.opening]
    | false => simp [Literal.text, hneg, hbody, hc, openingOf, Spelling.opening]
  | _ => rfl

theorem alike_of_writes {t t' : Spelling} (ht : Writes (.value t) s) (ht' : Writes (.value t') s')
    (h : s ++ rest = s' ++ rest') : t.Alike t' := by
  have hopening := opening_of_writes ht rest
  rw [h, opening_of_writes ht' rest'] at hopening
  exact alike_of_opening (Option.some.inj hopening).symm

/-- A piece of a document is the only one that stands where it stands before `rest`. -/
def Phrase.Only (s rest : List Char) : Phrase → Prop
  | .value t => ∀ t' s' rest', Writes (.value t') s' → Stops rest' → s ++ rest = s' ++ rest' →
      t' = t ∧ rest' = rest
  | .items ts => ∀ ts' s' rest', Writes (.items ts') s' → Stops rest' → s ++ rest = s' ++ rest' →
      ts' = ts ∧ rest' = rest
  | .members ms => ∀ ms' s' rest', Writes (.members ms') s' → Stops rest' →
      s ++ rest = s' ++ rest' → ms' = ms ∧ rest' = rest

variable {t t' : Spelling} {ts ts' : List Spelling} {ms ms' : List (String × Spelling)}

theorem only_string {q v : List Char} (hq : Quoted q v) :
    (Phrase.value (.string (String.ofList v))).Only ('"' :: (q ++ ['"'])) rest := by
  intro t' s' rest' ht' hr' h
  cases alike_of_writes (.string hq) ht' h
  cases ht' with
  | string hq' =>
    rw [List.cons_append, List.cons_append, List.append_assoc, List.append_assoc] at h
    obtain ⟨rfl, rfl⟩ := quoted_unique hq hq' (List.cons.inj h).2
    exact ⟨rfl, rfl⟩

theorem only_thenItems (ht : ∀ more, Stops more → (Phrase.value t).Only s more)
    (hts : (Phrase.items ts).Only u rest) (hw : Writes (.items ts) u)
    (ht' : Writes (.value t') s') (hts' : Writes (.items ts') u') (hr' : Stops rest')
    (h : s ++ (u ++ rest) = s' ++ (u' ++ rest')) : t' :: ts' = t :: ts ∧ rest' = rest := by
  obtain ⟨rfl, hmore⟩ := ht _ (stops_items hw rest) t' s' _ ht' (stops_items hts' rest') h
  obtain ⟨rfl, hrest⟩ := hts ts' u' rest' hts' hr' hmore.symm
  exact ⟨rfl, hrest⟩

theorem only_thenMembers (ht : ∀ more, Stops more → (Phrase.value t).Only s more)
    (hms : (Phrase.members ms).Only u rest) (hw : Writes (.members ms) u)
    (ht' : Writes (.value t') s') (hms' : Writes (.members ms') u') (hr' : Stops rest')
    (h : s ++ (u ++ rest) = s' ++ (u' ++ rest')) : t' = t ∧ ms' = ms ∧ rest' = rest := by
  obtain ⟨rfl, hmore⟩ := ht _ (stops_members hw rest) t' s' _ ht' (stops_members hms' rest') h
  exact ⟨rfl, hms ms' u' rest' hms' hr' hmore.symm⟩

section blanks

variable {b b' : List Char} (hb : Blanks b) (hb' : Blanks b')

include hb hb'

theorem tokens_eq {c c' : Char} (hc : isJsonBlank c = false) (hc' : isJsonBlank c' = false)
    (h : b ++ c :: s = b' ++ c' :: s') : c = c' ∧ s = s' := by
  have hs := congrArg skipBlanks h
  rw [skipBlanks_token hb hc, skipBlanks_token hb' hc'] at hs
  exact List.cons.inj hs

theorem values_eq (ht : Writes (.value t) s) (ht' : Writes (.value t') s')
    (h : b ++ (s ++ rest) = b' ++ (s' ++ rest')) : s ++ rest = s' ++ rest' := by
  have hs := congrArg skipBlanks h
  rwa [skipBlanks_of_writes hb ht, skipBlanks_of_writes hb' ht'] at hs

theorem bracket_ne (ht' : Writes (.value t') s') : b ++ ']' :: rest ≠ b' ++ (s' ++ rest') := by
  intro h
  have hs := congrArg skipBlanks h
  obtain ⟨c, cs, hskip, -, -, hne⟩ := skipBlanks_value hb' ht' rest'
  rw [skipBlanks_token hb (by decide), hskip] at hs
  exact hne (List.cons.inj hs).1.symm

theorem brace_ne {k : String} {w : List Char} (hk : WrittenKey k w) :
    b ++ '}' :: rest ≠ b' ++ (w ++ rest') := by
  intro h
  have hs := congrArg skipBlanks h
  obtain ⟨b'', cs, -, hw, -⟩ := readKey_of_writtenKey hk rest'
  rw [hw, skipBlanks_token hb (by decide), skipBlanks_token hb' (by decide)] at hs
  exact absurd (List.cons.inj hs).1 (by decide)

/-- What stands after equal blanks and keys. -/
theorem keys_eq {k k' : String} {w w' : List Char} (hk : WrittenKey k w) (hk' : WrittenKey k' w')
    (ht : Writes (.value t) s) (ht' : Writes (.value t') s')
    (h : b ++ (w ++ (s ++ rest)) = b' ++ (w' ++ (s' ++ rest'))) :
    k' = k ∧ s ++ rest = s' ++ rest' := by
  obtain ⟨b₁, cs, hb₁, hw, -⟩ := readKey_of_writtenKey hk (s ++ rest)
  obtain ⟨b₂, cs', hb₂, hw', -⟩ := readKey_of_writtenKey hk' (s' ++ rest')
  have htokens : w ++ (s ++ rest) = w' ++ (s' ++ rest') := by
    rw [hw, hw'] at h ⊢
    rw [(tokens_eq hb hb' (by decide) (by decide) h).2]
  obtain ⟨hkeys, hskip⟩ := writtenKey_unique hk hk' htokens
  have hs := skipBlanks_of_writes (b := []) blanks_nil ht rest
  have hs' := skipBlanks_of_writes (b := []) blanks_nil ht' rest'
  rw [List.nil_append] at hs hs'
  exact ⟨hkeys, by rw [← hs, ← hs', hskip]⟩

end blanks

theorem only_array {b : List Char} (hb : Blanks b) (hw : Writes (.value t) s)
    (hws : Writes (.items ts) u) (ht : ∀ more, Stops more → (Phrase.value t).Only s more)
    (hts : (Phrase.items ts).Only u rest) :
    (Phrase.value (.array (t :: ts))).Only ('[' :: (b ++ (s ++ u))) rest := by
  intro t' s' rest' ht' hr' h
  cases alike_of_writes (.array hb hw hws) ht' h
  cases ht' with
  | noArray hb' =>
    simp only [List.cons_append, List.append_assoc, List.cons.injEq, true_and] at h
    exact absurd h.symm (bracket_ne hb' hb hw)
  | array hb' ht' hts' =>
    simp only [List.cons_append, List.append_assoc, List.cons.injEq, true_and] at h
    obtain ⟨e, hrest⟩ := only_thenItems ht hts hws ht' hts' hr' (values_eq hb hb' hw ht' h)
    exact ⟨congrArg Spelling.array e, hrest⟩

theorem only_noArray {b : List Char} (hb : Blanks b) :
    (Phrase.value (.array [])).Only ('[' :: (b ++ [']'])) rest := by
  intro t' s' rest' ht' hr' h
  cases alike_of_writes (.noArray hb) ht' h
  cases ht' with
  | noArray hb' =>
    simp only [List.cons_append, List.append_assoc, List.cons.injEq, true_and] at h
    exact ⟨rfl, (tokens_eq hb hb' (by decide) (by decide) h).2.symm⟩
  | array hb' ht' hts' =>
    simp only [List.cons_append, List.append_assoc, List.cons.injEq, true_and] at h
    exact absurd h (bracket_ne hb hb' ht')

theorem only_noItems {b : List Char} (hb : Blanks b) : (Phrase.items []).Only (b ++ [']']) rest := by
  intro ts' s' rest' hts' hr' h
  cases hts' with
  | noItems hb' =>
    rw [List.append_assoc, List.append_assoc] at h
    exact ⟨rfl, (tokens_eq hb hb' (by decide) (by decide) h).2.symm⟩
  | items hb' =>
    rw [List.append_assoc, List.append_assoc] at h
    exact absurd (tokens_eq hb hb' (by decide) (by decide) h).1 (by decide)

theorem only_items {b b₁ : List Char} (hb : Blanks b) (hb₁ : Blanks b₁) (hw : Writes (.value t) s)
    (hws : Writes (.items ts) u) (ht : ∀ more, Stops more → (Phrase.value t).Only s more)
    (hts : (Phrase.items ts).Only u rest) :
    (Phrase.items (t :: ts)).Only (b ++ ',' :: (b₁ ++ (s ++ u))) rest := by
  intro ts' s' rest' hts' hr' h
  cases hts' with
  | noItems hb' =>
    rw [List.append_assoc, List.append_assoc] at h
    exact absurd (tokens_eq hb hb' (by decide) (by decide) h).1 (by decide)
  | items hb' hb₂ ht' hts' =>
    simp only [List.append_assoc, List.cons_append] at h
    have hvalues := (tokens_eq hb hb' (by decide) (by decide) h).2
    exact only_thenItems ht hts hws ht' hts' hr' (values_eq hb₁ hb₂ hw ht' hvalues)

theorem only_noObject {b : List Char} (hb : Blanks b) :
    (Phrase.value (.object [])).Only ('{' :: (b ++ ['}'])) rest := by
  intro t' s' rest' ht' hr' h
  cases alike_of_writes (.noObject hb) ht' h
  cases ht' with
  | noObject hb' =>
    simp only [List.cons_append, List.append_assoc, List.cons.injEq, true_and] at h
    exact ⟨rfl, (tokens_eq hb hb' (by decide) (by decide) h).2.symm⟩
  | object hb' hk' ht' hms' =>
    simp only [List.cons_append, List.append_assoc, List.cons.injEq, true_and] at h
    exact absurd h (brace_ne hb hb' hk')

theorem only_object {b w : List Char} {k : String} (hb : Blanks b) (hk : WrittenKey k w)
    (hw : Writes (.value t) s) (hws : Writes (.members ms) u)
    (ht : ∀ more, Stops more → (Phrase.value t).Only s more)
    (hms : (Phrase.members ms).Only u rest) :
    (Phrase.value (.object ((k, t) :: ms))).Only ('{' :: (b ++ (w ++ (s ++ u)))) rest := by
  intro t' s' rest' ht' hr' h
  cases alike_of_writes (.object hb hk hw hws) ht' h
  cases ht' with
  | noObject hb' =>
    simp only [List.cons_append, List.append_assoc, List.cons.injEq, true_and] at h
    exact absurd h.symm (brace_ne hb' hb hk)
  | object hb' hk' ht' hms' =>
    simp only [List.cons_append, List.append_assoc, List.cons.injEq, true_and] at h
    obtain ⟨rfl, hvalues⟩ := keys_eq hb hb' hk hk' hw ht' h
    obtain ⟨rfl, rfl, hrest⟩ := only_thenMembers ht hms hws ht' hms' hr' hvalues
    exact ⟨rfl, hrest⟩

theorem only_noMembers {b : List Char} (hb : Blanks b) :
    (Phrase.members []).Only (b ++ ['}']) rest := by
  intro ms' s' rest' hms' hr' h
  cases hms' with
  | noMembers hb' =>
    rw [List.append_assoc, List.append_assoc] at h
    exact ⟨rfl, (tokens_eq hb hb' (by decide) (by decide) h).2.symm⟩
  | members hb' =>
    rw [List.append_assoc, List.append_assoc] at h
    exact absurd (tokens_eq hb hb' (by decide) (by decide) h).1 (by decide)

theorem only_members {b b₁ w : List Char} {k : String} (hb : Blanks b) (hb₁ : Blanks b₁)
    (hk : WrittenKey k w) (hw : Writes (.value t) s) (hws : Writes (.members ms) u)
    (ht : ∀ more, Stops more → (Phrase.value t).Only s more)
    (hms : (Phrase.members ms).Only u rest) :
    (Phrase.members ((k, t) :: ms)).Only (b ++ ',' :: (b₁ ++ (w ++ (s ++ u)))) rest := by
  intro ms' s' rest' hms' hr' h
  cases hms' with
  | noMembers hb' =>
    rw [List.append_assoc, List.append_assoc] at h
    exact absurd (tokens_eq hb hb' (by decide) (by decide) h).1 (by decide)
  | members hb' hb₂ hk' ht' hms' =>
    simp only [List.append_assoc, List.cons_append] at h
    have hkeys := (tokens_eq hb hb' (by decide) (by decide) h).2
    obtain ⟨rfl, hvalues⟩ := keys_eq hb₁ hb₂ hk hk' hw ht' hkeys
    obtain ⟨rfl, rfl, hrest⟩ := only_thenMembers ht hms hws ht' hms' hr' hvalues
    exact ⟨rfl, hrest⟩

/-- **Every piece of a document is the only one that stands where it stands.** -/
theorem only_of_writes {phrase : Phrase} (h : Writes phrase s) :
    ∀ rest, Stops rest → phrase.Only s rest := by
  induction h with
  | null =>
    intro rest hr t' s' rest' ht' hr' h
    cases alike_of_writes .null ht' h
    cases ht'
    exact ⟨rfl, (List.append_cancel_left h).symm⟩
  | true =>
    intro rest hr t' s' rest' ht' hr' h
    cases alike_of_writes .true ht' h
    cases ht'
    exact ⟨rfl, (List.append_cancel_left h).symm⟩
  | false =>
    intro rest hr t' s' rest' ht' hr' h
    cases alike_of_writes .false ht' h
    cases ht'
    exact ⟨rfl, (List.append_cancel_left h).symm⟩
  | number l =>
    intro rest hr t' s' rest' ht' hr' h
    cases alike_of_writes (.number l) ht' h
    cases ht' with
    | number l' =>
      obtain ⟨rfl, rfl⟩ := Literal.unique hr hr' h
      exact ⟨rfl, rfl⟩
  | string hq => exact fun _ _ => only_string hq
  | noArray hb => exact fun _ _ => only_noArray hb
  | array hb hw hws iht ihts => exact fun rest hr => only_array hb hw hws iht (ihts rest hr)
  | noItems hb => exact fun _ _ => only_noItems hb
  | items hb hb' hw hws iht ihts =>
    exact fun rest hr => only_items hb hb' hw hws iht (ihts rest hr)
  | noObject hb => exact fun _ _ => only_noObject hb
  | object hb hk hw hws iht ihms =>
    exact fun rest hr => only_object hb hk hw hws iht (ihms rest hr)
  | noMembers hb => exact fun _ _ => only_noMembers hb
  | members hb hb' hk hw hws iht ihms =>
    exact fun rest hr => only_members hb hb' hk hw hws iht (ihms rest hr)

/-- **A text is the document of at most one spelling.** -/
theorem Document.unique {text : List Char} (h : Document t text) (h' : Document t' text) :
    t' = t := by
  generalize hs : text = text' at h'
  obtain ⟨hb, hw, hb₁⟩ := h
  obtain ⟨hb', hw', hb₂⟩ := h'
  exact (only_of_writes hw _ (stops_blanks hb₁) _ _ _ hw' (stops_blanks hb₂)
    (values_eq hb hb' hw hw' hs)).1

end Json

end CodeTidy
