import CodeTidy.Proofs.Json.Readers
import CodeTidy.Proofs.Json.Spelling
import Mathlib.Data.List.TakeWhile

/-!
# What is read is a document

What `readNumber` takes in is a literal (`exists_literal`), what `readString` takes in is a quoted
text (`exists_quoted`), and a text that `Json.parse` reads is a document (`exists_document`).  So the
grammar has every text that is accepted.
-/

namespace CodeTidy

namespace Json

variable {s rest : List Char} {n : Number}

/-! ### Digits -/

theorem digitChar_digitValue {c : Char} (hc : c.isDigit = true) :
    Nat.digitChar (digitValue c) = c := by
  obtain ⟨hlow, hhigh⟩ := Char.isDigit_iff_toNat.1 hc
  have hzero : '0'.toNat = 48 := rfl
  have hnine : '9'.toNat = 57 := rfl
  have hten : ∀ k, k < 10 → Nat.digitChar k = Char.ofNat (48 + k) := by decide
  have e : 48 + digitValue c = c.toNat := by
    unfold digitValue
    omega
  rw [hten _ (by unfold digitValue; omega), e, Char.ofNat_toNat]

/-- Digits that are taken into a number follow its digits. -/
theorem toDigits_ofDigitChars : ∀ {ds : List Char} {m : Nat}, 0 < m → Digits ds →
    Nat.toDigits 10 (Nat.ofDigitChars 10 ds m) = Nat.toDigits 10 m ++ ds
  | [], m, _, _ => by simp
  | c :: cs, m, hm, hd => by
    obtain ⟨hc, hcs⟩ := digits_cons.1 hd
    have hlt : digitValue c < 10 := Nat.lt_succ_of_le (digitValue_le hc)
    have hsplit := Nat.toDigits_append_toDigits (b := 10) (by decide) hm hlt
    rw [Nat.toDigits_of_lt_base hlt, digitChar_digitValue hc] at hsplit
    have e : 10 * m + (c.toNat - '0'.toNat) = 10 * m + digitValue c := rfl
    rw [Nat.ofDigitChars_cons, e, toDigits_ofDigitChars (by omega) hcs, ← hsplit, List.append_assoc]
    rfl

/-- Digits that do not begin with a zero are those of their number. -/
theorem toDigits_ofDigitChars_cons {c : Char} {ds : List Char} (hc : c.isDigit = true)
    (hz : c ≠ '0') (hd : Digits ds) :
    Nat.toDigits 10 (Nat.ofDigitChars 10 ds (digitValue c)) = c :: ds := by
  have hlt : digitValue c < 10 := Nat.lt_succ_of_le (digitValue_le hc)
  have hpos : 0 < digitValue c := by
    refine Nat.pos_of_ne_zero fun h => hz ?_
    rw [← digitChar_digitValue hc, h]
    rfl
  rw [toDigits_ofDigitChars hpos hd, Nat.toDigits_of_lt_base hlt, digitChar_digitValue hc]
  rfl

/-! ### Numbers -/

/-- What is absorbed are digits, as many as are counted. -/
theorem exists_digits_of_absorb : ∀ (s : List Char) (significand kept dropped : Nat),
    ∃ ds, Digits ds ∧ s = ds ++ (absorb significand kept dropped s).rest ∧
      (absorb significand kept dropped s).kept + (absorb significand kept dropped s).dropped
        = kept + dropped + ds.length
  | [], _, _, _ => ⟨[], digits_nil, rfl, rfl⟩
  | c :: cs, significand, kept, dropped => by
    rw [absorb]
    dsimp only
    split
    · rename_i hc
      split
      · rename_i hkept
        obtain ⟨ds, hd, hs, hcount⟩ :=
          exists_digits_of_absorb cs (significand * 10 + digitValue c) (kept + 1) 0
        refine ⟨c :: ds, digits_cons.2 ⟨hc, hd⟩, congrArg (c :: ·) hs, ?_⟩
        rw [hcount, hkept.1, List.length_cons]
        omega
      · obtain ⟨ds, hd, hs, hcount⟩ := exists_digits_of_absorb cs significand kept (dropped + 1)
        refine ⟨c :: ds, digits_cons.2 ⟨hc, hd⟩, congrArg (c :: ·) hs, ?_⟩
        rw [hcount, List.length_cons]
        omega
    · exact ⟨[], digits_nil, rfl, rfl⟩

theorem rest_of_finishFloat {negative : Bool} {significand : Nat} {exponent : Int}
    (h : finishFloat negative significand exponent s = .ok (n, rest)) : s = rest := by
  unfold finishFloat at h
  split at h
  · exact (Prod.mk.inj (Except.ok.inj h)).2
  · simp at h

theorem rest_of_finishInteger {negative : Bool} {significand : Nat}
    (h : finishInteger negative significand s = .ok (n, rest)) : s = rest := by
  unfold finishInteger at h
  split at h
  · exact (Prod.mk.inj (Except.ok.inj h)).2
  · split at h
    · exact (Prod.mk.inj (Except.ok.inj h)).2
    · exact rest_of_finishFloat h

theorem exists_digits_of_readExponentDigits {negative down : Bool} {significand : Nat}
    {start : Int} : ∀ {s : List Char} {value : Nat},
      readExponentDigits negative down significand start value s = .ok (n, rest) →
        ∃ ds, Digits ds ∧ s = ds ++ rest
  | [], _, h => ⟨[], digits_nil, rest_of_finishFloat h⟩
  | c :: cs, value, h => by
    rw [readExponentDigits] at h
    dsimp only at h
    split at h
    · rename_i hc
      split at h
      · obtain ⟨ds, hd, hs⟩ := exists_digits_of_readExponentDigits h
        exact ⟨c :: ds, digits_cons.2 ⟨hc, hd⟩, congrArg (c :: ·) hs⟩
      · split at h
        · simp at h
        · -- no exponent in use is this large, so the digits that follow are passed over
          obtain ⟨-, rfl⟩ := Prod.mk.inj (Except.ok.inj h)
          refine ⟨c :: cs.takeWhile Char.isDigit, digits_cons.2 ⟨hc, fun x hx => ?_⟩, ?_⟩
          · exact List.mem_takeWhile_imp hx
          · rw [List.cons_append, List.takeWhile_append_dropWhile]
    · exact ⟨[], digits_nil, rest_of_finishFloat h⟩

theorem exists_exponent {negative : Bool} {significand : Nat} {start : Int} {mark : Char}
    (hmark : mark = 'e' ∨ mark = 'E')
    (h : readExponent negative significand start s = .ok (n, rest)) :
    ∃ e : Exponent, mark :: s = e.text ++ rest := by
  unfold readExponent at h
  split at h
  rename_i down s' e
  obtain ⟨sign, hsign, rfl⟩ :
      ∃ sign, (sign = [] ∨ sign = ['+'] ∨ sign = ['-']) ∧ s = sign ++ s' := by
    split at e
    · obtain ⟨-, rfl⟩ := Prod.mk.inj e
      exact ⟨['+'], .inr (.inl rfl), rfl⟩
    · obtain ⟨-, rfl⟩ := Prod.mk.inj e
      exact ⟨['-'], .inr (.inr rfl), rfl⟩
    · obtain ⟨-, rfl⟩ := Prod.mk.inj e
      exact ⟨[], .inl rfl, rfl⟩
  split at h
  · simp at h
  · rename_i c cs
    split at h
    · rename_i hc
      obtain ⟨ds, hd, rfl⟩ := exists_digits_of_readExponentDigits h
      exact ⟨⟨mark, sign, c :: ds, hmark, hsign, digits_cons.2 ⟨hc, hd⟩, by simp⟩, by simp [Exponent.text]⟩
    · simp at h

theorem exists_scale {negative : Bool} {significand : Nat} {exponent : Int}
    (h : readScale negative significand exponent s = .ok (n, rest)) :
    ∃ e? : Option Exponent, s = e?.elim [] Exponent.text ++ rest := by
  unfold readScale at h
  split at h
  · obtain ⟨e, he⟩ := exists_exponent (.inl rfl) h
    exact ⟨some e, he⟩
  · obtain ⟨e, he⟩ := exists_exponent (.inr rfl) h
    exact ⟨some e, he⟩
  · exact ⟨none, rest_of_finishFloat h⟩

theorem exists_fraction {negative : Bool} {significand : Nat} {exponent : Int}
    (h : readFraction negative significand exponent s = .ok (n, rest)) :
    ∃ fs, fs ≠ [] ∧ Digits fs ∧ ∃ e? : Option Exponent,
      s = fs ++ (e?.elim [] Exponent.text ++ rest) := by
  unfold readFraction at h
  dsimp only at h
  obtain ⟨fs, hd, hs, hcount⟩ := exists_digits_of_absorb s significand 0 0
  split at h
  · simp at h
  · rename_i hsome
    obtain ⟨e?, he⟩ := exists_scale h
    refine ⟨fs, ?_, hd, e?, he ▸ hs⟩
    rintro rfl
    rw [List.length_nil] at hcount
    omega

theorem exists_tail {negative : Bool} {significand dropped : Nat} (whole : Nat)
    (h : readTail negative significand dropped s = .ok (n, rest)) :
    ∃ l : Literal, l.negative = negative ∧ l.whole = whole ∧ s = l.tail ++ rest := by
  unfold readTail at h
  split at h
  · obtain ⟨fs, hne, hd, e?, rfl⟩ := exists_fraction h
    exact ⟨⟨negative, whole, fs, e?, hd⟩, rfl, rfl, by simp [Literal.tail, hne]⟩
  · obtain ⟨e, he⟩ := exists_exponent (.inl rfl) h
    exact ⟨⟨negative, whole, [], some e, digits_nil⟩, rfl, rfl, he⟩
  · obtain ⟨e, he⟩ := exists_exponent (.inr rfl) h
    exact ⟨⟨negative, whole, [], some e, digits_nil⟩, rfl, rfl, he⟩
  · refine ⟨⟨negative, whole, [], none, digits_nil⟩, rfl, rfl, ?_⟩
    split at h
    · exact rest_of_finishInteger h
    · exact rest_of_finishFloat h

/-- **What is read as a number is a literal.** -/
theorem exists_literal {negative : Bool} (h : readNumber negative s = .ok (n, rest)) :
    ∃ l : Literal, l.negative = negative ∧ s = l.body ++ rest := by
  unfold readNumber at h
  split at h
  · simp at h
  · split at h
    · simp at h
    · obtain ⟨l, hneg, hwhole, rfl⟩ := exists_tail 0 h
      exact ⟨l, hneg, by simp [Literal.body, hwhole]⟩
  · rename_i c cs hzero
    split at h
    · rename_i hc
      obtain ⟨ds, hd, hs, -⟩ := exists_digits_of_absorb cs (digitValue c) 0 0
      obtain ⟨l, hneg, hwhole, htail⟩ :=
        exists_tail (Nat.ofDigitChars 10 ds (digitValue c)) h
      have hz : c ≠ '0' := by simpa using hzero
      refine ⟨l, hneg, ?_⟩
      rw [Literal.body, hwhole, toDigits_ofDigitChars_cons hc hz hd, List.append_assoc, ← htail]
      exact congrArg (c :: ·) hs
    · simp at h

/-! ### Strings -/

/-- After one character, the rest of the string is read. -/
theorem exists_readString_of_cons {c : Char} {v : List Char}
    (h : ((readString s).map fun (v, rest) => (c :: v, rest)) = .ok (v, rest)) :
    ∃ v', v = c :: v' ∧ readString s = .ok (v', rest) := by
  obtain ⟨⟨v', r⟩, hread, e⟩ := map_eq_ok.1 h
  obtain ⟨rfl, rfl⟩ := Prod.mk.inj e
  exact ⟨v', rfl, hread⟩

/-- **What is read as a string is what stands between its quotes.** -/
theorem exists_quoted : ∀ {s v rest : List Char}, readString s = .ok (v, rest) →
    ∃ q, Quoted q v ∧ s = q ++ '"' :: rest := by
  intro s
  fun_induction readString s with
  | case2 cs =>
    intro v rest h
    obtain ⟨rfl, rfl⟩ := Prod.mk.inj (Except.ok.inj h)
    exact ⟨[], .nil, rfl⟩
  | case6 a b c d n hn htrail hlead e f g h' cs m hm htrail' ih =>
    intro v rest h
    obtain ⟨v', rfl, hread⟩ := exists_readString_of_cons h
    obtain ⟨q, hq, rfl⟩ := ih hread
    exact ⟨_, .pair hn (by simpa using htrail) hlead hm htrail' hq, rfl⟩
  | case9 a b c d cs n hn htrail hlead ih =>
    intro v rest h
    obtain ⟨v', rfl, hread⟩ := exists_readString_of_cons h
    obtain ⟨q, hq, rfl⟩ := ih hread
    exact ⟨_, .code hn (by simpa using htrail) (by simpa using hlead) hq, rfl⟩
  | case12 c cs _ _ x hx ih =>
    intro v rest h
    obtain ⟨v', rfl, hread⟩ := exists_readString_of_cons h
    obtain ⟨q, hq, rfl⟩ := ih hread
    exact ⟨_, .escape hx hq, rfl⟩
  | case15 c cs hquote _ _ hend hslash hcontrol ih =>
    intro v rest h
    obtain ⟨v', rfl, hread⟩ := exists_readString_of_cons h
    obtain ⟨q, hq, rfl⟩ := ih hread
    refine ⟨c :: q, .plain (Nat.le_of_not_lt hcontrol) hquote (fun hc => ?_) hq, rfl⟩
    cases q with
    | nil => exact hslash _ _ hc rfl
    | cons c' q => exact hslash _ _ hc rfl
  | _ =>
    intro v rest h
    simp at h

/-! ### Values -/

theorem exists_blanks (s : List Char) : ∃ b, Blanks b ∧ s = b ++ skipBlanks s :=
  ⟨s.takeWhile isJsonBlank, fun _ hc => List.mem_takeWhile_imp hc,
    List.takeWhile_append_dropWhile.symm⟩

theorem Blanks.append {b b' : List Char} (hb : Blanks b) (hb' : Blanks b') : Blanks (b ++ b') :=
  fun c hc => (List.mem_append.1 hc).elim (hb c) (hb' c)

/-- What is read as a key is a key; more blanks may follow it. -/
theorem exists_key {k : String} (h : readKey s = .ok (k, rest)) :
    ∃ w, '"' :: s = w ++ rest ∧ ∀ b, Blanks b → WrittenKey k (w ++ b) := by
  obtain ⟨⟨v, r⟩, hv, h⟩ := bind_eq_ok.1 h
  obtain ⟨q, hq, hs⟩ := exists_quoted hv
  obtain ⟨b, hb, hr⟩ := exists_blanks r
  dsimp only at h
  split at h
  · rename_i cs hcolon
    obtain ⟨rfl, rfl⟩ := Prod.mk.inj (Except.ok.inj h)
    rw [hcolon] at hr
    refine ⟨'"' :: (q ++ '"' :: (b ++ [':'])), by simp [hs, hr], fun b' hb' => ?_⟩
    have hk := WrittenKey.mk hq hb hb'
    simpa using hk
  · simp [throw, throwThe, MonadExceptOf.throw] at h
  · simp [throw, throwThe, MonadExceptOf.throw] at h

/-- What the three functions that read values take in with some fuel is written by a piece of a
document, blanks before a value aside. -/
structure ReadsWritten (fuel : Nat) : Prop where
  value : ∀ {depth s j rest}, readValue fuel depth s = .ok (j, rest) →
    ∃ b t u, Blanks b ∧ Writes (.value t) u ∧ s = b ++ (u ++ rest)
  items : ∀ {depth s js rest}, readItems fuel depth s = .ok (js, rest) →
    ∃ ts u, Writes (.items ts) u ∧ s = u ++ rest
  members : ∀ {depth s ms rest}, readMembers fuel depth s = .ok (ms, rest) →
    ∃ ms' u, Writes (.members ms') u ∧ s = u ++ rest

variable {fuel depth : Nat}

theorem readsWritten_zero : ReadsWritten 0 :=
  ⟨fun h => by simp [readValue] at h, fun h => by simp [readItems] at h,
    fun h => by simp [readMembers] at h⟩

theorem ReadsWritten.readItems_succ (ih : ReadsWritten fuel) {js : List Json}
    (h : readItems (fuel + 1) depth s = .ok (js, rest)) :
    ∃ ts u, Writes (.items ts) u ∧ s = u ++ rest := by
  obtain ⟨b, hb, hs⟩ := exists_blanks s
  have hread := itemsRead h
  generalize skipBlanks s = cs at hs hread
  cases hread with
  | close => exact ⟨[], _, .noItems hb, by simp [hs]⟩
  | @item cs _ _ _ _ hitem hitems =>
    obtain ⟨b', hb', hcs⟩ := exists_blanks cs
    obtain ⟨b'', t, u, hb'', hu, hvalue⟩ := ih.value hitem
    obtain ⟨ts, u', hu', rfl⟩ := ih.items hitems
    rw [hcs, hvalue] at hs
    exact ⟨t :: ts, _, .items hb (hb'.append hb'') hu hu', by simp [hs]⟩

theorem ReadsWritten.readMembers_succ (ih : ReadsWritten fuel) {ms : List (String × Json)}
    (h : readMembers (fuel + 1) depth s = .ok (ms, rest)) :
    ∃ ms' u, Writes (.members ms') u ∧ s = u ++ rest := by
  obtain ⟨b, hb, hs⟩ := exists_blanks s
  have hread := membersRead h
  generalize skipBlanks s = cs at hs hread
  cases hread with
  | close => exact ⟨[], _, .noMembers hb, by simp [hs]⟩
  | @member cs _ _ _ _ key _ _ hquote hkey hvalue hmembers =>
    obtain ⟨b', hb', hcs⟩ := exists_blanks cs
    obtain ⟨w, hw, hwritten⟩ := exists_key hkey
    obtain ⟨b'', t, u, hb'', hu, e⟩ := ih.value hvalue
    obtain ⟨ms', u', hu', rfl⟩ := ih.members hmembers
    rw [hcs, hquote, hw, e] at hs
    exact ⟨(key, t) :: ms', _, .members hb hb' (hwritten b'' hb'') hu hu', by simp [hs]⟩

theorem ReadsWritten.readValue_succ (ih : ReadsWritten fuel) {j : Json}
    (h : readValue (fuel + 1) depth s = .ok (j, rest)) :
    ∃ b t u, Blanks b ∧ Writes (.value t) u ∧ s = b ++ (u ++ rest) := by
  obtain ⟨b, hb, hs⟩ := exists_blanks s
  have hread := valueRead h
  generalize skipBlanks s = cs at hs hread
  suffices hwritten : ∃ t u, Writes (.value t) u ∧ cs = u ++ rest by
    obtain ⟨t, u, hu, rfl⟩ := hwritten
    exact ⟨b, t, u, hb, hu, hs⟩
  cases hread with
  | null => exact ⟨_, _, .null, rfl⟩
  | true => exact ⟨_, _, .true, rfl⟩
  | false => exact ⟨_, _, .false, rfl⟩
  | number negative hn =>
    obtain ⟨l, hneg, rfl⟩ := exists_literal hn
    exact ⟨_, _, .number l, by simp [Literal.text, hneg]⟩
  | string hv =>
    obtain ⟨q, hq, rfl⟩ := exists_quoted hv
    exact ⟨_, _, .string hq, by simp⟩
  | @noArray cs _ _ hclose =>
    obtain ⟨b', hb', hcs⟩ := exists_blanks cs
    rw [hclose] at hcs
    exact ⟨_, _, .noArray hb', by simp [hcs]⟩
  | @array cs _ _ _ _ _ hitem hitems =>
    obtain ⟨b', hb', hcs⟩ := exists_blanks cs
    obtain ⟨b'', t, u, hb'', hu, hvalue⟩ := ih.value hitem
    obtain ⟨ts, u', hu', rfl⟩ := ih.items hitems
    rw [hvalue] at hcs
    exact ⟨_, _, .array (hb'.append hb'') hu hu', by simp [hcs]⟩
  | @noObject cs _ _ hclose =>
    obtain ⟨b', hb', hcs⟩ := exists_blanks cs
    rw [hclose] at hcs
    exact ⟨_, _, .noObject hb', by simp [hcs]⟩
  | @object cs _ _ _ _ _ _ _ _ hquote hkey hvalue hmembers =>
    obtain ⟨b', hb', hcs⟩ := exists_blanks cs
    obtain ⟨w, hw, hwritten⟩ := exists_key hkey
    obtain ⟨b'', t, u, hb'', hu, e⟩ := ih.value hvalue
    obtain ⟨ms', u', hu', rfl⟩ := ih.members hmembers
    rw [hquote, hw, e] at hcs
    exact ⟨_, _, .object hb' (hwritten b'' hb'') hu hu', by simp [hcs]⟩

theorem readsWritten : ∀ fuel, ReadsWritten fuel
  | 0 => readsWritten_zero
  | fuel + 1 =>
    have ih := readsWritten fuel
    ⟨ih.readValue_succ, ih.readItems_succ, ih.readMembers_succ⟩

/-- **A text that is read is a document.** -/
theorem exists_document {j : Json} (h : parse s = .ok j) : ∃ t, Document t s := by
  obtain ⟨⟨v, r⟩, hv, h⟩ := bind_eq_ok.1 h
  obtain ⟨b, t, u, hb, hu, hs⟩ := (readsWritten _).value hv
  obtain ⟨b', hb', hr⟩ := exists_blanks r
  dsimp only at h
  split at h
  · rename_i hnil
    rw [hnil, List.append_nil] at hr
    subst hr
    exact ⟨t, hs ▸ .mk hb hu hb'⟩
  · simp [throw, throwThe, MonadExceptOf.throw] at h

end Json

end CodeTidy
