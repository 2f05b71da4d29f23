import CodeTidy.Json.Parser
import CodeTidy.Json.Printer

/-!
# Numbers and strings that are read back

`readNumber` reads a printed integer that fits as that integer (`readNumber_natText`,
`readNumber_negText`), and whatever it reads from a printed float is a float that takes in the
whole of that text (`readsFloat_readNumber`).  `readString` reads a quoted string as the string
(`readString_escaped`).
-/

namespace CodeTidy.Json

/-- What follows a printed number does not continue it. -/
def Stops (rest : List Char) : Prop :=
  ∀ c ∈ rest.head?, c.isDigit = false ∧ c ≠ '.' ∧ c ≠ 'e' ∧ c ≠ 'E'

theorem stops_cons {c : Char} {rest : List Char}
    (h : c.isDigit = false ∧ c ≠ '.' ∧ c ≠ 'e' ∧ c ≠ 'E') : Stops (c :: rest) := by
  intro c' hc
  obtain rfl : c = c' := by simpa using hc
  exact h

/-- What follows a run of digits is no digit. -/
def NoDigit (rest : List Char) : Prop :=
  ∀ c ∈ rest.head?, c.isDigit = false

theorem Stops.noDigit {rest : List Char} (h : Stops rest) : NoDigit rest :=
  fun c hc => (h c hc).1

theorem noDigit_cons {c : Char} {rest : List Char} (h : c.isDigit = false) :
    NoDigit (c :: rest) := by
  intro c' hc
  obtain rfl : c = c' := by simpa using hc
  exact h

def Digits (ds : List Char) : Prop :=
  ∀ c ∈ ds, c.isDigit = true

theorem digits_nil : Digits [] := by
  simp [Digits]

theorem digits_cons {c : Char} {ds : List Char} : Digits (c :: ds) ↔ c.isDigit = true ∧ Digits ds :=
  List.forall_mem_cons

theorem digits_toDigits (n : Nat) : Digits (Nat.toDigits 10 n) :=
  fun _ hc => Nat.isDigit_of_mem_toDigits (by decide) (by decide) hc

theorem Digits.append {ds es : List Char} (hd : Digits ds) (he : Digits es) :
    Digits (ds ++ es) := by
  intro c hc
  rcases List.mem_append.1 hc with hc | hc
  · exact hd c hc
  · exact he c hc

theorem digits_replicate_zero (n : Nat) : Digits (List.replicate n '0') := by
  intro c hc
  rw [(List.mem_replicate.1 hc).2]
  decide

/-! ### Runs of digits -/

theorem le_ofDigitChars : ∀ (ds : List Char) (n : Nat), n ≤ Nat.ofDigitChars 10 ds n
  | [], n => by simp
  | c :: cs, n => by
    rw [Nat.ofDigitChars_cons]
    have := le_ofDigitChars cs (10 * n + (c.toNat - '0'.toNat))
    omega

theorem absorb_digits {rest : List Char} (hr : NoDigit rest) :
    ∀ (ds : List Char) (significand kept : Nat), Digits ds →
      Nat.ofDigitChars 10 ds significand ≤ maxSignificand →
      absorb significand kept 0 (ds ++ rest)
        = ⟨Nat.ofDigitChars 10 ds significand, kept + ds.length, 0, rest⟩
  | [], significand, kept, _, _ => by
    cases rest with
    | nil => simp [absorb]
    | cons c cs => simp [absorb, hr c rfl]
  | c :: cs, significand, kept, hd, hm => by
    obtain ⟨hc, hcs⟩ := digits_cons.1 hd
    have e : significand * 10 + digitValue c = 10 * significand + (c.toNat - '0'.toNat) := by
      rw [Nat.mul_comm]
      rfl
    rw [Nat.ofDigitChars_cons] at hm
    have hle := Nat.le_trans (le_ofDigitChars cs _) hm
    rw [List.cons_append, absorb, if_pos hc, e, if_pos ⟨rfl, hle⟩,
      absorb_digits hr cs _ _ hcs hm, Nat.ofDigitChars_cons, List.length_cons]
    congr 1
    omega

/-- However many digits are kept, all are passed over. -/
theorem rest_absorb_digits {rest : List Char} (hr : NoDigit rest) :
    ∀ (ds : List Char) (significand kept dropped : Nat), Digits ds →
      (absorb significand kept dropped (ds ++ rest)).rest = rest
  | [], significand, kept, dropped, _ => by
    cases rest with
    | nil => simp [absorb]
    | cons c cs => simp [absorb, hr c rfl]
  | c :: cs, significand, kept, dropped, hd => by
    obtain ⟨hc, hcs⟩ := digits_cons.1 hd
    rw [List.cons_append, absorb, if_pos hc]
    dsimp only
    split
    · exact rest_absorb_digits hr cs _ _ _ hcs
    · exact rest_absorb_digits hr cs _ _ _ hcs

/-! ### Integers -/

theorem readTail_of_stops {rest : List Char} (hr : Stops rest) (negative : Bool)
    (significand dropped : Nat) :
    readTail negative significand dropped rest
      = if dropped = 0 then finishInteger negative significand rest
        else finishFloat negative significand dropped rest := by
  cases rest with
  | nil => simp [readTail]
  | cons c cs =>
    obtain ⟨-, h1, h2, h3⟩ := hr c rfl
    rw [readTail]
    · simpa using h1
    · simpa using h2
    · simpa using h3

theorem head_toDigits_ne_zero {n : Nat} (hn : 0 < n) : (Nat.toDigits 10 n).head? ≠ some '0' := by
  induction n using Nat.strongRecOn with
  | ind n ih =>
    by_cases h : n < 10
    · rw [Nat.toDigits_of_lt_base h]
      have hd : ∀ m, m < 10 → 0 < m → Nat.digitChar m ≠ '0' := by decide
      simpa using hd n h hn
    · rw [Nat.toDigits_of_base_le (by decide) (by omega)]
      have := ih (n / 10) (by omega) (by omega)
      cases ht : Nat.toDigits 10 (n / 10) with
      | nil => exact absurd ht Nat.toDigits_ne_nil
      | cons c cs =>
        rw [ht] at this
        simpa using this

theorem readNumber_toDigits {n : Nat} (hn : n ≤ maxSignificand) {rest : List Char}
    (hr : Stops rest) (negative : Bool) :
    readNumber negative (Nat.toDigits 10 n ++ rest) = finishInteger negative n rest := by
  rcases Nat.eq_zero_or_pos n with rfl | hpos
  · rw [Nat.toDigits_zero, List.singleton_append, readNumber]
    have hz : ¬ (rest.head?.map Char.isDigit).getD false = true := by
      cases rest with
      | nil => simp
      | cons c cs => simp [(hr c rfl).1]
    rw [if_neg hz, readTail_of_stops hr, if_pos rfl]
  · have hv := Nat.ofDigitChars_toDigits (b := 10) (n := n) (by decide) (by decide)
    have hz := head_toDigits_ne_zero hpos
    have hd := digits_toDigits n
    cases ht : Nat.toDigits 10 n with
    | nil => exact absurd ht Nat.toDigits_ne_nil
    | cons c cs =>
      rw [ht] at hv hz hd
      obtain ⟨hc, hcs⟩ := digits_cons.1 hd
      rw [Nat.ofDigitChars_cons, Nat.mul_zero, Nat.zero_add] at hv
      have hab := absorb_digits hr.noDigit cs (digitValue c) 0 hcs (hv ▸ hn)
      rw [List.cons_append, readNumber, if_pos hc, hab, readTail_of_stops hr, if_pos rfl]
      · exact congrArg (finishInteger negative · rest) hv
      · simpa using hz

theorem readNumber_natText {n : Nat} (hn : n ≤ 0xffffffffffffffff) {rest : List Char}
    (hr : Stops rest) :
    readNumber false (Nat.toDigits 10 n ++ rest) = .ok (.int n, rest) := by
  rw [readNumber_toDigits (by unfold maxSignificand; omega) hr]
  simp [finishInteger]

/-- The digits of a printed negative integer are read, after their sign, as that integer. -/
theorem readNumber_negText {n : Nat} (hn : n < 0x8000000000000000) {rest : List Char}
    (hr : Stops rest) :
    readNumber true (Nat.toDigits 10 (n + 1) ++ rest) = .ok (.int (.negSucc n), rest) := by
  rw [readNumber_toDigits (by unfold maxSignificand; omega) hr]
  have h : 0 < n + 1 ∧ n + 1 ≤ 0x8000000000000000 := by omega
  simp only [finishInteger, Bool.not_true, Bool.false_eq_true, if_false, if_pos h]
  rfl

/-! ### Floats -/

/-- If a number is read, it is a float and leaves `rest`. -/
def ReadsFloat (rest : List Char) (r : Read Number) : Prop :=
  ∀ n rest', r = .ok (n, rest') → rest' = rest ∧ ∃ negative x, n = .float negative x

theorem readsFloat_error (rest : List Char) (f : Fault) : ReadsFloat rest (.error f) := by
  intro n rest' h
  simp at h

theorem readsFloat_ok (negative : Bool) (x : Binary64) (rest : List Char) :
    ReadsFloat rest (.ok (.float negative x, rest)) := by
  intro n rest' h
  obtain ⟨rfl, rfl⟩ := Prod.mk.inj (Except.ok.inj h)
  exact ⟨rfl, _, _, rfl⟩

theorem readsFloat_finishFloat (negative : Bool) (significand : Nat) (exponent : Int)
    (rest : List Char) : ReadsFloat rest (finishFloat negative significand exponent rest) := by
  unfold finishFloat
  split
  · exact readsFloat_ok _ _ _
  · exact readsFloat_error _ _

theorem dropWhile_digits {rest : List Char} (hr : NoDigit rest) :
    ∀ ds : List Char, Digits ds → (ds ++ rest).dropWhile Char.isDigit = rest
  | [], _ => by
    cases rest with
    | nil => rfl
    | cons c cs => simp [hr c rfl]
  | d :: ds, hd => by
    obtain ⟨hc, hds⟩ := digits_cons.1 hd
    rw [List.cons_append, List.dropWhile_cons, if_pos hc]
    exact dropWhile_digits hr ds hds

theorem readsFloat_readExponentDigits {rest : List Char} (hr : NoDigit rest)
    (negative down : Bool) (significand : Nat) (start : Int) :
    ∀ (ds : List Char) (value : Nat), Digits ds →
      ReadsFloat rest (readExponentDigits negative down significand start value (ds ++ rest))
  | [], value, _ => by
    cases rest with
    | nil => exact readsFloat_finishFloat _ _ _ _
    | cons c cs =>
      have hc : ¬ c.isDigit = true := by simp [hr c rfl]
      rw [List.nil_append, readExponentDigits, if_neg hc]
      exact readsFloat_finishFloat _ _ _ _
  | d :: ds, value, hd => by
    obtain ⟨hc, hds⟩ := digits_cons.1 hd
    rw [List.cons_append, readExponentDigits, if_pos hc]
    dsimp only
    split
    · exact readsFloat_readExponentDigits hr negative down significand start ds _ hds
    · split
      · exact readsFloat_error _ _
      · rw [dropWhile_digits hr ds hds]
        exact readsFloat_ok _ _ _

/-- The exponent of a number as it is written. -/
structure Exponent where
  mark : Char
  sign : List Char
  digits : List Char
  isMark : mark = 'e' ∨ mark = 'E'
  isSign : sign = [] ∨ sign = ['+'] ∨ sign = ['-']
  isDigits : Digits digits
  ne_nil : digits ≠ []

def Exponent.text (e : Exponent) : List Char :=
  e.mark :: (e.sign ++ e.digits)

/-- The exponent as it is printed. -/
def Exponent.printed (n : Int) : Exponent where
  mark := 'e'
  sign := [if n < 0 then '-' else '+']
  digits := Nat.toDigits 10 n.natAbs
  isMark := .inl rfl
  isSign := by
    split
    · exact .inr (.inr rfl)
    · exact .inr (.inl rfl)
  isDigits := digits_toDigits _
  ne_nil := Nat.toDigits_ne_nil

/-- What stands after the integer part of a number that is no integer. -/
inductive FloatTail : List Char → Prop where
  | fraction {fs : List Char} (hf : Digits fs) : FloatTail ('.' :: fs)
  | exponent (e : Exponent) : FloatTail e.text
  | both {fs : List Char} (hf : Digits fs) (e : Exponent) : FloatTail ('.' :: fs ++ e.text)

theorem ne_of_isDigit {c d : Char} (hc : c.isDigit = true) (hd : d.isDigit = false) : c ≠ d := by
  rintro rfl
  exact Bool.noConfusion (hc.symm.trans hd)

theorem readsFloat_readExponent {rest : List Char} (hr : NoDigit rest) (e : Exponent)
    (negative : Bool) (significand : Nat) (start : Int) :
    ReadsFloat rest (readExponent negative significand start (e.sign ++ (e.digits ++ rest))) := by
  obtain ⟨mark, sign, digits, -, hs, hd, hne⟩ := e
  obtain ⟨c, cs, rfl⟩ := List.exists_cons_of_ne_nil hne
  obtain ⟨hc, hcs⟩ := digits_cons.1 hd
  have e : ∃ down, readExponent negative significand start (sign ++ (c :: cs ++ rest))
      = readExponentDigits negative down significand start (digitValue c) (cs ++ rest) := by
    rcases hs with rfl | rfl | rfl
    · refine ⟨false, ?_⟩
      rw [List.nil_append, List.cons_append, readExponent]
      · exact if_pos hc
      · exact fun _ h => ne_of_isDigit hc (by decide) (List.cons.inj h).1
      · exact fun _ h => ne_of_isDigit hc (by decide) (List.cons.inj h).1
    · exact ⟨false, if_pos hc⟩
    · exact ⟨true, if_pos hc⟩
  obtain ⟨down, e⟩ := e
  rw [e]
  exact readsFloat_readExponentDigits hr negative down significand start cs _ hcs

theorem readsFloat_readFraction {rest fs more : List Char} (hf : Digits fs) (hm : NoDigit more)
    (h : ∀ negative significand exponent,
      ReadsFloat rest (readScale negative significand exponent more))
    (negative : Bool) (significand : Nat) (exponent : Int) :
    ReadsFloat rest (readFraction negative significand exponent (fs ++ more)) := by
  unfold readFraction
  dsimp only
  split
  · exact readsFloat_error _ _
  · rw [rest_absorb_digits hm fs _ _ _ hf]
    exact h _ _ _

theorem readsFloat_readScale {rest : List Char} (hr : Stops rest) (negative : Bool)
    (significand : Nat) (exponent : Int) :
    ReadsFloat rest (readScale negative significand exponent rest) := by
  unfold readScale
  split
  · exact absurd rfl (hr 'e' rfl).2.2.1
  · exact absurd rfl (hr 'E' rfl).2.2.2
  · exact readsFloat_finishFloat _ _ _ _

theorem Exponent.readsFloat_readScale {rest : List Char} (hr : NoDigit rest) (e : Exponent)
    (negative : Bool) (significand : Nat) (exponent : Int) :
    ReadsFloat rest (readScale negative significand exponent (e.text ++ rest)) := by
  have h := readsFloat_readExponent hr e negative significand exponent
  rw [← List.append_assoc] at h
  rw [text, List.cons_append]
  rcases e.isMark with hm | hm <;> rw [hm] <;> exact h

theorem Exponent.noDigit (e : Exponent) (rest : List Char) : NoDigit (e.text ++ rest) := by
  refine noDigit_cons ?_
  rcases e.isMark with hm | hm <;> rw [hm] <;> decide

theorem FloatTail.readsFloat {rest tail : List Char} (ht : FloatTail tail) (hr : Stops rest)
    (negative : Bool) (significand dropped : Nat) :
    ReadsFloat rest (readTail negative significand dropped (tail ++ rest)) := by
  cases ht with
  | fraction hf =>
    exact readsFloat_readFraction hf hr.noDigit (readsFloat_readScale hr) _ _ _
  | exponent e =>
    have h := readsFloat_readExponent hr.noDigit e negative significand dropped
    rw [← List.append_assoc] at h
    rw [Exponent.text, List.cons_append]
    rcases e.isMark with hm | hm <;> rw [hm] <;> exact h
  | @both fs hf e =>
    rw [List.cons_append, List.cons_append, List.append_assoc]
    exact readsFloat_readFraction hf (e.noDigit rest) (e.readsFloat_readScale hr.noDigit) _ _ _

theorem FloatTail.noDigit {rest tail : List Char} (ht : FloatTail tail) :
    NoDigit (tail ++ rest) := by
  cases ht with
  | fraction hf => exact noDigit_cons (by decide)
  | exponent e => exact e.noDigit rest
  | both hf e => exact noDigit_cons (by decide)

/-- Whatever is read from digits that such a tail follows is a float. -/
theorem readsFloat_readNumber {rest ds tail : List Char} (hd : Digits ds) (ht : FloatTail tail)
    (hr : Stops rest) (negative : Bool) :
    ReadsFloat rest (readNumber negative (ds ++ tail ++ rest)) := by
  rw [List.append_assoc]
  unfold readNumber
  split
  · exact readsFloat_error _ _
  · rename_i cs e
    split
    · exact readsFloat_error _ _
    · -- The integer part is the one digit zero.
      cases ds with
      | nil =>
        have := @FloatTail.noDigit rest _ ht '0' (by simpa using congrArg List.head? e)
        simp at this
      | cons d ds =>
        rename_i hz
        rw [List.cons_append] at e
        obtain ⟨rfl, rfl⟩ := List.cons.inj e
        cases ds with
        | nil => exact ht.readsFloat hr _ _ _
        | cons d ds =>
          have hc : d.isDigit = true := hd d (by simp)
          simp [hc] at hz
  · rename_i c cs hz e
    split
    · rename_i hc
      cases ds with
      | nil =>
        have := @FloatTail.noDigit rest _ ht c (by simpa using congrArg List.head? e)
        simp [hc] at this
      | cons d ds =>
        rw [List.cons_append] at e
        obtain ⟨rfl, rfl⟩ := List.cons.inj e
        dsimp only
        rw [rest_absorb_digits ht.noDigit ds _ _ _ fun x hx => hd x (List.mem_cons_of_mem _ hx)]
        exact ht.readsFloat hr _ _ _
    · exact readsFloat_error _ _

/-- A printed positive float is digits with such a tail. -/
theorem decimalText_shape (f : FloatFormat) (d : Decimal) :
    ∃ ds tail, ds ≠ [] ∧ Digits ds ∧ FloatTail tail ∧ decimalText f d = ds ++ tail := by
  have hd := digits_toDigits d.digits
  have hne : Nat.toDigits 10 d.digits ≠ [] := Nat.toDigits_ne_nil
  unfold decimalText
  generalize Nat.toDigits 10 d.digits = digits at hd hne
  dsimp only
  split
  · split
    · refine ⟨digits ++ List.replicate d.exponent.toNat '0', ['.', '0'], by simp [hne],
        hd.append (digits_replicate_zero _), .fraction ?_, rfl⟩
      simp [Digits]
    · split
      · rename_i hp
        refine ⟨digits.take (digits.length + d.exponent).toNat, _, ?_,
          fun c hc => hd c (List.mem_of_mem_take hc),
          .fraction fun c hc => hd c (List.mem_of_mem_drop hc), rfl⟩
        have := List.length_pos_iff.2 hne
        refine List.length_pos_iff.1 ?_
        rw [List.length_take]
        omega
      · exact ⟨['0'], _, by simp, by simp [Digits],
          .fraction ((digits_replicate_zero _).append hd), rfl⟩
  · match digits, hd, hne with
    | [c], hd, hne => exact ⟨[c], _, hne, hd, .exponent (.printed _), rfl⟩
    | c :: c' :: cs, hd, _ =>
      have hf : Digits (c' :: cs) := fun x hx => hd x (List.mem_cons_of_mem _ hx)
      exact ⟨[c], _, by simp, fun x hx => hd x (by simp_all), .both hf (.printed _), rfl⟩

/-- The text of a float without its sign. -/
theorem float_text_shape (x : Binary64) :
    ∃ ds tail, ds ≠ [] ∧ Digits ds ∧ FloatTail tail ∧
      (if x.isZero then "0.0".toList else decimalText floatFormat x.shortest) = ds ++ tail := by
  split
  · exact ⟨['0'], ['.', '0'], by simp, by simp [Digits], .fraction (by simp [Digits]), rfl⟩
  · exact decimalText_shape _ _

/-! ### Strings -/

theorem hexValue?_hexDigit : ∀ n, n < 16 → hexValue? (hexDigit n) = some n := by decide

/-- How a text is written between the quotes of a string: the text that is written, and the one
that it says. -/
inductive Quoted : List Char → List Char → Prop where
  | nil : Quoted [] []
  | plain {c : Char} {s t : List Char} (hc : 32 ≤ c.toNat) (hquote : c ≠ '"') (hslash : c ≠ '\\')
      (h : Quoted s t) : Quoted (c :: s) (c :: t)
  | escape {c x : Char} {s t : List Char} (hx : unescape? c = some x) (h : Quoted s t) :
      Quoted ('\\' :: c :: s) (x :: t)
  | code {a b c d : Char} {n : Nat} {s t : List Char} (hn : hexValue4? a b c d = some n)
      (htrail : isTrailingSurrogate n = false) (hlead : isLeadingSurrogate n = false)
      (h : Quoted s t) : Quoted ('\\' :: 'u' :: a :: b :: c :: d :: s) (Char.ofNat n :: t)
  | pair {a b c d e f g h' : Char} {n m : Nat} {s t : List Char}
      (hn : hexValue4? a b c d = some n) (htrail : isTrailingSurrogate n = false)
      (hlead : isLeadingSurrogate n = true) (hm : hexValue4? e f g h' = some m)
      (htrail' : isTrailingSurrogate m = true) (h : Quoted s t) :
      Quoted ('\\' :: 'u' :: a :: b :: c :: d :: '\\' :: 'u' :: e :: f :: g :: h' :: s)
        (pairChar n m :: t)

/-- What is written between quotes is read as what it says. -/
theorem readString_of_quoted {s t : List Char} (h : Quoted s t) (rest : List Char) :
    readString (s ++ '"' :: rest) = .ok (t, rest) := by
  induction h with
  | nil => rfl
  | @plain c s t hc hquote hslash h ih =>
    rw [List.cons_append, readString]
    · rw [if_neg (by omega), ih]
      rfl
    · simpa using hquote
    · rintro _ _ _ _ _ rfl
      exact absurd rfl hslash
    · rintro _ rfl
      exact absurd rfl hslash
    · rintro rfl
      exact absurd rfl hslash
    · rintro _ _ rfl
      exact absurd rfl hslash
  | @escape c x s t hx h ih =>
    have hu : c ≠ 'u' := by
      rintro rfl
      exact absurd hx.symm (Option.some_ne_none x)
    rw [List.cons_append, List.cons_append, readString]
    · simp only [hx, ih]
      rfl
    · rintro _ _ _ _ _ rfl
      exact absurd rfl hu
    · exact fun hc => absurd hc hu
  | code hn htrail hlead h ih =>
    simp only [List.cons_append]
    rw [readString]
    simp only [hn, htrail, hlead, Bool.false_eq_true, if_false, ih]
    rfl
  | pair hn htrail hlead hm htrail' h ih =>
    simp only [List.cons_append]
    rw [readString]
    simp only [hn, htrail, hlead, Bool.false_eq_true, if_false, if_true, hm, htrail', ih]
    rfl

/-- A character is written as itself or escaped. -/
theorem quoted_escapeChar (c : Char) {s t : List Char} (h : Quoted s t) :
    Quoted (escapeChar c ++ s) (c :: t) := by
  unfold escapeChar
  by_cases h1 : c = '"'
  · subst h1
    exact .escape rfl h
  by_cases h2 : c = '\\'
  · subst h2
    exact .escape rfl h
  by_cases h3 : c = '\n'
  · subst h3
    exact .escape rfl h
  by_cases h4 : c = '\r'
  · subst h4
    exact .escape rfl h
  by_cases h5 : c = '\t'
  · subst h5
    exact .escape rfl h
  rw [if_neg h1, if_neg h2, if_neg h3, if_neg h4, if_neg h5]
  by_cases h6 : c.toNat = 8
  · obtain rfl : Char.ofNat 8 = c := by rw [← h6, Char.ofNat_toNat]
    exact .escape rfl h
  by_cases h7 : c.toNat = 12
  · obtain rfl : Char.ofNat 12 = c := by rw [← h7, Char.ofNat_toNat]
    exact .escape rfl h
  rw [if_neg h6, if_neg h7]
  by_cases h8 : c.toNat < 32
  · have ha := hexValue?_hexDigit (c.toNat / 16) (by omega)
    have hb := hexValue?_hexDigit (c.toNat % 16) (by omega)
    have h0 : hexValue? '0' = some 0 := by decide
    have hv : hexValue4? '0' '0' (hexDigit (c.toNat / 16)) (hexDigit (c.toNat % 16))
        = some c.toNat := by
      simp only [hexValue4?, h0, ha, hb, Option.bind_eq_bind, Option.bind_some, Option.pure_def]
      congr 1
      omega
    have ht : isTrailingSurrogate c.toNat = false := by
      simp only [isTrailingSurrogate, Bool.and_eq_false_iff, decide_eq_false_iff_not]
      omega
    have hl : isLeadingSurrogate c.toNat = false := by
      simp only [isLeadingSurrogate, Bool.and_eq_false_iff, decide_eq_false_iff_not]
      omega
    rw [if_pos h8]
    have hquoted := Quoted.code hv ht hl h
    rwa [Char.ofNat_toNat] at hquoted
  · rw [if_neg h8]
    exact .plain (by omega) h1 h2 h

theorem quoted_flatMap : ∀ t : List Char, Quoted (t.flatMap escapeChar) t
  | [] => .nil
  | c :: cs => quoted_escapeChar c (quoted_flatMap cs)

theorem readString_escaped (rest s : List Char) :
    readString (s.flatMap escapeChar ++ '"' :: rest) = .ok (s, rest) :=
  readString_of_quoted (quoted_flatMap s) rest

end CodeTidy.Json
