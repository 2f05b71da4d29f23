import CodeTidy.Proofs.Json.Scalars
import CodeTidy.Proofs.Json.WellFormed
import Mathlib.Algebra.Order.Field.Rat

/-!
# Numbers as they are written

A `Literal` is a number as it stands in a text, and `Literal.value` the number that it denotes.
`readNumber` takes in a literal as a whole (`Literal.rest_of_readNumber`), and makes of an integer
literal an integer of 64 bits or else a float (`readNumber_integer`).
-/

namespace CodeTidy

def signed (negative : Bool) (magnitude : ℚ) : ℚ :=
  if negative then -magnitude else magnitude

theorem signed_inj {negative : Bool} {a b : ℚ} : signed negative a = signed negative b ↔ a = b := by
  cases negative <;> simp [signed]

namespace Json

/-- The power of ten by which an exponent multiplies. -/
def Exponent.value (e : Exponent) : Int :=
  if e.sign = ['-'] then -Nat.ofDigitChars 10 e.digits 0 else Nat.ofDigitChars 10 e.digits 0

theorem Exponent.value_printed (n : Int) : (Exponent.printed n).value = n := by
  have hsign : (Exponent.printed n).sign = [if n < 0 then '-' else '+'] := rfl
  have hdigits : (Exponent.printed n).digits = Nat.toDigits 10 n.natAbs := rfl
  rw [value, hsign, hdigits, Nat.ofDigitChars_toDigits (by decide) (by decide)]
  by_cases h : n < 0
  · rw [if_pos h, if_pos rfl]
    omega
  · rw [if_neg h, if_neg (by decide)]
    omega

/-- A number as it is written: its sign, the part before its point, the digits after it (none if
there is no point) and its exponent. -/
structure Literal where
  negative : Bool
  whole : Nat
  fraction : List Char
  exponent? : Option Exponent
  isDigits : Digits fraction

namespace Literal

/-- What follows the integer part. -/
def tail (l : Literal) : List Char :=
  (if l.fraction = [] then [] else '.' :: l.fraction) ++ l.exponent?.elim [] Exponent.text

/-- The text without the sign. -/
def body (l : Literal) : List Char :=
  Nat.toDigits 10 l.whole ++ l.tail

def text (l : Literal) : List Char :=
  (if l.negative then ['-'] else []) ++ l.body

def value (l : Literal) : ℚ :=
  signed l.negative (Nat.ofDigitChars 10 l.fraction l.whole
    * 10 ^ (l.exponent?.elim 0 Exponent.value - l.fraction.length))

/-- The literal of an integer, of any size. -/
def integer (negative : Bool) (magnitude : Nat) : Literal :=
  ⟨negative, magnitude, [], none, by simp [Digits]⟩

theorem body_integer (negative : Bool) (magnitude : Nat) :
    (integer negative magnitude).body = Nat.toDigits 10 magnitude := by
  simp [body, tail, integer]

theorem value_integer (negative : Bool) (magnitude : Nat) :
    (integer negative magnitude).value = signed negative magnitude := by
  simp [value, integer]

/-- A literal is one of an integer, or what follows its integer part makes it a float. -/
theorem eq_integer_or_floatTail (l : Literal) :
    l = integer l.negative l.whole ∨ FloatTail l.tail := by
  obtain ⟨negative, whole, fraction, exponent?, hd⟩ := l
  by_cases hf : fraction = []
  · subst hf
    cases exponent? with
    | none => exact .inl rfl
    | some e => exact .inr (.exponent e)
  · refine .inr ?_
    rw [tail, if_neg hf]
    cases exponent? with
    | none =>
      rw [Option.elim_none, List.append_nil]
      exact .fraction hd
    | some e => exact .both hd e

end Literal

/-! ### Reading -/

theorem absorb_append {rest : List Char} (hr : NoDigit rest) :
    ∀ (ds : List Char) (significand kept dropped : Nat), Digits ds →
      absorb significand kept dropped (ds ++ rest)
        = { absorb significand kept dropped ds with rest := rest }
  | [], significand, kept, dropped, _ => by
    cases rest with
    | nil => rfl
    | cons c cs => simp [absorb, hr c rfl]
  | c :: cs, significand, kept, dropped, hd => by
    obtain ⟨hc, hcs⟩ := digits_cons.1 hd
    rw [List.cons_append, absorb, absorb, if_pos hc, if_pos hc]
    dsimp only
    split
    · exact absorb_append hr cs _ _ _ hcs
    · exact absorb_append hr cs _ _ _ hcs

/-- What is taken in does not depend on how many digits were taken in before. -/
theorem absorb_kept : ∀ (s : List Char) (significand kept kept' dropped : Nat),
    (absorb significand kept dropped s).significand
        = (absorb significand kept' dropped s).significand ∧
      (absorb significand kept dropped s).dropped
        = (absorb significand kept' dropped s).dropped
  | [], _, _, _, _ => ⟨rfl, rfl⟩
  | c :: cs, significand, kept, kept', dropped => by
    rw [absorb, absorb]
    dsimp only
    split
    · split
      · exact absorb_kept cs _ _ _ _
      · exact absorb_kept cs _ _ _ _
    · exact ⟨rfl, rfl⟩

theorem le_dropped_absorb : ∀ (s : List Char) (significand kept dropped : Nat),
    dropped ≤ (absorb significand kept dropped s).dropped
  | [], _, _, _ => le_rfl
  | c :: cs, significand, kept, dropped => by
    rw [absorb]
    dsimp only
    split
    · split
      · rename_i h
        rw [h.1]
        exact Nat.zero_le _
      · exact (Nat.le_succ _).trans (le_dropped_absorb cs _ _ _)
    · exact le_rfl

/-- Where no digit was dropped the number fits. -/
theorem ofDigitChars_le_of_dropped_eq_zero : ∀ {ds : List Char} {significand kept : Nat},
    Digits ds → significand ≤ maxSignificand → (absorb significand kept 0 ds).dropped = 0 →
    Nat.ofDigitChars 10 ds significand ≤ maxSignificand
  | [], significand, kept, _, hs, _ => by
    rw [Nat.ofDigitChars_nil]
    exact hs
  | c :: cs, significand, kept, hd, hs, h => by
    obtain ⟨hc, hcs⟩ := digits_cons.1 hd
    have e : 10 * significand + (c.toNat - '0'.toNat) = significand * 10 + digitValue c := by
      rw [Nat.mul_comm]
      rfl
    rw [absorb, if_pos hc] at h
    dsimp only at h
    rw [Nat.ofDigitChars_cons, e]
    split at h
    · rename_i hnext
      exact ofDigitChars_le_of_dropped_eq_zero hcs hnext.2 h
    · have hle := le_dropped_absorb cs significand kept 1
      rw [Nat.zero_add] at h
      omega

/-- The float that is read for a natural number, of any size, unless it is too large. -/
def floatOf? (magnitude : Nat) : Option Binary64 :=
  let a := absorb 0 0 0 (Nat.toDigits 10 magnitude)
  Binary64.ofRatio a.significand 1 >>= (·.scale10 a.dropped)

/-- The number that is read for an integer literal. -/
def integerNumber? (negative : Bool) (magnitude : Nat) : Option Number :=
  if negative = false ∧ magnitude ≤ maxSignificand then some (.int magnitude)
  else if negative = true ∧ 0 < magnitude ∧ magnitude ≤ 0x8000000000000000 then
    some (.int (-magnitude))
  else (floatOf? magnitude).map (.float negative)

/-- What is read where a number stands before `rest`. -/
def readAs (rest : List Char) : Option Number → Read Number
  | some n => .ok (n, rest)
  | none => .error (.before .numberOutOfRange rest)

theorem finishFloat_eq (negative : Bool) (significand : Nat) (exponent : Int) (rest : List Char) :
    finishFloat negative significand exponent rest
      = readAs rest ((Binary64.ofRatio significand 1 >>= (·.scale10 exponent)).map
        (.float negative)) := by
  unfold finishFloat
  cases Binary64.ofRatio significand 1 >>= (·.scale10 exponent) <;> rfl

theorem floatOf?_of_le {m : Nat} (hm : m ≤ maxSignificand) :
    floatOf? m = Binary64.ofRatio m 1 >>= (·.scale10 0) := by
  have hv := Nat.ofDigitChars_toDigits (b := 10) (n := m) (by decide) (by decide)
  have hnil : NoDigit [] := by simp [NoDigit]
  have h := absorb_digits hnil (Nat.toDigits 10 m) 0 0 (digits_toDigits m) (hv.symm ▸ hm)
  rw [List.append_nil, hv] at h
  rw [floatOf?, h]
  rfl

/-- **An integer literal is read as an integer if it fits 64 bits, and else as a float**; the zero
with a sign is a float. -/
theorem readNumber_integer {rest : List Char} (hr : Stops rest) (negative : Bool) (m : Nat) :
    readNumber negative (Nat.toDigits 10 m ++ rest) = readAs rest (integerNumber? negative m) := by
  by_cases hm : m ≤ maxSignificand
  · rw [readNumber_toDigits hm hr, finishInteger, integerNumber?, floatOf?_of_le hm, finishFloat_eq]
    cases negative with
    | false => simp [hm, readAs]
    | true =>
      by_cases hneg : 0 < m ∧ m ≤ 0x8000000000000000
      · simp [hneg, readAs]
      · simp [hneg]
  · -- some digit is dropped, so neither integer is tried
    have hpos : 0 < m := by omega
    have hd := digits_toDigits m
    have hz := head_toDigits_ne_zero hpos
    have hv := Nat.ofDigitChars_toDigits (b := 10) (n := m) (by decide) (by decide)
    rw [integerNumber?, if_neg fun h => hm h.2,
      if_neg fun h => hm (h.2.2.trans (by decide)), floatOf?]
    cases ht : Nat.toDigits 10 m with
    | nil => exact absurd ht Nat.toDigits_ne_nil
    | cons c cs =>
      rw [ht] at hd hz hv
      obtain ⟨hc, hcs⟩ := digits_cons.1 hd
      have hfirst : 0 * 10 + digitValue c = digitValue c := by rw [Nat.zero_mul, Nat.zero_add]
      have hfits : digitValue c ≤ maxSignificand := (digitValue_le hc).trans (by decide)
      have habsorb : absorb 0 0 0 (c :: cs) = absorb (digitValue c) 1 0 cs := by
        rw [absorb, if_pos hc, hfirst, if_pos ⟨rfl, hfits⟩]
      obtain ⟨hs, hdropped⟩ := absorb_kept cs (digitValue c) 0 1 0
      have hne : (absorb 0 0 0 (c :: cs)).dropped ≠ 0 := fun h =>
        hm (hv ▸ ofDigitChars_le_of_dropped_eq_zero hd (Nat.zero_le _) h)
      rw [habsorb] at hne ⊢
      rw [List.cons_append, readNumber, if_pos hc]
      · dsimp only
        rw [absorb_append hr.noDigit cs _ _ _ hcs, readTail_of_stops hr]
        dsimp only
        rw [hs, hdropped, if_neg hne, finishFloat_eq]
      · simpa using hz

/-- **A literal is taken in as a whole.** -/
theorem Literal.rest_of_readNumber {rest rest' : List Char} {n : Number} (hr : Stops rest)
    (l : Literal) (h : readNumber l.negative (l.body ++ rest) = .ok (n, rest')) : rest' = rest := by
  rcases l.eq_integer_or_floatTail with hl | ht
  · rw [hl, body_integer, readNumber_integer hr] at h
    cases hn : integerNumber? l.negative l.whole with
    | none =>
      rw [show (integer l.negative l.whole).negative = l.negative from rfl, hn] at h
      simp [readAs] at h
    | some k =>
      rw [show (integer l.negative l.whole).negative = l.negative from rfl, hn] at h
      exact (Prod.mk.inj (Except.ok.inj h)).2.symm
  · exact (readsFloat_readNumber (digits_toDigits l.whole) ht hr l.negative n rest' h).1

end Json

end CodeTidy
