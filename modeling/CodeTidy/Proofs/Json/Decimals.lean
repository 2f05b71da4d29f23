import CodeTidy.Proofs.Json.Literals

/-!
# Numbers as they are printed

Every number is printed as a literal (`Number.text_literal`), whose value is the integer itself or
the shortest decimal of the float (`Number.value_literal`).  So an integer literal that is read and
printed keeps its value exactly when it `Survives`: it fits 64 bits, or it is the shortest decimal of
the float that is read (`value_literal_iff`).
-/

namespace CodeTidy

namespace Json

/-! ### Digits of decimals -/

theorem toDigits_div_pow : ∀ {k n : Nat}, k < (Nat.toDigits 10 n).length →
    Nat.toDigits 10 (n / 10 ^ k) = (Nat.toDigits 10 n).take ((Nat.toDigits 10 n).length - k)
  | 0, n, _ => by simp
  | k + 1, n, h => by
    have hn : 10 ≤ n := by
      by_contra hlt
      rw [Nat.toDigits_of_lt_base (by omega)] at h
      simp at h
    rw [Nat.toDigits_of_base_le (by decide) hn, List.length_append, List.length_singleton] at h ⊢
    rw [Nat.pow_succ', ← Nat.div_div_eq_div_mul, toDigits_div_pow (by omega),
      Nat.add_sub_add_right, List.take_append_of_le_length (Nat.sub_le _ _)]

theorem toDigits_mul_pow {n : Nat} (hn : 0 < n) : ∀ k : Nat,
    Nat.toDigits 10 (n * 10 ^ k) = Nat.toDigits 10 n ++ List.replicate k '0'
  | 0 => by simp
  | k + 1 => by
    have hpos : 0 < n * 10 ^ k := Nat.mul_pos hn (Nat.pow_pos (by decide))
    have e : n * 10 ^ (k + 1) = n * 10 ^ k * 10 := by rw [Nat.pow_succ, Nat.mul_assoc]
    rw [e, Nat.toDigits_of_base_le (by decide) (by omega), Nat.mul_div_cancel _ (by decide),
      Nat.mul_mod_left, toDigits_mul_pow hn k, List.append_assoc, List.replicate_succ']
    rfl

/-- The digits that are dropped, after the number of the others, give the number back. -/
theorem ofDigitChars_drop {k n : Nat} (h : k < (Nat.toDigits 10 n).length) :
    Nat.ofDigitChars 10 ((Nat.toDigits 10 n).drop ((Nat.toDigits 10 n).length - k)) (n / 10 ^ k)
      = n := by
  have hv : ∀ m, Nat.ofDigitChars 10 (Nat.toDigits 10 m) 0 = m := fun m =>
    Nat.ofDigitChars_toDigits (by decide) (by decide)
  rw [← hv (n / 10 ^ k), toDigits_div_pow h, ← Nat.ofDigitChars_append, List.take_append_drop, hv]

theorem digits_drop (n k : Nat) : Digits ((Nat.toDigits 10 n).drop k) :=
  fun c hc => digits_toDigits n c (List.mem_of_mem_drop hc)

theorem length_toDigits_pos (n : Nat) : 0 < (Nat.toDigits 10 n).length :=
  List.length_pos_iff.2 Nat.toDigits_ne_nil

/-! ### The forms of a printed decimal -/

namespace Literal

/-- The literal of `n · 10 ^ k`, with zeros before its point. -/
def expanded (negative : Bool) (n k : Nat) : Literal :=
  ⟨negative, n * 10 ^ k, ['0'], none, by simp [Digits]⟩

/-- The literal of `n / 10 ^ k`, with `k` of the digits of `n` after its point. -/
def divided (negative : Bool) (n k : Nat) : Literal :=
  ⟨negative, n / 10 ^ k, (Nat.toDigits 10 n).drop ((Nat.toDigits 10 n).length - k), none,
    digits_drop _ _⟩

/-- The literal that has zeros and the digits of `n` after its point. -/
def small (negative : Bool) (n zeros : Nat) : Literal :=
  ⟨negative, 0, List.replicate zeros '0' ++ Nat.toDigits 10 n, none,
    (digits_replicate_zero _).append (digits_toDigits _)⟩

/-- The literal with one digit of `n` before its point and an exponent. -/
def scientific (negative : Bool) (n : Nat) (exponent : Int) : Literal :=
  ⟨negative, n / 10 ^ ((Nat.toDigits 10 n).length - 1), (Nat.toDigits 10 n).drop 1,
    some (.printed exponent), digits_drop _ _⟩

variable (negative : Bool) {n k : Nat}

theorem body_expanded (hn : 0 < n) (k : Nat) :
    (expanded negative n k).body = Nat.toDigits 10 n ++ List.replicate k '0' ++ ['.', '0'] := by
  simp [body, tail, expanded, toDigits_mul_pow hn]

theorem value_expanded (n k : Nat) :
    (expanded negative n k).value = signed negative (n * 10 ^ k) := by
  have h : Nat.ofDigitChars 10 ['0'] (n * 10 ^ k) = n * 10 ^ k * 10 := by
    rw [Nat.ofDigitChars_cons, Nat.ofDigitChars_nil]
    omega
  rw [value, expanded]
  dsimp only
  rw [h]
  simp

theorem body_divided (h : k < (Nat.toDigits 10 n).length) (hk : 0 < k) :
    (divided negative n k).body
      = (Nat.toDigits 10 n).take ((Nat.toDigits 10 n).length - k)
        ++ '.' :: (Nat.toDigits 10 n).drop ((Nat.toDigits 10 n).length - k) := by
  have hne : (Nat.toDigits 10 n).drop ((Nat.toDigits 10 n).length - k) ≠ [] := by
    rw [Ne, List.drop_eq_nil_iff]
    omega
  rw [body, tail, divided]
  dsimp only
  rw [if_neg hne, toDigits_div_pow h, Option.elim_none, List.append_nil]

theorem value_divided (h : k < (Nat.toDigits 10 n).length) :
    (divided negative n k).value = signed negative (n * 10 ^ (-k : Int)) := by
  have hlength : ((Nat.toDigits 10 n).drop ((Nat.toDigits 10 n).length - k)).length = k := by
    rw [List.length_drop]
    omega
  rw [value, divided]
  dsimp only
  rw [ofDigitChars_drop h, hlength, Option.elim_none, zero_sub]

theorem body_small (n zeros : Nat) :
    (small negative n zeros).body
      = '0' :: '.' :: List.replicate zeros '0' ++ Nat.toDigits 10 n := by
  have hne : List.replicate zeros '0' ++ Nat.toDigits 10 n ≠ [] :=
    List.append_ne_nil_of_right_ne_nil _ Nat.toDigits_ne_nil
  rw [body, tail, small]
  dsimp only
  rw [if_neg hne, Nat.toDigits_zero]
  simp

theorem value_small (n zeros : Nat) :
    (small negative n zeros).value
      = signed negative (n * 10 ^ (-(zeros + (Nat.toDigits 10 n).length : Nat) : Int)) := by
  have hzeros : Nat.ofDigitChars 10 (List.replicate zeros '0') 0 = 0 := by
    induction zeros with
    | zero => rfl
    | succ zeros ih =>
      rw [List.replicate_succ, Nat.ofDigitChars_cons]
      exact ih
  rw [value, small]
  dsimp only
  rw [Nat.ofDigitChars_append, hzeros, Nat.ofDigitChars_toDigits (by decide) (by decide),
    List.length_append, List.length_replicate, Option.elim_none, zero_sub]

theorem body_scientific (n : Nat) (exponent : Int) :
    (scientific negative n exponent).body
      = (match Nat.toDigits 10 n with
          | [] => []
          | [c] => [c]
          | c :: cs => c :: '.' :: cs) ++ (Exponent.printed exponent).text := by
  have hwhole := toDigits_div_pow (n := n) (k := (Nat.toDigits 10 n).length - 1)
    (Nat.sub_lt (length_toDigits_pos n) Nat.one_pos)
  have hone : (Nat.toDigits 10 n).length - ((Nat.toDigits 10 n).length - 1) = 1 := by
    have := length_toDigits_pos n
    omega
  rw [hone] at hwhole
  have hbody : (scientific negative n exponent).body
      = (Nat.toDigits 10 n).take 1 ++ ((if (Nat.toDigits 10 n).drop 1 = [] then []
        else '.' :: (Nat.toDigits 10 n).drop 1) ++ (Exponent.printed exponent).text) := by
    rw [← hwhole]
    rfl
  rw [hbody]
  match Nat.toDigits 10 n, Nat.toDigits_ne_nil (b := 10) (n := n) with
  | [c], _ => simp
  | c :: c' :: cs, _ => simp

theorem value_scientific (n : Nat) (exponent : Int) :
    (scientific negative n exponent).value
      = signed negative (n * 10 ^ (exponent + 1 - (Nat.toDigits 10 n).length)) := by
  have hpos := length_toDigits_pos n
  have hn := ofDigitChars_drop (n := n) (k := (Nat.toDigits 10 n).length - 1)
    (Nat.sub_lt hpos Nat.one_pos)
  have hone : (Nat.toDigits 10 n).length - ((Nat.toDigits 10 n).length - 1) = 1 := by omega
  have hexp : exponent - ((Nat.toDigits 10 n).length - 1 : Nat)
      = exponent + 1 - (Nat.toDigits 10 n).length := by omega
  rw [hone] at hn
  rw [value, scientific]
  dsimp only
  rw [hn, List.length_drop, Option.elim_some, Exponent.value_printed, hexp]

end Literal

/-! ### Decimals -/

def decimalValue (d : Decimal) : ℚ :=
  d.digits * 10 ^ d.exponent

/-- Where the point of a decimal stands, counted from its first digit. -/
def pointOf (d : Decimal) : Int :=
  (Nat.toDigits 10 d.digits).length + d.exponent

/-- Whether a decimal is written without an exponent. -/
def FloatFormat.Positional (f : FloatFormat) (d : Decimal) : Prop :=
  f.minPositional ≤ pointOf d - 1 ∧ pointOf d - 1 < f.maxPositional

instance (f : FloatFormat) (d : Decimal) : Decidable (f.Positional d) :=
  inferInstanceAs (Decidable (_ ∧ _))

namespace Literal

/-- The literal as which a decimal is written. -/
def ofDecimal (f : FloatFormat) (negative : Bool) (d : Decimal) : Literal :=
  if f.Positional d then
    if 0 ≤ d.exponent then expanded negative d.digits d.exponent.toNat
    else if 0 < pointOf d then divided negative d.digits (-d.exponent).toNat
    else small negative d.digits (-pointOf d).toNat
  else scientific negative d.digits (pointOf d - 1)

variable {f : FloatFormat} {d : Decimal}

theorem negative_ofDecimal (negative : Bool) : (ofDecimal f negative d).negative = negative := by
  unfold ofDecimal
  split_ifs <;> rfl

/-- The literal is written as the decimal is, unless that is zero and written with zeros. -/
theorem body_ofDecimal (negative : Bool) (h : f.Positional d → 0 < d.digits) :
    (ofDecimal f negative d).body = decimalText f d := by
  have hpos := length_toDigits_pos d.digits
  unfold ofDecimal
  split_ifs with hp he hpoint
  · rw [body_expanded negative (h hp), decimalText]
    exact ((if_pos hp).trans (if_pos he)).symm
  · have hk : (Nat.toDigits 10 d.digits).length - (-d.exponent).toNat = (pointOf d).toNat := by
      unfold pointOf
      omega
    unfold pointOf at hpoint
    rw [body_divided negative (by omega) (by omega), hk, decimalText]
    exact ((if_pos hp).trans ((if_neg he).trans (if_pos hpoint))).symm
  · rw [body_small, decimalText]
    exact ((if_pos hp).trans ((if_neg he).trans (if_neg hpoint))).symm
  · rw [body_scientific, decimalText]
    exact (if_neg hp).symm

theorem value_ofDecimal (negative : Bool) :
    (ofDecimal f negative d).value = signed negative (decimalValue d) := by
  have hpos := length_toDigits_pos d.digits
  unfold ofDecimal decimalValue
  split_ifs with hp he hpoint
  · rw [value_expanded, ← zpow_natCast, Int.toNat_of_nonneg he]
  · unfold pointOf at hpoint
    rw [value_divided negative (by omega), Int.toNat_of_nonneg (by omega), neg_neg]
  · have he' : (-((-pointOf d).toNat + (Nat.toDigits 10 d.digits).length : Nat) : Int)
        = d.exponent := by
      unfold pointOf at hpoint ⊢
      omega
    rw [value_small, he']
  · have he' : pointOf d - 1 + 1 - (Nat.toDigits 10 d.digits).length = d.exponent := by
      unfold pointOf
      omega
    rw [value_scientific, he']

end Literal

end Json

/-! ### Shortest decimals -/

namespace Binary64

variable {x : Binary64} {i : Interval} {d : Nat}

theorem interval_low_pos (hx : x.isZero = false) : 0 < x.interval.low := by
  have hm : x.mantissa ≠ 0 := by simpa [isZero] using hx
  have hscaled : ∀ n e, 0 < n → 0 < (scaled n 1 e).1 := by
    intro n e hn
    unfold scaled
    split
    · exact Nat.mul_pos hn (Nat.pow_pos (by decide))
    · exact hn
  refine hscaled _ _ ?_
  split <;> omega

theorem contains_zero (hi : 0 < i.low) {den : Nat} (hden : 0 < den) : i.contains 0 den = false := by
  have hlow : 0 < i.low * den := Nat.mul_pos hi hden
  unfold Interval.contains
  rw [Nat.zero_mul]
  dsimp only
  split
  · rw [decide_eq_false (Nat.not_le.2 hlow), Bool.false_and]
  · rw [decide_eq_false (Nat.not_lt_zero _), Bool.false_and]

theorem le_roundQuotient (num den : Nat) : num / den ≤ roundQuotient num den := by
  unfold roundQuotient
  dsimp only
  split_ifs <;> omega

theorem pos_of_neighbour? (hi : 0 < i.low) {e : Int} (h : i.neighbour? e = some d) : 0 < d := by
  unfold Interval.neighbour? at h
  have hden : 0 < (if 0 ≤ e then (Nat.pow 10 e.toNat, 1) else (1, Nat.pow 10 (-e).toNat)).2 := by
    split
    · exact Nat.one_pos
    · exact Nat.pow_pos (by decide)
  generalize (if 0 ≤ e then (Nat.pow 10 e.toNat, 1) else (1, Nat.pow 10 (-e).toNat)) = p
    at h hden
  dsimp only at h
  have hlow : i.contains (i.value * p.2 / (i.den * p.1) * p.1) p.2 = true →
      0 < i.value * p.2 / (i.den * p.1) := by
    intro hc
    by_contra hzero
    rw [Nat.eq_zero_of_not_pos hzero, Nat.zero_mul, contains_zero hi hden] at hc
    exact Bool.noConfusion hc
  split at h
  · exact absurd h.symm (Option.some_ne_none d)
  · rename_i hc _
    rw [← Option.some.inj h]
    exact hlow hc
  · rw [← Option.some.inj h]
    exact Nat.succ_pos _
  · rename_i hc _
    rw [← Option.some.inj h]
    exact (hlow hc).trans_le (le_roundQuotient _ _)

/-- The digits are not zero unless all tries were in vain. -/
theorem digits_search (hi : 0 < i.low) (magnitude : Int) : ∀ tries count : Nat,
    0 < (i.search magnitude tries count).digits ∨
      (i.search magnitude tries count).exponent = (tries + count : Nat)
  | 0, count => .inr (by simp [Interval.search])
  | tries + 1, count => by
    rw [Interval.search]
    split
    · rename_i d hd
      refine .inl ?_
      split
      · exact Nat.one_pos
      · exact pos_of_neighbour? hi hd
    · have ih := digits_search hi magnitude tries (count + 1)
      rwa [show tries + (count + 1) = tries + 1 + count by omega] at ih

theorem digits_shortest (hx : x.isZero = false) :
    0 < x.shortest.digits ∨ x.shortest.exponent = 17 :=
  digits_search (interval_low_pos hx) _ 17 0

end Binary64

namespace Json

/-- The number as which a float without its sign is printed. -/
def printedValue (x : Binary64) : ℚ :=
  if x.isZero then 0 else decimalValue x.shortest

/-! ### Printed numbers -/

namespace Number

/-- The literal as which a number is printed. -/
def literal : Number → Literal
  | .int (.ofNat n) => .integer false n
  | .int (.negSucc n) => .integer true (n + 1)
  | .float negative x =>
    if x.isZero then .expanded negative 0 0 else .ofDecimal floatFormat negative x.shortest

/-- A float that was searched in vain would be printed with an exponent. -/
theorem positional_shortest {x : Binary64} (hx : x.isZero = false)
    (h : floatFormat.Positional x.shortest) : 0 < x.shortest.digits := by
  refine (Binary64.digits_shortest hx).resolve_right fun he => ?_
  have hpos := length_toDigits_pos x.shortest.digits
  have hmax := h.2
  have h16 : floatFormat.maxPositional = 16 := rfl
  rw [pointOf, he, h16] at hmax
  omega

/-- **Every number is printed as a literal.** -/
theorem text_literal (n : Number) : n.literal.text = n.text := by
  match n with
  | .int (.ofNat n) => exact Literal.body_integer false n
  | .int (.negSucc n) => exact congrArg ('-' :: ·) (Literal.body_integer true (n + 1))
  | .float negative x =>
    rw [literal, text]
    split
    · cases negative <;> rfl
    · rename_i hx
      rw [Literal.text, Literal.negative_ofDecimal,
        Literal.body_ofDecimal negative (positional_shortest (Bool.not_eq_true _ ▸ hx))]

theorem value_int (n : Int) : (literal (.int n)).value = n := by
  cases n with
  | ofNat n => simp [literal, Literal.value_integer, signed]
  | negSucc n =>
    rw [literal, Literal.value_integer]
    simp [signed, Int.negSucc_eq]

theorem value_float (negative : Bool) (x : Binary64) :
    (literal (.float negative x)).value = signed negative (printedValue x) := by
  rw [literal, printedValue]
  cases x.isZero with
  | true => simp [Literal.value_expanded]
  | false => exact Literal.value_ofDecimal negative

end Number

/-! ### Integers that are read and printed -/

/-- Whether an integer with this sign is read as one. -/
def FitsSigned (negative : Bool) (magnitude : Nat) : Prop :=
  if negative then magnitude ≤ 0x8000000000000000 else magnitude ≤ maxSignificand

instance (negative : Bool) (magnitude : Nat) : Decidable (FitsSigned negative magnitude) :=
  inferInstanceAs (Decidable (if negative then _ ≤ _ else _ ≤ _))

/-- The integers that fit 64 bits, and those that are the shortest decimal of the float as which
they are read. -/
def Survives (negative : Bool) (magnitude : Nat) : Prop :=
  FitsSigned negative magnitude ∨ ∃ x, floatOf? magnitude = some x ∧ printedValue x = magnitude

theorem floatOf?_zero : floatOf? 0 = some .zero := by
  decide

/-- **The integer literals that keep their value when they are read and printed.** -/
theorem value_literal_iff {negative : Bool} {m : Nat} {n : Number}
    (h : integerNumber? negative m = some n) :
    n.literal.value = (Literal.integer negative m).value ↔ Survives negative m := by
  rw [Literal.value_integer]
  unfold integerNumber? at h
  split_ifs at h with hnat hneg
  · obtain rfl := Option.some.inj h
    obtain ⟨rfl, hm⟩ := hnat
    exact iff_of_true (Number.value_int m) (.inl hm)
  · obtain rfl := Option.some.inj h
    obtain ⟨rfl, -, hm⟩ := hneg
    refine iff_of_true ?_ (.inl hm)
    rw [Number.value_int]
    simp [signed]
  · obtain ⟨x, hx, rfl⟩ := Option.map_eq_some_iff.1 h
    rw [Number.value_float, signed_inj]
    refine ⟨fun hv => .inr ⟨x, hx, hv⟩, ?_⟩
    rintro (hfits | ⟨y, hy, hv⟩)
    · -- only the zero with a sign fits and is read as a float
      have hm : m = 0 := by
        cases negative with
        | false => exact absurd ⟨rfl, hfits⟩ hnat
        | true =>
          by_contra hm
          exact hneg ⟨rfl, Nat.pos_of_ne_zero hm, hfits⟩
      subst hm
      obtain rfl := Option.some.inj (floatOf?_zero.symm.trans hx)
      rfl
    · rw [Option.some.inj (hx.symm.trans hy), hv]

end Json

end CodeTidy
