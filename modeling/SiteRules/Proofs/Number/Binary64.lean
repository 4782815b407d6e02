import Mathlib.Tactic.Positivity
import Mathlib.Tactic.Ring
import SiteRules.Number.Binary64

/-!
# Theory of rounding

What a decimal reads as depends on its value alone, not on how it is spelled
(`Binary64.ofDecimal_mul_pow`). A number of the format is read from all quotients that are near
enough to it: a relative distance of half a unit in the seventeenth decimal digit is less than half
the distance between neighbours everywhere in the format (`Binary64.ofUnits_of_near`).
-/

namespace SiteRules.Binary64

theorem one_pos : 0 < one := by
  unfold one
  generalize 1074 = n
  exact Nat.two_pow_pos n

/-! ## The value alone matters -/

theorem roundQuotient_mul {c : Nat} (hc : 0 < c) (num den : Nat) :
    roundQuotient (num * c) (den * c) = roundQuotient num den := by
  have hlt : 2 * (num % den * c) < den * c ↔ 2 * (num % den) < den := by
    rw [← Nat.mul_assoc, Nat.mul_lt_mul_right hc]
  have heq : 2 * (num % den * c) = den * c ↔ 2 * (num % den) = den := by
    rw [← Nat.mul_assoc, Nat.mul_left_inj hc.ne']
  simp only [roundQuotient, Nat.mul_div_mul_right _ _ hc, Nat.mul_mod_mul_right, hlt, heq]

/-- The number nearest to `units / den`, counted in units of the least magnitude. -/
def ofUnits (negative : Bool) (units den : Nat) : Binary64 :=
  let power := Nat.log2 (units / den) - 52
  let significand := roundQuotient units (den * Nat.pow 2 power)
  let (significand, power) :=
    if significand = Nat.pow 2 53 then (Nat.pow 2 52, power + 1) else (significand, power)
  if power > 2045 then .infinite negative else .finite negative significand power

theorem ofRatio_zero (negative : Bool) (den : Nat) :
    ofRatio negative 0 den = .finite negative 0 0 :=
  if_pos rfl

theorem ofRatio_eq_ofUnits {num : Nat} (hnum : num ≠ 0) (negative : Bool) (den : Nat) :
    ofRatio negative num den = ofUnits negative (num * one) den := by
  rw [ofRatio, ofUnits, if_neg hnum]

theorem ofUnits_mul (negative : Bool) {c : Nat} (hc : 0 < c) (units den : Nat) :
    ofUnits negative (units * c) (den * c) = ofUnits negative units den := by
  simp only [ofUnits, Nat.mul_div_mul_right _ _ hc, Nat.mul_right_comm den c, roundQuotient_mul hc]

theorem ofUnits_true (units den : Nat) :
    ofUnits true units den = (ofUnits false units den).neg := by
  unfold ofUnits
  dsimp only
  rw [apply_ite neg]
  rfl

theorem ofRatio_mul (negative : Bool) {c : Nat} (hc : 0 < c) (num den : Nat) :
    ofRatio negative (num * c) (den * c) = ofRatio negative num den := by
  rcases Nat.eq_zero_or_pos num with rfl | hnum
  · rw [Nat.zero_mul, ofRatio_zero, ofRatio_zero]
  · rw [ofRatio_eq_ofUnits (Nat.mul_pos hnum hc).ne', ofRatio_eq_ofUnits hnum.ne',
      Nat.mul_right_comm, ofUnits_mul negative hc]

/-- Equal quotients are rounded to the same number. -/
theorem ofRatio_congr {negative : Bool} {a b c d : Nat} (hb : 0 < b) (hd : 0 < d)
    (h : a * d = c * b) : ofRatio negative a b = ofRatio negative c d := by
  rw [← ofRatio_mul negative hd a b, h, Nat.mul_comm b d, ofRatio_mul negative hb]

theorem ofRatio_true (num den : Nat) : ofRatio true num den = (ofRatio false num den).neg := by
  by_cases hnum : num = 0
  · rw [hnum, ofRatio_zero, ofRatio_zero]
    rfl
  · rw [ofRatio_eq_ofUnits hnum, ofRatio_eq_ofUnits hnum, ofUnits_true]

theorem ofDecimal_zero (negative : Bool) (exponent : Int) :
    ofDecimal negative 0 exponent = zero negative :=
  if_pos rfl

theorem ofDecimal_true (digits : Nat) (exponent : Int) :
    ofDecimal true digits exponent = (ofDecimal false digits exponent).neg := by
  simp only [ofDecimal, ofRatio_true, apply_ite neg]
  rfl

theorem relabel_ofUnits (label : Nat) (negative : Bool) (units den : Nat) :
    (ofUnits negative units den).relabel label = ofUnits negative units den := by
  unfold ofUnits
  dsimp only
  rw [apply_ite (relabel label)]
  rfl

theorem relabel_ofRatio (label : Nat) (negative : Bool) (num den : Nat) :
    (ofRatio negative num den).relabel label = ofRatio negative num den := by
  by_cases hnum : num = 0
  · rw [hnum, ofRatio_zero]
    rfl
  · rw [ofRatio_eq_ofUnits hnum, relabel_ofUnits]

/-- A decimal is read as a number, which has no label. -/
theorem relabel_ofDecimal (label : Nat) (negative : Bool) (digits : Nat) (exponent : Int) :
    (ofDecimal negative digits exponent).relabel label = ofDecimal negative digits exponent := by
  unfold ofDecimal
  dsimp only
  rw [apply_ite (relabel label), apply_ite (relabel label), apply_ite (relabel label),
    apply_ite (relabel label), relabel_ofRatio, relabel_ofRatio]
  rfl

/-- The sign of what is read is the sign given. -/
theorem ofDecimal_of_false {digits significand power : Nat} {exponent : Int}
    (h : ofDecimal false digits exponent = .finite false significand power) (negative : Bool) :
    ofDecimal negative digits exponent = .finite negative significand power := by
  cases negative with
  | false => exact h
  | true =>
    rw [ofDecimal_true, h]
    rfl

theorem lt_pow_decimalLength (n : Nat) : n < 10 ^ decimalLength n :=
  (Nat.length_toDigits_le_iff (by decide) Nat.length_toDigits_pos).1 (Nat.le_refl _)

theorem decimalLength_le_iff {n k : Nat} (hk : 0 < k) : decimalLength n ≤ k ↔ n < 10 ^ k :=
  Nat.length_toDigits_le_iff (by decide) hk

theorem pow_le_of_lt_decimalLength {n k : Nat} (hn : 0 < n) (h : k < decimalLength n) :
    10 ^ k ≤ n := by
  rcases Nat.eq_zero_or_pos k with rfl | hk
  · exact hn
  · exact Nat.not_lt.1 fun hlt => absurd ((decimalLength_le_iff hk).2 hlt) (Nat.not_le.2 h)

theorem decimalLength_mul_pow {n : Nat} (hn : 0 < n) (k : Nat) :
    decimalLength (n * 10 ^ k) = decimalLength n + k := by
  have hpos : 0 < decimalLength n := Nat.length_toDigits_pos
  apply Nat.le_antisymm
  · rw [decimalLength_le_iff (by omega), Nat.pow_add, Nat.mul_lt_mul_right (by positivity)]
    exact lt_pow_decimalLength n
  · -- the power of ten that has as many digits as the product is not above it
    have hlow := pow_le_of_lt_decimalLength hn (Nat.sub_lt hpos Nat.one_pos)
    have hprod := Nat.mul_le_mul_right (10 ^ k) hlow
    have hlt := Nat.lt_of_le_of_lt hprod (lt_pow_decimalLength (n * 10 ^ k))
    rw [← Nat.pow_add, Nat.pow_lt_pow_iff_right (by decide)] at hlt
    omega

/-- The quotient that a decimal is. -/
theorem ofDecimal_eq_ofRatio {digits : Nat} {exponent : Int} (hdigits : digits ≠ 0)
    (hhigh : (decimalLength digits : Int) + exponent ≤ 310)
    (hlow : -330 ≤ (decimalLength digits : Int) + exponent) (negative : Bool) :
    ofDecimal negative digits exponent =
      ofRatio negative (digits * 10 ^ exponent.toNat) (10 ^ (-exponent).toNat) := by
  simp only [ofDecimal, if_neg hdigits, if_neg (Int.not_lt.2 hhigh), if_neg (Int.not_lt.2 hlow)]
  split
  · have hzero : (-exponent).toNat = 0 := by omega
    rw [hzero]
    rfl
  · have hzero : exponent.toNat = 0 := by omega
    rw [hzero, Nat.pow_zero, Nat.mul_one]
    rfl

/-- Zeros at the end of the digits count for the exponent. -/
theorem ofDecimal_mul_pow (negative : Bool) (digits k : Nat) (exponent : Int) :
    ofDecimal negative (digits * 10 ^ k) exponent = ofDecimal negative digits (exponent + k) := by
  rcases Nat.eq_zero_or_pos digits with rfl | hdigits
  · rw [Nat.zero_mul, ofDecimal_zero, ofDecimal_zero]
  have hprod : digits * 10 ^ k ≠ 0 := by positivity
  -- both spellings are out of range together, since their first digits count for the same power
  have hlength := decimalLength_mul_pow hdigits k
  by_cases hhigh : (decimalLength digits : Int) + (exponent + k) ≤ 310
  · by_cases hlow : -330 ≤ (decimalLength digits : Int) + (exponent + k)
    · rw [ofDecimal_eq_ofRatio hprod (by omega) (by omega),
        ofDecimal_eq_ofRatio hdigits.ne' hhigh hlow]
      refine ofRatio_congr (by positivity) (by positivity) ?_
      rw [Nat.mul_assoc, Nat.mul_assoc, Nat.mul_assoc, ← Nat.pow_add, ← Nat.pow_add, ← Nat.pow_add]
      congr 2
      omega
    · have hlow' : ((decimalLength digits + k : Nat) : Int) + exponent < -330 := by omega
      simp only [ofDecimal, if_neg hprod, if_neg hdigits.ne', hlength]
      rw [if_neg (by omega), if_pos hlow', if_neg (by omega), if_pos (by omega)]
  · have hhigh' : ((decimalLength digits + k : Nat) : Int) + exponent > 310 := by omega
    simp only [ofDecimal, if_neg hprod, if_neg hdigits.ne', hlength]
    rw [if_pos hhigh', if_pos (by omega)]

/-! ## Numbers of the format -/

/-- A significand and a power of the format: the significand has at most 53 bits, and all of them
unless the power is least. -/
structure IsFormat (significand power : Nat) : Prop where
  lt : significand < 2 ^ 53
  le : power ≤ 2045
  normal : power = 0 ∨ 2 ^ 52 ≤ significand

theorem IsFormat.mul_pow_le {significand power m : Nat} (h : IsFormat significand power)
    (hm : power ≤ m) : significand * 2 ^ power ≤ 2 ^ 53 * 2 ^ m :=
  Nat.mul_le_mul h.lt.le (Nat.pow_le_pow_right Nat.two_pos hm)

/-- A quotient less than half away from a whole number is rounded to it. -/
theorem roundQuotient_eq {num den n : Nat} (hlow : 2 * (n * den) < 2 * num + den)
    (hhigh : 2 * num < 2 * (n * den) + den) : roundQuotient num den = n := by
  have hden : 0 < den := by omega
  have hsplit := Nat.div_add_mod num den
  have hmod := Nat.mod_lt num hden
  rw [Nat.mul_comm] at hsplit
  rcases Nat.lt_trichotomy (num / den) n with hlt | heq | hgt
  · -- below the number: it is the next one, and the quotient is past the middle
    have hle := Nat.mul_le_mul_right den hlt
    rw [Nat.succ_mul] at hle
    have hnext : n = num / den + 1 := by
      by_contra hne
      have hle' := Nat.mul_le_mul_right den (show num / den + 2 ≤ n by omega)
      rw [Nat.add_mul] at hle'
      omega
    simp only [roundQuotient]
    rw [if_neg (by omega), if_neg, ← hnext]
    rw [hnext, Nat.succ_mul (num / den)] at hlow
    omega
  · rw [heq] at hsplit
    simp only [roundQuotient, heq]
    rw [if_pos (by omega)]
  · have hle := Nat.mul_le_mul_right den hgt
    rw [Nat.succ_mul] at hle
    omega

theorem log2_div {num den k : Nat} (hden : 0 < den) (hlow : 2 ^ k * den ≤ num)
    (hhigh : num < 2 ^ (k + 1) * den) : Nat.log2 (num / den) = k := by
  have hle := (Nat.le_div_iff_mul_le hden).2 hlow
  have hne : num / den ≠ 0 := by
    have := Nat.two_pow_pos k
    omega
  exact (Nat.log2_eq_iff hne).2 ⟨hle, (Nat.div_lt_iff_lt_mul hden).2 hhigh⟩

theorem log2_div_lt {num den k : Nat} (hden : 0 < den) (hk : 0 < k) (hhigh : num < 2 ^ k * den) :
    Nat.log2 (num / den) < k := by
  by_cases hne : num / den = 0
  · rw [hne]
    exact hk
  · exact (Nat.log2_lt hne).2 ((Nat.div_lt_iff_lt_mul hden).2 hhigh)

section Round

variable {units den significand power : Nat}

theorem ofUnits_eq (hpower : Nat.log2 (units / den) - 52 = power)
    (hround : roundQuotient units (den * 2 ^ power) = significand) (hlt : significand < 2 ^ 53)
    (hle : power ≤ 2045) (negative : Bool) :
    ofUnits negative units den = .finite negative significand power := by
  have hround : roundQuotient units (den * Nat.pow 2 power) = significand := hround
  have hne : significand ≠ Nat.pow 2 53 := Nat.ne_of_lt hlt
  rw [ofUnits, hpower, hround, if_neg hne]
  exact if_neg (Nat.not_lt.2 hle)

/-- A significand that is rounded up to a power of two takes the next power. -/
theorem ofUnits_eq_carry (hpower : Nat.log2 (units / den) - 52 = power)
    (hround : roundQuotient units (den * 2 ^ power) = 2 ^ 53) (hlt : power < 2045)
    (negative : Bool) : ofUnits negative units den = .finite negative (2 ^ 52) (power + 1) := by
  have hround : roundQuotient units (den * Nat.pow 2 power) = Nat.pow 2 53 := hround
  rw [ofUnits, hpower, hround, if_pos rfl]
  exact if_neg (Nat.not_lt.2 hlt)

/-- How much of itself a number may be changed by when it is spelled with seventeen digits: one part
in this many. -/
def precision : Nat := 2 * 10 ^ 16

/-- A number of the format is read from all quotients that differ from it by no more than what
seventeen digits leave open. -/
theorem ofUnits_of_near (h : IsFormat significand power) (hpos : 0 < significand) (hden : 0 < den)
    (hlow : precision * (significand * (den * 2 ^ power)) ≤
      precision * units + significand * (den * 2 ^ power))
    (hhigh : precision * units ≤
      precision * (significand * (den * 2 ^ power)) + significand * (den * 2 ^ power))
    (negative : Bool) : ofUnits negative units den = .finite negative significand power := by
  obtain ⟨hlt, hle, hnormal⟩ := h
  have hscale : 0 < den * 2 ^ power := by positivity
  have hnext := Nat.mul_le_mul_right (den * 2 ^ power) hlt
  rw [Nat.succ_mul significand] at hnext
  -- the power is read off the bits of the quotient, which may have one bit less than the number
  by_cases hbits : power = 0 ∨ 2 ^ 52 * (den * 2 ^ power) ≤ units
  · -- the quotient has as many bits as the number
    have hround : roundQuotient units (den * 2 ^ power) = significand := by
      apply roundQuotient_eq <;> unfold precision at * <;> omega
    have hup : units < 2 ^ 53 * (den * 2 ^ power) := by
      unfold precision at *
      omega
    refine ofUnits_eq ?_ hround hlt hle negative
    rcases hbits with rfl | hbits
    · have hlog := log2_div_lt (k := 53) hden (by decide) (by simpa using hup)
      omega
    · rw [Nat.mul_left_comm, Nat.mul_comm, ← Nat.pow_add] at hbits hup
      rw [log2_div (k := 52 + power) hden hbits (by rwa [Nat.add_right_comm])]
      omega
  · -- it has one bit less, because it lies below a power of two, to which it is rounded
    obtain ⟨hne, hbits⟩ := not_or.1 hbits
    obtain ⟨q, rfl⟩ : ∃ q, power = q + 1 := ⟨power - 1, by omega⟩
    have hleast := hnormal.resolve_left hne
    have hhalf : den * 2 ^ (q + 1) = 2 * (den * 2 ^ q) := by
      rw [Nat.pow_succ, ← Nat.mul_assoc, Nat.mul_comm]
    have heq : significand = 2 ^ 52 := by
      by_contra hgt
      have hge := Nat.mul_le_mul_right (den * 2 ^ (q + 1)) (show 2 ^ 52 + 1 ≤ significand by omega)
      rw [Nat.add_mul] at hge
      unfold precision at *
      omega
    subst heq
    unfold precision at *
    refine ofUnits_eq_carry ?_ ?_ hle negative
    · have hlow : 2 ^ 52 * (den * 2 ^ q) ≤ units := by omega
      have hup : units < 2 ^ 53 * (den * 2 ^ q) := by omega
      rw [Nat.mul_left_comm, Nat.mul_comm, ← Nat.pow_add] at hlow hup
      rw [log2_div (k := 52 + q) hden hlow (by rwa [Nat.add_right_comm])]
      omega
    · apply roundQuotient_eq <;> omega

end Round

/-! ## Large factors -/

theorem log2_mul_one_lt {n bits : Nat} (hbits : 0 < bits) (h : n < 2 ^ bits) :
    Nat.log2 (n * one / 1) < bits + 1074 := by
  refine log2_div_lt Nat.one_pos (Nat.add_pos_left hbits 1074) ?_
  unfold one
  generalize 1074 = k
  rw [Nat.pow_add, Nat.mul_one]
  exact Nat.mul_lt_mul_of_pos_right h (Nat.two_pow_pos k)

/-- A quotient of few enough bits is rounded to a finite number. -/
theorem exists_ofUnits_eq_finite {units den : Nat} (h : Nat.log2 (units / den) < 2097)
    (negative : Bool) :
    ∃ significand power, ofUnits negative units den = .finite negative significand power := by
  -- one more for a significand that is rounded up
  have hpower : Nat.log2 (units / den) - 52 + 1 ≤ 2045 := by omega
  rw [ofUnits]
  dsimp only
  split
  · exact ⟨_, _, if_neg (Nat.not_lt.2 hpower)⟩
  · exact ⟨_, _, if_neg (Nat.not_lt.2 (Nat.le_of_succ_le hpower))⟩

/-- A natural number with 1023 bits or fewer is rounded to a finite number. -/
theorem exists_ofRatio_eq_finite (negative : Bool) {n : Nat} (h : n < 2 ^ 1023) :
    ∃ significand power, ofRatio negative n 1 = .finite negative significand power := by
  by_cases hzero : n = 0
  · exact ⟨0, 0, by rw [hzero, ofRatio_zero]⟩
  · rw [ofRatio_eq_ofUnits hzero]
    exact exists_ofUnits_eq_finite (log2_mul_one_lt (by decide) h) negative

/-- A factor that is too large for the format has more than 1023 bits. -/
theorem le_of_scale?_eq_none {x : Binary64} {n : Nat} (h : x.scale? n = none) : 2 ^ 1023 ≤ n := by
  by_contra hlt
  obtain ⟨significand, power, hfinite⟩ := exists_ofRatio_eq_finite false (Nat.not_le.1 hlt)
  unfold scale? at h
  rw [hfinite] at h
  cases x <;> cases h

end SiteRules.Binary64
