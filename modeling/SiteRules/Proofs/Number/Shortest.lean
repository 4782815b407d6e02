import SiteRules.Number.Shortest
import SiteRules.Proofs.Number.Binary64
import SiteRules.Proofs.Number.Decimal

/-!
# Theory of shortest decimals

The decimal with which a number of the format is written reads back as the number
(`Binary64.ofDecimal_shortest`). The search for it tries more and more digits and takes what reads
back, so that it remains to show that it finds something: a decimal with seventeen digits is near
enough.
-/

namespace SiteRules.Binary64

/-! ## The leading digit -/

/-- A magnitude is not less than the power of ten of its leading digit. -/
theorem Magnitude.pow_leadingExponent_le {v : Magnitude} (hnum : 0 < v.num) (hden : 0 < v.den) :
    v.den * 10 ^ v.leadingExponent.toNat ≤ v.num * 10 ^ (-v.leadingExponent).toNat := by
  unfold leadingExponent
  split
  · next hle =>
    have hquotient : 0 < v.num / v.den := Nat.div_pos hle hden
    have hlength : 0 < decimalLength (v.num / v.den) := Nat.length_toDigits_pos
    have hpow := pow_le_of_lt_decimalLength hquotient (Nat.sub_lt hlength Nat.one_pos)
    have hexponent : ((decimalLength (v.num / v.den) : Int) - 1).toNat =
        decimalLength (v.num / v.den) - 1 := by omega
    have hzero : (-((decimalLength (v.num / v.den) : Int) - 1)).toNat = 0 := by omega
    rw [hexponent, hzero, Nat.pow_zero, Nat.mul_one]
    exact (Nat.mul_le_mul_left _ hpow).trans (Nat.mul_div_le _ _)
  · next hlt =>
    have hpow := (Nat.div_lt_iff_lt_mul hnum).1 (lt_pow_decimalLength ((v.den - 1) / v.num))
    have hzero : (-(decimalLength ((v.den - 1) / v.num) : Int)).toNat = 0 := by omega
    have hexponent : (-(-(decimalLength ((v.den - 1) / v.num) : Int))).toNat =
        decimalLength ((v.den - 1) / v.num) := by omega
    rw [hexponent, hzero, Nat.pow_zero, Nat.mul_one, Nat.mul_comm]
    omega

/-- The last of seventeen digits counts sixteen powers of ten less than the first. -/
theorem pow_le_of_leading {num den : Nat} {leading : Int}
    (h : den * 10 ^ leading.toNat ≤ num * 10 ^ (-leading).toNat) :
    10 ^ 16 * (den * 10 ^ (leading - 16).toNat) ≤ num * 10 ^ (-(leading - 16)).toNat := by
  -- multiplied out, because the exponents of the first and of the last digit may differ in sign
  refine Nat.le_of_mul_le_mul_right ?_ (Nat.pow_pos (n := (-leading).toNat) (by decide : 0 < 10))
  have hexponents : 16 + (leading - 16).toNat + (-leading).toNat =
      leading.toNat + (-(leading - 16)).toNat := by omega
  calc
    10 ^ 16 * (den * 10 ^ (leading - 16).toNat) * 10 ^ (-leading).toNat
      = den * 10 ^ (16 + (leading - 16).toNat + (-leading).toNat) := by ring
    _ = den * 10 ^ leading.toNat * 10 ^ (-(leading - 16)).toNat := by
      rw [hexponents]
      ring
    _ ≤ num * 10 ^ (-leading).toNat * 10 ^ (-(leading - 16)).toNat := Nat.mul_le_mul_right _ h
    _ = num * 10 ^ (-(leading - 16)).toNat * 10 ^ (-leading).toNat := Nat.mul_right_comm _ _ _

/-! ## Decimals that are near enough -/

section Near

variable {significand power digits : Nat} {exponent : Int}

/-- A decimal with the given digits is within half a unit of its last digit of a number, and that
unit is a small enough part of the number. -/
structure IsNear (significand power digits : Nat) (exponent : Int) : Prop where
  low : 2 * (significand * 2 ^ power * 10 ^ (-exponent).toNat) ≤
    2 * (digits * (one * 10 ^ exponent.toNat)) + one * 10 ^ exponent.toNat
  high : 2 * (digits * (one * 10 ^ exponent.toNat)) ≤
    2 * (significand * 2 ^ power * 10 ^ (-exponent).toNat) + one * 10 ^ exponent.toNat
  fine : 10 ^ 16 * (one * 10 ^ exponent.toNat) ≤ significand * 2 ^ power * 10 ^ (-exponent).toNat

/-- A decimal near a number of the format is not out of its range on the high side. -/
theorem IsNear.size_le (h : IsNear significand power digits exponent)
    (hformat : IsFormat significand power) (hdigits : 0 < digits) :
    (decimalLength digits : Int) + exponent ≤ 310 := by
  by_contra hlarge
  have hlength : 0 < decimalLength digits := Nat.length_toDigits_pos
  have hfirst := pow_le_of_lt_decimalLength hdigits (Nat.sub_lt hlength Nat.one_pos)
  have hfine := h.fine
  have hhigh := h.high
  have hvalue : digits * (one * 10 ^ exponent.toNat) ≤
      2 * (significand * 2 ^ power * 10 ^ (-exponent).toNat) := by omega
  have hmost := hformat.mul_pow_le hformat.le
  have hpows : 10 ^ 310 * 10 ^ (-exponent).toNat ≤
      10 ^ (decimalLength digits - 1) * 10 ^ exponent.toNat := by
    rw [← Nat.pow_add, ← Nat.pow_add]
    exact Nat.pow_le_pow_right (by decide) (by omega)
  -- both sides are compared with the greatest number of the format
  have hchain : one * 10 ^ 310 * 10 ^ (-exponent).toNat ≤
      2 * (2 ^ 53 * 2 ^ 2045) * 10 ^ (-exponent).toNat := calc
    one * 10 ^ 310 * 10 ^ (-exponent).toNat
      ≤ one * (10 ^ (decimalLength digits - 1) * 10 ^ exponent.toNat) := by
        rw [Nat.mul_assoc]
        exact Nat.mul_le_mul_left _ hpows
    _ = 10 ^ (decimalLength digits - 1) * (one * 10 ^ exponent.toNat) := Nat.mul_left_comm _ _ _
    _ ≤ digits * (one * 10 ^ exponent.toNat) := Nat.mul_le_mul_right _ hfirst
    _ ≤ 2 * (significand * 2 ^ power * 10 ^ (-exponent).toNat) := hvalue
    _ = 2 * (significand * 2 ^ power) * 10 ^ (-exponent).toNat := (Nat.mul_assoc _ _ _).symm
    _ ≤ 2 * (2 ^ 53 * 2 ^ 2045) * 10 ^ (-exponent).toNat :=
        Nat.mul_le_mul_right _ (Nat.mul_le_mul_left _ hmost)
  have hcompare := Nat.le_of_mul_le_mul_right hchain (by positivity)
  exact absurd hcompare (by decide +kernel)

/-- A decimal near a number of the format is not out of its range on the low side. -/
theorem IsNear.le_size (h : IsNear significand power digits exponent) (hpos : 0 < significand) :
    -330 ≤ (decimalLength digits : Int) + exponent := by
  by_contra hsmall
  have hlast := lt_pow_decimalLength digits
  have hfine := h.fine
  have hlow := h.low
  have hvalue : significand * 2 ^ power * 10 ^ (-exponent).toNat ≤
      2 * (digits * (one * 10 ^ exponent.toNat)) := by omega
  have hleast : 1 ≤ significand * 2 ^ power := Nat.mul_pos hpos (Nat.two_pow_pos power)
  have hpows : 10 ^ 331 * (10 ^ decimalLength digits * 10 ^ exponent.toNat) ≤
      10 ^ (-exponent).toNat := by
    rw [← Nat.pow_add, ← Nat.pow_add]
    exact Nat.pow_le_pow_right (by decide) (by omega)
  -- both sides are compared with the least number of the format
  have hchain : 10 ^ 331 * (10 ^ decimalLength digits * 10 ^ exponent.toNat) ≤
      2 * one * (10 ^ decimalLength digits * 10 ^ exponent.toNat) := calc
    10 ^ 331 * (10 ^ decimalLength digits * 10 ^ exponent.toNat)
      ≤ 1 * 10 ^ (-exponent).toNat := by rwa [Nat.one_mul]
    _ ≤ significand * 2 ^ power * 10 ^ (-exponent).toNat := Nat.mul_le_mul_right _ hleast
    _ ≤ 2 * (digits * (one * 10 ^ exponent.toNat)) := hvalue
    _ ≤ 2 * (10 ^ decimalLength digits * (one * 10 ^ exponent.toNat)) :=
        Nat.mul_le_mul_left _ (Nat.mul_le_mul_right _ hlast.le)
    _ = 2 * one * (10 ^ decimalLength digits * 10 ^ exponent.toNat) := by ring
  have hcompare := Nat.le_of_mul_le_mul_right hchain (by positivity)
  exact absurd hcompare (by decide +kernel)

/-- A decimal near a number of the format reads as the number. -/
theorem IsNear.ofDecimal_eq (h : IsNear significand power digits exponent)
    (hformat : IsFormat significand power) (hpos : 0 < significand) :
    ofDecimal false digits exponent = .finite false significand power := by
  have hunit : 0 < one * 10 ^ exponent.toNat := Nat.mul_pos one_pos (by positivity)
  have hlow := h.low
  have hhigh := h.high
  have hfine := h.fine
  have hdigits : digits ≠ 0 := by
    rintro rfl
    omega
  have hnum : digits * 10 ^ exponent.toNat ≠ 0 :=
    Nat.mul_ne_zero hdigits (Nat.pow_pos (by decide)).ne'
  have hscaled : significand * (10 ^ (-exponent).toNat * 2 ^ power) =
      significand * 2 ^ power * 10 ^ (-exponent).toNat := by ring
  have hunits : digits * 10 ^ exponent.toNat * one = digits * (one * 10 ^ exponent.toNat) := by ring
  rw [ofDecimal_eq_ofRatio hdigits (h.size_le hformat (Nat.pos_of_ne_zero hdigits))
    (h.le_size hpos), ofRatio_eq_ofUnits hnum, hunits]
  refine ofUnits_of_near hformat hpos (by positivity) ?_ ?_ false <;>
    rw [hscaled] <;> unfold precision <;> omega

end Near

/-! ## The search -/

section Search

variable {significand power : Nat} {v : Magnitude} {exponent leading : Int}

/-- What is found on a grid reads back. -/
theorem readsBack_of_onGrid? {d : Decimal} (h : onGrid? significand power v exponent = some d) :
    readsBack significand power d = true := by
  rw [onGrid?] at h
  rcases ite_eq_iff.1 h with ⟨hnearer, hd⟩ | ⟨-, h⟩
  · exact Option.some.inj hd ▸ hnearer
  · rcases ite_eq_iff.1 h with ⟨hfarther, hd⟩ | ⟨-, hd⟩
    · exact Option.some.inj hd ▸ hfarther
    · cases hd

/-- The nearer neighbour on a grid, as the digits of a decimal. -/
def nearest (num den : Nat) : Nat :=
  if 2 * (num % den) < den || (2 * (num % den) = den && num / den % 2 = 0) then num / den
  else num / den + 1

theorem nearest_spec (num : Nat) {den : Nat} (hden : 0 < den) :
    2 * num ≤ 2 * (nearest num den * den) + den ∧ 2 * (nearest num den * den) ≤ 2 * num + den := by
  have hsplit := Nat.div_add_mod num den
  have hmod := Nat.mod_lt num hden
  rw [Nat.mul_comm] at hsplit
  unfold nearest
  split
  · next hcond =>
    simp only [Bool.or_eq_true, Bool.and_eq_true, decide_eq_true_eq] at hcond
    omega
  · next hcond =>
    simp only [Bool.or_eq_true, Bool.and_eq_true, decide_eq_true_eq, not_or] at hcond
    rw [Nat.succ_mul (num / den)]
    omega

/-- If the nearer neighbour on a grid reads back, something is found there. -/
theorem onGrid?_isSome (h : readsBack significand power
    ⟨nearest (v.num * 10 ^ (-exponent).toNat) (v.den * 10 ^ exponent.toNat), exponent⟩ = true) :
    (onGrid? significand power v exponent).isSome = true := by
  have hnum : (if 0 ≤ exponent then v.num else v.num * Nat.pow 10 (-exponent).toNat) =
      v.num * 10 ^ (-exponent).toNat := by
    split
    · have hzero : (-exponent).toNat = 0 := by omega
      rw [hzero, Nat.pow_zero, Nat.mul_one]
    · rfl
  have hden : (if 0 ≤ exponent then v.den * Nat.pow 10 exponent.toNat else v.den) =
      v.den * 10 ^ exponent.toNat := by
    split
    · rfl
    · have hzero : exponent.toNat = 0 := by omega
      rw [hzero, Nat.pow_zero, Nat.mul_one]
  have hnearer (num den : Nat) :
      (if 2 * (num % den) < den || (2 * (num % den) = den && num / den % 2 = 0)
        then (⟨num / den, exponent⟩ : Decimal) else ⟨num / den + 1, exponent⟩) =
      ⟨nearest num den, exponent⟩ := by
    unfold nearest
    split <;> rfl
  simp only [onGrid?, hnum, hden, hnearer]
  rw [if_pos h]
  rfl

/-- With seventeen digits, something is found for every number of the format. -/
theorem onGrid?_isSome_of_isFormat (h : IsFormat significand power) (hpos : 0 < significand)
    (hnum : v.num = significand * 2 ^ power) (hden : v.den = one) :
    (onGrid? significand power v (v.leadingExponent - 16)).isSome = true := by
  have hlead := Magnitude.pow_leadingExponent_le (v := v)
    (hnum ▸ Nat.mul_pos hpos (Nat.two_pow_pos power)) (hden ▸ one_pos)
  rw [hnum, hden] at hlead
  -- the leading exponent is kept as a variable, so that nothing computes it
  generalize v.leadingExponent = leading at hlead ⊢
  have hunit : 0 < one * 10 ^ (leading - 16).toNat :=
    Nat.mul_pos one_pos (Nat.pow_pos (by decide))
  obtain ⟨hlow, hhigh⟩ := nearest_spec
    (significand * 2 ^ power * 10 ^ (-(leading - 16)).toNat) hunit
  have hnear : IsNear significand power _ (leading - 16) :=
    ⟨hlow, hhigh, pow_le_of_leading hlead⟩
  refine onGrid?_isSome ?_
  rw [hnum, hden, readsBack, decide_eq_true_eq]
  dsimp only
  exact hnear.ofDecimal_eq h hpos

/-- The search takes what reads back if there is something on one of the grids that it tries. -/
theorem readsBack_shortestFrom {count fuel i : Nat} (hi : i < fuel)
    (h : (onGrid? significand power v (leading + 1 - (count + i : Nat))).isSome = true) :
    readsBack significand power (shortestFrom significand power v leading count fuel) = true := by
  induction fuel generalizing count i with
  | zero => exact absurd hi (Nat.not_lt_zero i)
  | succ fuel ih =>
    rw [shortestFrom]
    split
    · next d hd => exact readsBack_of_onGrid? hd
    · next hnone =>
      cases i with
      | zero =>
        rw [Nat.add_zero, hnone] at h
        cases h
      | succ i => exact ih (Nat.lt_of_succ_lt_succ hi) (by rwa [Nat.add_right_comm])

/-- What the search gives reads back, unless it has found nothing. -/
theorem shortestFrom_cases (significand power : Nat) (v : Magnitude) (leading : Int)
    (count fuel : Nat) :
    readsBack significand power (shortestFrom significand power v leading count fuel) = true ∨
      shortestFrom significand power v leading count fuel = ⟨0, 0⟩ := by
  induction fuel generalizing count with
  | zero => exact .inr rfl
  | succ fuel ih =>
    rw [shortestFrom]
    split
    · next d hd => exact .inl (readsBack_of_onGrid? hd)
    · exact ih (count + 1)

end Search

/-- The shortest decimal of a number of the format reads as the number. -/
theorem ofDecimal_shortest {significand power : Nat} (h : IsFormat significand power)
    (hpos : 0 < significand) (negative : Bool) :
    ofDecimal negative (shortest significand power).digits (shortest significand power).exponent =
      .finite negative significand power := by
  have hreads : readsBack significand power (shortest significand power) = true := by
    -- the search begins with one digit, so that sixteen steps later it tries seventeen
    refine readsBack_shortestFrom (i := 16) (by decide) ?_
    have hexponent (leading : Int) : leading + 1 - ((1 + 16 : Nat) : Int) = leading - 16 := by omega
    rw [hexponent]
    exact onGrid?_isSome_of_isFormat h hpos (by dsimp only [Nat.pow_eq]) (by dsimp only)
  exact ofDecimal_of_false (of_decide_eq_true hreads) negative

/-- A decimal that has been found is not zero. -/
theorem shortest_cases {significand : Nat} (hne : significand ≠ 0) (power : Nat) :
    0 < (shortest significand power).digits ∨ shortest significand power = ⟨0, 0⟩ := by
  have hcases : readsBack significand power (shortest significand power) = true ∨
      shortest significand power = ⟨0, 0⟩ := by
    unfold shortest
    exact shortestFrom_cases _ _ _ _ _ _
  refine hcases.imp_left fun hreads => Nat.pos_of_ne_zero fun hzero => ?_
  rw [readsBack, hzero, ofDecimal_zero, decide_eq_true_eq, zero, finite.injEq] at hreads
  exact hne hreads.2.1.symm

/-! ## Without the zeros at the end -/

/-- Without the zeros at its end, a decimal reads as the same number. The exponent is that of its
first digit, which is not zero. -/
theorem Decimal.normal_spec {d : Decimal} (hd : 0 < d.digits) :
    ∃ first others leading, d.normal = (first :: others, leading) ∧ first ≠ '0' ∧
      (∀ c ∈ first :: others, c.isDigit = true) ∧ ∀ negative,
        ofDecimal negative (Nat.ofDigitChars 10 (first :: others) 0) (leading - others.length) =
          ofDecimal negative d.digits d.exponent := by
  let written := Nat.toDigits 10 d.digits
  let zeros := (written.reverse.takeWhile (· = '0')).reverse
  let kept := (written.reverse.dropWhile (· = '0')).reverse
  have hsplit : written = kept ++ zeros := by
    rw [← List.reverse_append, List.takeWhile_append_dropWhile, List.reverse_reverse]
  have hzeros : zeros = List.replicate zeros.length '0' := by
    refine List.eq_replicate_of_mem fun c hc => ?_
    have hmem : c ∈ written.reverse.takeWhile (· = '0') := List.mem_reverse.1 hc
    exact of_decide_eq_true (List.mem_takeWhile_imp (p := (· = '0')) hmem)
  have hvalue : d.digits = Nat.ofDigitChars 10 kept 0 * 10 ^ zeros.length := by
    rw [← Nat.ofDigitChars_ten_toDigits (n := d.digits)]
    show Nat.ofDigitChars 10 written 0 = _
    rw [hsplit, Nat.ofDigitChars_append, hzeros, Nat.ofDigitChars_replicate_zero, Nat.mul_comm,
      List.length_replicate]
  have hne : kept ≠ [] := by
    intro hnil
    rw [hnil, Nat.ofDigitChars_nil, Nat.zero_mul] at hvalue
    omega
  obtain ⟨first, others, hkept⟩ := List.exists_cons_of_ne_nil hne
  refine ⟨first, others, d.exponent + written.length - 1, ?_, ?_, ?_, fun negative => ?_⟩
  · rw [← hkept]
    rfl
  · refine ne_zero_of_mem_head?_toDigits hd ?_
    show first ∈ written.head?
    rw [hsplit, hkept]
    rfl
  · intro c hc
    refine Nat.isDigit_of_mem_toDigits (b := 10) (n := d.digits) (by decide) (by decide) ?_
    show c ∈ written
    rw [hsplit, hkept]
    exact List.mem_append_left _ hc
  · have hlength := congrArg List.length hsplit
    rw [hkept, List.length_append, List.length_cons] at hlength
    have hexponent : d.exponent + written.length - 1 - others.length =
        d.exponent + zeros.length := by omega
    rw [← hkept, hexponent, ← ofDecimal_mul_pow, ← hvalue]

end SiteRules.Binary64
