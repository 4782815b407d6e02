import SiteRules.Proofs.Number.Shortest

/-!
# How numbers are spelled

The text of an integer is its sign and its digits. The text of a finite number is its sign and the
text of a decimal, which has one of two forms (`Binary64.Decimal.spelling_text`): digits with a
point among them, or digits that do not begin with zero, with a point behind the first one if there
are others, and with an exponent. Who reads the digits, the point and the exponent for what they are
reads the number (`Binary64.reread`), which for a number of the format is the number itself
(`Binary64.reread_of_isFormat`).
-/

namespace SiteRules

namespace Binary64

/-- The number that is read from the text of a number. -/
def reread : Binary64 → Binary64
  | nan _ => nan 0
  | infinite negative => infinite negative
  | finite negative significand power =>
    if significand = 0 then zero negative
    else ofDecimal negative (shortest significand power).digits
      (shortest significand power).exponent

/-- A number of the format is read as itself. -/
theorem reread_of_isFormat {significand power : Nat} (h : IsFormat significand power)
    (hzero : significand = 0 → power = 0) (negative : Bool) :
    (finite negative significand power).reread = finite negative significand power := by
  rw [reread]
  split
  · next hs =>
    rw [hs, hzero hs]
    rfl
  · next hs => exact ofDecimal_shortest h (Nat.pos_of_ne_zero hs) negative

/-! ## The parts of a number -/

section Parts

variable {digits : List Char}

/-- The digits of a whole number: a zero alone, or digits that do not begin with one. -/
def IsWhole (digits : List Char) : Prop :=
  digits = ['0'] ∨ ∃ first others, digits = first :: others ∧ first ≠ '0' ∧
    ∀ c ∈ digits, c.isDigit = true

theorem isWhole_zero : IsWhole ['0'] := .inl rfl

theorem isWhole_toDigits (n : Nat) : IsWhole (Nat.toDigits 10 n) := by
  rcases Nat.eq_zero_or_pos n with rfl | hn
  · exact .inl rfl
  · have hne : Nat.toDigits 10 n ≠ [] := Nat.toDigits_ne_nil
    obtain ⟨first, others, heq⟩ := List.exists_cons_of_ne_nil hne
    refine .inr ⟨first, others, heq, ne_zero_of_mem_head?_toDigits hn (heq ▸ rfl), ?_⟩
    exact fun c => Nat.isDigit_of_mem_toDigits (by decide) (by decide)

theorem IsWhole.isDigit (h : IsWhole digits) : ∀ c ∈ digits, c.isDigit = true := by
  rcases h with rfl | ⟨_, _, _, _, hdigits⟩
  · exact List.forall_mem_singleton.2 rfl
  · exact hdigits

theorem IsWhole.ne_nil (h : IsWhole digits) : digits ≠ [] := by
  rcases h with rfl | ⟨_, _, rfl, _⟩ <;> exact List.cons_ne_nil _ _

/-- The digits of an exponent: at least two. -/
def exponentDigits (e : Int) : List Char :=
  if (Nat.toDigits 10 e.natAbs).length < 2 then '0' :: Nat.toDigits 10 e.natAbs
  else Nat.toDigits 10 e.natAbs

theorem exponentText_toList (e : Int) : (exponentText e).toList =
    'e' :: (if e < 0 then '-' else '+') :: exponentDigits e := by
  unfold exponentText
  rw [String.toList_append, String.toList_ofList]
  split <;> rfl

theorem isDigit_of_mem_exponentDigits (e : Int) : ∀ c ∈ exponentDigits e, c.isDigit = true := by
  have hdigits : ∀ c ∈ Nat.toDigits 10 e.natAbs, c.isDigit = true :=
    fun c => Nat.isDigit_of_mem_toDigits (by decide) (by decide)
  unfold exponentDigits
  split
  · exact List.forall_mem_cons.2 ⟨rfl, hdigits⟩
  · exact hdigits

theorem decimal_exponentDigits (e : Int) :
    (Text.ofChars (exponentDigits e)).decimal = e.natAbs := by
  rw [Text.decimal_ofChars (isDigit_of_mem_exponentDigits e)]
  unfold exponentDigits
  split <;> exact Nat.ofDigitChars_ten_toDigits

theorem exponentDigits_ne_nil (e : Int) : exponentDigits e ≠ [] := by
  unfold exponentDigits
  split
  · exact List.cons_ne_nil _ _
  · exact Nat.toDigits_ne_nil

end Parts

/-- The sign in front of a number. -/
def sign (negative : Bool) : List Char :=
  if negative then ['-'] else []

theorem ofDigitChars_zeros (digits : List Char) (k : Nat) :
    Nat.ofDigitChars 10 (digits ++ List.replicate k '0') 0 =
      Nat.ofDigitChars 10 digits 0 * 10 ^ k := by
  rw [Nat.ofDigitChars_append, Nat.ofDigitChars_replicate_zero, Nat.mul_comm]

theorem zeros_ofDigitChars (digits : List Char) (k : Nat) :
    Nat.ofDigitChars 10 (List.replicate k '0' ++ digits) 0 = Nat.ofDigitChars 10 digits 0 := by
  rw [Nat.ofDigitChars_append, Nat.ofDigitChars_replicate_zero, Nat.mul_zero]

/-! ## Decimals -/

/-- The text of a decimal: digits with a point among them, or digits that do not begin with zero,
with an exponent. In either form they are the digits of the decimal, apart from zeros that are made
good by the exponent. -/
inductive Decimal.Spelling (d : Decimal) : List Char → Prop
  | places {whole places : List Char} (hwhole : IsWhole whole) (hne : places ≠ [])
      (hplaces : ∀ c ∈ places, c.isDigit = true)
      (value : ∀ negative,
        ofDecimal negative (Nat.ofDigitChars 10 (whole ++ places) 0) (-places.length) =
          ofDecimal negative d.digits d.exponent) :
      Spelling d (whole ++ '.' :: places)
  | exponent {first : Char} {others : List Char} (hfirst : first ≠ '0')
      (hdigits : ∀ c ∈ first :: others, c.isDigit = true) (e : Int)
      (value : ∀ negative,
        ofDecimal negative (Nat.ofDigitChars 10 (first :: others) 0) (e - others.length) =
          ofDecimal negative d.digits d.exponent) :
      Spelling d (first :: ((if others = [] then [] else '.' :: others) ++ (exponentText e).toList))

section Positional

variable {d : Decimal} {first : Char} {others : List Char} {leading : Int}
  (hdigits : ∀ c ∈ first :: others, c.isDigit = true)
  (value : ∀ negative,
    ofDecimal negative (Nat.ofDigitChars 10 (first :: others) 0) (leading - others.length) =
      ofDecimal negative d.digits d.exponent)

include hdigits value

/-- A decimal below one, with zeros after the point. -/
theorem Decimal.spelling_below_one (hleading : leading < 0) :
    d.Spelling ('0' :: '.' :: (List.replicate (-leading - 1).toNat '0' ++ first :: others)) := by
  let places := List.replicate (-leading - 1).toNat '0' ++ first :: others
  have hplaces : ∀ c ∈ places, c.isDigit = true := by
    refine List.forall_mem_append.2 ⟨fun c hc => ?_, hdigits⟩
    rw [List.eq_of_mem_replicate hc]
    rfl
  have hne : places ≠ [] := List.append_ne_nil_of_right_ne_nil _ (List.cons_ne_nil _ _)
  refine .places isWhole_zero hne hplaces fun negative => ?_
  have hzeros : Nat.ofDigitChars 10 (['0'] ++ places) 0 =
      Nat.ofDigitChars 10 (first :: others) 0 := by
    rw [Nat.ofDigitChars_append]
    exact zeros_ofDigitChars (first :: others) (-leading - 1).toNat
  have hexponent : -(places.length : Int) = leading - others.length := by
    rw [List.length_append, List.length_replicate, List.length_cons]
    omega
  rw [hzeros, hexponent, value]

/-- The digits before the point of a decimal from one on, and those behind it. -/
theorem Decimal.spelling_from_one (hfirst : first ≠ '0') (hleading : 0 ≤ leading)
    {padded : List Char}
    (hpadded : padded =
      first :: others ++ List.replicate (leading.toNat + 1 - (others.length + 1)) '0') :
    d.Spelling (padded.take (leading.toNat + 1) ++ '.' ::
      (if (padded.drop (leading.toNat + 1)).isEmpty then ['0']
        else padded.drop (leading.toNat + 1))) := by
  have hall : ∀ c ∈ padded, c.isDigit = true := by
    rw [hpadded]
    refine List.forall_mem_append.2 ⟨hdigits, fun c hc => ?_⟩
    rw [List.eq_of_mem_replicate hc]
    rfl
  have hwhole : IsWhole (padded.take (leading.toNat + 1)) := by
    refine .inr ⟨first, (others ++
      List.replicate (leading.toNat + 1 - (others.length + 1)) '0').take leading.toNat, ?_,
      hfirst, fun c hc => hall c (List.mem_of_mem_take hc)⟩
    rw [hpadded, List.cons_append, List.take_succ_cons]
  -- whatever zeros are added behind the point, they are made good by the exponent
  have hspells {places : List Char} (hne : places ≠ []) (hplaces : ∀ c ∈ places, c.isDigit = true)
      (zeros : Nat)
      (happend : padded.take (leading.toNat + 1) ++ places =
        first :: others ++ List.replicate zeros '0')
      (hexponent : -(places.length : Int) + zeros = leading - others.length) :
      d.Spelling (padded.take (leading.toNat + 1) ++ '.' :: places) := by
    refine .places hwhole hne hplaces fun negative => ?_
    rw [happend, ofDigitChars_zeros, ofDecimal_mul_pow, hexponent, value]
  have hlength := congrArg List.length hpadded
  rw [List.length_append, List.length_replicate, List.length_cons] at hlength
  split
  · next hempty =>
    have hle : padded.length ≤ leading.toNat + 1 :=
      List.drop_eq_nil_iff.1 (List.isEmpty_iff.1 hempty)
    refine hspells (List.cons_ne_nil '0' []) isWhole_zero.isDigit
      (leading.toNat + 1 - (others.length + 1) + 1) ?_ ?_
    · rw [List.take_of_length_le hle, hpadded, List.append_assoc, List.replicate_succ']
    · rw [List.length_singleton]
      omega
  · next hleft =>
    refine hspells (by simpa using hleft) (fun c hc => hall c (List.mem_of_mem_drop hc))
      (leading.toNat + 1 - (others.length + 1)) ?_ ?_
    · rw [List.take_append_drop, hpadded]
    · have hlt : leading.toNat + 1 < padded.length := by simpa using hleft
      rw [List.length_drop]
      omega

end Positional

/-- The text of a decimal has one of the two forms. -/
theorem Decimal.spelling_text {d : Decimal} (hd : 0 < d.digits ∨ d = ⟨0, 0⟩) :
    d.Spelling d.text.toList := by
  rcases hd with hd | rfl
  · obtain ⟨first, others, leading, hnormal, hfirst, hdigits, hvalue⟩ := d.normal_spec hd
    rw [text, hnormal]
    dsimp only
    split
    · have hspells := Spelling.exponent hfirst hdigits leading hvalue
      cases others with
      | nil => simpa using hspells
      | cons second others => simpa using hspells
    · split
      · next hbelow =>
        have hpoint : "0.".toList = ['0', '.'] := rfl
        rw [String.toList_append, hpoint, String.toList_ofList]
        exact spelling_below_one hdigits hvalue hbelow
      · next hfrom =>
        have hspells := spelling_from_one hdigits hvalue hfirst (Int.not_lt.1 hfrom) rfl
        have hpoint : ".".toList = ['.'] := rfl
        have hzero : "0".toList = ['0'] := rfl
        rw [String.toList_append, String.toList_append, hpoint, apply_ite String.toList, hzero,
          String.toList_ofList, String.toList_ofList, List.append_assoc]
        exact hspells
  · exact .places isWhole_zero (List.cons_ne_nil '0' []) isWhole_zero.isDigit fun negative => by
      rw [ofDecimal_zero]
      exact ofDecimal_zero negative _

theorem text_toList (negative : Bool) (significand power : Nat) :
    (finite negative significand power).text.toList = sign negative ++
      (if significand = 0 then "0.0" else (shortest significand power).text).toList := by
  have hsign : (if negative then "-" else "").toList = sign negative := by
    cases negative <;> rfl
  rw [text, String.toList_append, hsign]

/-- The text of a finite number is its sign and the text of the decimal that it is read as. -/
theorem exists_decimal (negative : Bool) (significand power : Nat) :
    ∃ d : Decimal, (0 < d.digits ∨ d = ⟨0, 0⟩) ∧
      (finite negative significand power).text.toList = sign negative ++ d.text.toList ∧
      (finite negative significand power).reread = ofDecimal negative d.digits d.exponent := by
  rw [text_toList, reread]
  split
  · exact ⟨⟨0, 0⟩, .inr rfl, rfl, (ofDecimal_zero negative 0).symm⟩
  · next hne => exact ⟨_, shortest_cases hne power, rfl, rfl⟩

end Binary64

/-! ## Integers -/

theorem Literal.toString_toList (n : Int) :
    (toString n).toList = Binary64.sign (n < 0) ++ Nat.toDigits 10 n.natAbs := by
  cases n with
  | ofNat n =>
    show n.repr.toList = _
    rw [Nat.repr_eq_ofList_toDigits, String.toList_ofList]
    rfl
  | negSucc n =>
    show ("-" ++ (n + 1).repr).toList = _
    have hminus : "-".toList = ['-'] := rfl
    rw [String.toList_append, hminus, Nat.repr_eq_ofList_toDigits, String.toList_ofList,
      decide_eq_true (Int.negSucc_lt_zero n)]
    rfl

end SiteRules
