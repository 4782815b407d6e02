import SiteRules.Proofs.Number.Spelling
import SiteRules.Proofs.Text.Base64
import SiteRules.Proofs.Yaml.BlockScalar
import SiteRules.Proofs.Yaml.Integer
import SiteRules.Yaml.Draft

/-!
# Scalars that are read as what they were written for

The text that is written for a value without parts is read as the value.
-/

namespace SiteRules.Yaml.Scalar

open Binary64 (sign)

/-! ## Integers -/

theorem cutSign_sign (negative : Bool) {t : Text}
    (h : ∃ c ∈ t.head?, c ≠ CodePoint.ofChar '-' ∧ c ≠ CodePoint.ofChar '+') :
    cutSign (Text.ofChars (sign negative) ++ t) = .ok (negative, t) := by
  obtain ⟨c, hc, hminus, hplus⟩ := h
  cases t with
  | nil => cases hc
  | cons d rest =>
    cases hc
    cases negative with
    | true => rfl
    | false =>
      show cutSign (c :: rest) = _
      rw [cutSign, if_neg hminus, if_neg hplus]

theorem forall_sign {P : CodePoint → Prop} (h : P (CodePoint.ofChar '-')) (negative : Bool) :
    ∀ c ∈ Text.ofChars (sign negative), P c := by
  cases negative with
  | true => exact List.forall_mem_singleton.2 h
  | false => exact List.forall_mem_nil _

theorem dropUnderscores_sign (negative : Bool) {t : Text} (h : CodePoint.ofChar '_' ∉ t) :
    dropUnderscores (Text.ofChars (sign negative) ++ t) = Text.ofChars (sign negative) ++ t := by
  refine dropUnderscores_eq_self fun hmem => ?_
  rcases List.mem_append.1 hmem with hmem | hmem
  · exact forall_sign (P := (· ≠ CodePoint.ofChar '_')) (by decide) negative _ hmem rfl
  · exact h hmem

/-- Digits without zeros in front are read as a decimal. -/
theorem readUnsigned_ofNat {n : Nat} (h : n < Nat.pow 10 Literal.maxDigits) :
    readUnsigned (Text.ofNat n) = .ok n := by
  have hdigit := fun c => Text.isBasicDigit_of_mem_ofNat (n := n) (c := c)
  rcases Nat.eq_zero_or_pos n with rfl | hpos
  · rfl
  · have hlength := Text.length_ofNat_le (k := Literal.maxDigits) (by decide) h
    have hread := Literal.readInt_of_digits (Text.ofNat_ne_nil n) hdigit hlength
    have hcolon : ¬(Text.ofNat n).any (· = ':') = true := by
      rw [Bool.not_eq_true, Text.any_eq_false_iff]
      exact fun hmem => absurd (hdigit _ hmem) (by decide)
    rw [Text.decimal_ofNat] at hread
    cases ht : Text.ofNat n with
    | nil => exact absurd ht (Text.ofNat_ne_nil n)
    | cons c rest =>
      have hzero : c ≠ CodePoint.ofChar '0' := by
        obtain ⟨first, hfirst, rfl⟩ : ∃ first ∈ (Nat.toDigits 10 n).head?,
            CodePoint.ofChar first = c := by
          have hhead : (Text.ofNat n).head? = some c := by rw [ht]; rfl
          rw [Text.ofNat, Text.ofChars, List.head?_map] at hhead
          exact Option.map_eq_some_iff.1 hhead
        intro heq
        have hchar := congrArg CodePoint.toChar heq
        rw [CodePoint.toChar_ofChar, CodePoint.toChar_ofChar] at hchar
        exact ne_zero_of_mem_head?_toDigits hpos hfirst hchar
      rw [ht] at hread hcolon
      unfold readUnsigned
      dsimp only
      rw [if_neg hzero, if_neg hcolon, integer, hread]
      rfl

theorem read_integer {n : Int} (h : Literal.isSpellable n = true) (number : Nat) :
    read .int number (Text.ofString (toString n)) = .ok (.int n) := by
  have hdigit := fun c => Text.isBasicDigit_of_mem_ofNat (n := n.natAbs) (c := c)
  have htext : Text.ofString (toString n) =
      Text.ofChars (sign (n < 0)) ++ Text.ofNat n.natAbs := by
    rw [Text.ofString, Literal.toString_toList, Text.ofChars, List.map_append]
    rfl
  have hhead : ∃ c ∈ (Text.ofNat n.natAbs).head?,
      c ≠ CodePoint.ofChar '-' ∧ c ≠ CodePoint.ofChar '+' := by
    obtain ⟨c, rest, hcons⟩ := List.exists_cons_of_ne_nil (Text.ofNat_ne_nil n.natAbs)
    refine ⟨c, by rw [hcons]; rfl, ?_⟩
    have hc := hdigit c (by rw [hcons]; exact List.mem_cons_self)
    exact ⟨CodePoint.ne_of_kind hc rfl, CodePoint.ne_of_kind hc rfl⟩
  have hline : CodePoint.ofChar '_' ∉ Text.ofNat n.natAbs :=
    fun hmem => absurd (hdigit _ hmem) (by decide)
  show readInteger _ = _
  rw [htext, readInteger, dropUnderscores_sign _ hline, cutSign_sign _ hhead]
  dsimp only [bind, Except.bind]
  rw [readUnsigned_ofNat (of_decide_eq_true h)]
  dsimp only [pure, Except.pure]
  rcases lt_or_ge n 0 with hneg | hnonneg
  · have hsign : -(n.natAbs : Int) = n := by omega
    rw [decide_eq_true hneg, if_pos rfl, hsign]
  · have hsign : (n.natAbs : Int) = n := by omega
    rw [decide_eq_false (Int.not_lt.2 hnonneg), if_neg Bool.false_ne_true, hsign]

/-! ## Floating-point numbers -/

/-- What stands in the text of a floating-point number stays as it is in lower case. -/
def IsFloatPart (c : CodePoint) : Prop :=
  c.IsLower ∧ c ≠ CodePoint.ofChar '_' ∧ c ≠ CodePoint.ofChar ':'

theorem isFloatPart_of_isBasicDigit {c : CodePoint} (h : c.isBasicDigit = true) :
    IsFloatPart c := by
  refine ⟨?_, CodePoint.ne_of_kind h rfl, CodePoint.ne_of_kind h rfl⟩
  rw [CodePoint.IsLower, CodePoint.lower_eq_small (CodePoint.val_lt_of_isBasicDigit h),
    CodePoint.small_eq_self (CodePoint.isBasicLetter_of_isBasicDigit h)]

theorem isFloatPart_of_isExponent {t : Text} (h : Literal.IsExponent t) :
    ∀ c ∈ t, IsFloatPart c := by
  rcases h with rfl | ⟨sign, digits, rfl, hsign, -, hdigits⟩
  · exact List.forall_mem_nil _
  · refine List.forall_mem_cons.2 ⟨⟨by decide, by decide, by decide⟩,
      List.forall_mem_cons.2 ⟨?_, fun c hc => isFloatPart_of_isBasicDigit (hdigits c hc)⟩⟩
    rcases hsign with rfl | rfl <;> exact ⟨by decide, by decide, by decide⟩

/-- A number behind its sign is read as it is without one, as the decimal that it spells. -/
theorem readFloat_signed (own : Nat) (negative : Bool) {body : Text} {first : CodePoint}
    (hparts : ∀ c ∈ body, IsFloatPart c) (hhead : body.head? = some first)
    (hfirst : first.isBasicDigit = true) {digits : Nat} {e : Int}
    (hread : Literal.readFloat body = .ok (.ofDecimal false digits e)) :
    readFloat own (Text.ofChars (sign negative) ++ body) =
      .ok (.float (.ofDecimal negative digits e)) := by
  have hlower : (Text.ofChars (sign negative) ++ body).lower =
      Text.ofChars (sign negative) ++ body :=
    Text.lower_eq_self (List.forall_mem_append.2
      ⟨forall_sign (by decide) negative, fun c hc => (hparts c hc).1⟩)
  have hcut := cutSign_sign negative (t := body)
    ⟨first, hhead, CodePoint.ne_of_kind hfirst rfl, CodePoint.ne_of_kind hfirst rfl⟩
  have hname : ∀ name : Text, (∀ c ∈ name.head?, c.isBasicDigit = false) → body ≠ name := by
    rintro name hnone rfl
    rw [hnone first hhead] at hfirst
    cases hfirst
  have hcolon : ¬body.any (· = ':') = true := by
    rw [Bool.not_eq_true, Text.any_eq_false_iff]
    exact fun hmem => (hparts _ hmem).2.2 rfl
  have hunsigned : readUnsignedFloat own body = .ok (.ofDecimal false digits e) := by
    rw [readUnsignedFloat, if_neg (hname _ (by decide)), if_neg (hname _ (by decide)),
      if_neg hcolon]
    dsimp only [bind, Except.bind]
    rw [hread]
    dsimp only [Except.mapError, pure, Except.pure]
    rw [Binary64.relabel_ofDecimal]
  rw [readFloat, dropUnderscores_sign negative fun hmem => (hparts _ hmem).2.1 rfl, hlower, hcut]
  dsimp only [bind, Except.bind]
  rw [hunsigned]
  dsimp only [pure, Except.pure]
  cases negative with
  | true => rw [if_pos rfl, Binary64.ofDecimal_true]
  | false => rw [if_neg Bool.false_ne_true]

/-- Digits with a point among them and an exponent are read as the decimal that they spell. -/
theorem readFloat_point (own : Nat) (negative : Bool) {whole places exponent : Text}
    (hne : whole ≠ []) (hwhole : ∀ c ∈ whole, c.isBasicDigit = true)
    (hplaces : ∀ c ∈ places, c.isBasicDigit = true) (hexponent : Literal.IsExponent exponent)
    {e : Int} (he : Literal.cutExponent? exponent = some (e, [])) :
    readFloat own (Text.ofChars (sign negative) ++
      (whole ++ CodePoint.ofChar '.' :: (places ++ exponent))) =
      .ok (.float (.ofDecimal negative (whole ++ places).decimal (e - places.length))) := by
  have hpoint : IsFloatPart (CodePoint.ofChar '.') := ⟨by decide, by decide, by decide⟩
  have hparts : ∀ c ∈ whole ++ CodePoint.ofChar '.' :: (places ++ exponent), IsFloatPart c := by
    refine List.forall_mem_append.2 ⟨fun c hc => isFloatPart_of_isBasicDigit (hwhole c hc),
      List.forall_mem_cons.2 ⟨hpoint, List.forall_mem_append.2 ⟨?_, ?_⟩⟩⟩
    · exact fun c hc => isFloatPart_of_isBasicDigit (hplaces c hc)
    · exact isFloatPart_of_isExponent hexponent
  obtain ⟨first, others, hcons⟩ := List.exists_cons_of_ne_nil hne
  have hfirst : first.isBasicDigit = true := hwhole first (by rw [hcons]; exact List.mem_cons_self)
  refine readFloat_signed own negative hparts (by rw [hcons]; rfl) hfirst ?_
  exact Literal.readFloat_of_readDecimal? (.point (.inl hne) hwhole hplaces hexponent)
    (Literal.readDecimal?_point (.inl hne) hwhole hplaces hexponent.noDigit he false)

/-- The exponent of a number is read as such. -/
theorem cutExponent?_exponentText (e : Int) :
    Literal.IsExponent (Text.ofString (Binary64.exponentText e)) ∧
      Literal.cutExponent? (Text.ofString (Binary64.exponentText e)) = some (e, []) := by
  have hdigits : ∀ c ∈ Text.ofChars (Binary64.exponentDigits e), c.isBasicDigit = true :=
    List.forall_mem_map.2 fun c hc =>
      CodePoint.isBasicDigit_ofChar (Binary64.isDigit_of_mem_exponentDigits e c hc)
  have hne : Text.ofChars (Binary64.exponentDigits e) ≠ [] := fun hnil =>
    Binary64.exponentDigits_ne_nil e (List.map_eq_nil_iff.1 hnil)
  have htext : Text.ofString (Binary64.exponentText e) =
      CodePoint.ofChar 'e' :: CodePoint.ofChar (if e < 0 then '-' else '+') ::
        Text.ofChars (Binary64.exponentDigits e) := by
    rw [Text.ofString, Binary64.exponentText_toList]
    rfl
  have hcut : Literal.cutDigits (Text.ofChars (Binary64.exponentDigits e)) =
      (Text.ofChars (Binary64.exponentDigits e), []) := by
    have happend := Literal.cutDigits_append hdigits Literal.noDigit_nil
    rwa [List.append_nil] at happend
  have hempty : (Text.ofChars (Binary64.exponentDigits e)).isEmpty = false :=
    List.isEmpty_eq_false_iff.2 hne
  have hvalue := Binary64.decimal_exponentDigits e
  rw [htext]
  rcases lt_or_ge e 0 with hneg | hnonneg
  · rw [if_pos hneg]
    refine ⟨.inr ⟨_, _, rfl, .inl rfl, hne, hdigits⟩, ?_⟩
    have hsign : Literal.cutSign (CodePoint.ofChar '-' ::
        Text.ofChars (Binary64.exponentDigits e)) =
        (true, Text.ofChars (Binary64.exponentDigits e)) := rfl
    have hresult : -1 * (e.natAbs : Int) = e := by omega
    simp only [Literal.cutExponent?, true_or, if_true, hsign, hcut, hempty, Bool.false_eq_true,
      if_false, hvalue, hresult]
  · rw [if_neg (Int.not_lt.2 hnonneg)]
    refine ⟨.inr ⟨_, _, rfl, .inr rfl, hne, hdigits⟩, ?_⟩
    have hsign : Literal.cutSign (CodePoint.ofChar '+' ::
        Text.ofChars (Binary64.exponentDigits e)) =
        (false, Text.ofChars (Binary64.exponentDigits e)) := rfl
    have hresult : 1 * (e.natAbs : Int) = e := by omega
    simp only [Literal.cutExponent?, true_or, if_true, hsign, hcut, hempty, Bool.false_eq_true,
      if_false, hvalue, hresult]

section Finite

variable {negative : Bool} {significand power : Nat} {t : Text}
  (htext : Text.ofString (Binary64.finite negative significand power).text = t)

include htext

/-- The text of a number without an exponent is written as it is. -/
theorem floatText_of_notMem (h : CodePoint.ofChar 'e' ∉ t) :
    Draft.floatText (.finite negative significand power) = t := by
  unfold Draft.floatText
  dsimp only
  rw [htext, Text.cut?_eq_none h]

/-- In front of the exponent there is always a point. -/
theorem floatText_of_cut {digits exponent : Text}
    (heq : t = digits ++ CodePoint.ofChar 'e' :: exponent) (h : CodePoint.ofChar 'e' ∉ digits) :
    Draft.floatText (.finite negative significand power) =
      if digits.any (· = '.') then t else digits ++ Text.ofString ".0e" ++ exponent := by
  unfold Draft.floatText
  dsimp only
  rw [htext, heq, Text.cut?_append h]

end Finite

theorem notMem_ofChars_digits {digits : List Char} (h : ∀ c ∈ digits, c.isDigit = true)
    {c : CodePoint} (hc : c.isBasicDigit = false) : c ∉ Text.ofChars digits := by
  intro hmem
  obtain ⟨d, hd, rfl⟩ := List.mem_map.1 hmem
  rw [CodePoint.isBasicDigit_ofChar (h d hd)] at hc
  cases hc

theorem notMem_sign {c : CodePoint} (hc : c ≠ CodePoint.ofChar '-') (negative : Bool) :
    c ∉ Text.ofChars (sign negative) := by
  intro hmem
  exact hc (forall_sign (P := (· = CodePoint.ofChar '-')) rfl negative c hmem)

theorem isBasicDigit_of_mem_ofChars {digits : List Char} (h : ∀ c ∈ digits, c.isDigit = true) :
    ∀ c ∈ Text.ofChars digits, c.isBasicDigit = true :=
  List.forall_mem_map.2 fun c hc => CodePoint.isBasicDigit_ofChar (h c hc)

/-- Digits of a decimal with a point among them and an exponent are read as the number that they
spell. -/
theorem readFloat_digits (own : Nat) (negative : Bool) {whole places : List Char}
    (hne : whole ≠ []) (hwhole : ∀ c ∈ whole, c.isDigit = true)
    (hplaces : ∀ c ∈ places, c.isDigit = true) {exponent : Text}
    (hexponent : Literal.IsExponent exponent) {e : Int}
    (he : Literal.cutExponent? exponent = some (e, [])) :
    readFloat own (Text.ofChars (sign negative) ++
      (Text.ofChars whole ++ CodePoint.ofChar '.' :: (Text.ofChars places ++ exponent))) =
      .ok (.float (.ofDecimal negative (Nat.ofDigitChars 10 (whole ++ places) 0)
        (e - places.length))) := by
  have hvalue : (Text.ofChars whole ++ Text.ofChars places).decimal =
      Nat.ofDigitChars 10 (whole ++ places) 0 := by
    rw [← Text.decimal_ofChars (List.forall_mem_append.2 ⟨hwhole, hplaces⟩), Text.ofChars,
      Text.ofChars, Text.ofChars, List.map_append]
  have hlength : (Text.ofChars places).length = places.length := List.length_map _
  have hread := readFloat_point own negative
    (show Text.ofChars whole ≠ [] from fun hnil => hne (List.map_eq_nil_iff.1 hnil))
    (isBasicDigit_of_mem_ofChars hwhole) (isBasicDigit_of_mem_ofChars hplaces) hexponent he
  rwa [hvalue, hlength] at hread

section Decimal

variable {negative : Bool} {significand power : Nat} (own : Nat)

/-- A decimal without an exponent is read as the number that it spells. -/
theorem readFloat_places {whole places : List Char} (hne : whole ≠ [])
    (hwhole : ∀ c ∈ whole, c.isDigit = true) (hplaces : ∀ c ∈ places, c.isDigit = true)
    (htext : Text.ofString (Binary64.finite negative significand power).text =
      Text.ofChars (sign negative) ++ Text.ofChars (whole ++ '.' :: places)) :
    readFloat own (Draft.floatText (.finite negative significand power)) =
      .ok (.float (.ofDecimal negative (Nat.ofDigitChars 10 (whole ++ places) 0)
        (-places.length))) := by
  have happend : Text.ofChars (whole ++ '.' :: places) =
      Text.ofChars whole ++ CodePoint.ofChar '.' :: Text.ofChars places := List.map_append
  rw [happend] at htext
  have hnone : CodePoint.ofChar 'e' ∉ Text.ofChars (sign negative) ++
      (Text.ofChars whole ++ CodePoint.ofChar '.' :: Text.ofChars places) :=
    List.not_mem_append (notMem_sign (by decide) negative)
      (List.not_mem_append (notMem_ofChars_digits hwhole rfl)
        (List.not_mem_cons_of_ne_of_not_mem (by decide) (notMem_ofChars_digits hplaces rfl)))
  have hread := readFloat_digits own negative hne hwhole hplaces (.inl rfl) (e := 0) rfl
  rw [List.append_nil, Int.zero_sub] at hread
  rw [floatText_of_notMem htext hnone, hread]

/-- A digit with an exponent is read as the number that it spells. The zero that is written behind a
point is made good by the exponent. -/
theorem readFloat_oneDigit {first : Char} (hfirst : first.isDigit = true) {exponent : Text}
    {e : Int}
    (hexponent : Literal.IsExponent (CodePoint.ofChar 'e' :: exponent))
    (hcut : Literal.cutExponent? (CodePoint.ofChar 'e' :: exponent) = some (e, []))
    (htext : Text.ofString (Binary64.finite negative significand power).text =
      Text.ofChars (sign negative) ++ (Text.ofChars [first] ++ CodePoint.ofChar 'e' :: exponent)) :
    readFloat own (Draft.floatText (.finite negative significand power)) =
      .ok (.float (.ofDecimal negative (Nat.ofDigitChars 10 [first] 0) e)) := by
  have hdigits : ∀ c ∈ [first], c.isDigit = true := List.forall_mem_singleton.2 hfirst
  have hnone : CodePoint.ofChar 'e' ∉ Text.ofChars (sign negative) ++ Text.ofChars [first] :=
    List.not_mem_append (notMem_sign (by decide) negative) (notMem_ofChars_digits hdigits rfl)
  have hpoint : ¬(Text.ofChars (sign negative) ++ Text.ofChars [first]).any (· = '.') = true := by
    rw [Bool.not_eq_true, Text.any_eq_false_iff]
    exact List.not_mem_append (notMem_sign (by decide) negative)
      (notMem_ofChars_digits hdigits rfl)
  have hread := readFloat_digits own negative (List.cons_ne_nil first []) hdigits
    Binary64.isWhole_zero.isDigit hexponent hcut
  have hzeros : Nat.ofDigitChars 10 ([first] ++ ['0']) 0 =
      Nat.ofDigitChars 10 [first] 0 * 10 ^ 1 := Binary64.ofDigitChars_zeros [first] 1
  have hshift : e - (['0'].length : Nat) + (1 : Nat) = e := by
    rw [List.length_singleton]
    omega
  rw [hzeros, Binary64.ofDecimal_mul_pow, hshift] at hread
  rw [← List.append_assoc] at htext
  rw [floatText_of_cut htext rfl hnone, if_neg hpoint, ← hread, List.append_assoc,
    List.append_assoc]
  rfl

/-- Digits with a point behind the first one and an exponent are read as the number that they
spell. -/
theorem readFloat_exponent {first : Char} {others : List Char} (hfirst : first.isDigit = true)
    (hothers : ∀ c ∈ others, c.isDigit = true) {exponent : Text} {e : Int}
    (hexponent : Literal.IsExponent (CodePoint.ofChar 'e' :: exponent))
    (hcut : Literal.cutExponent? (CodePoint.ofChar 'e' :: exponent) = some (e, []))
    (htext : Text.ofString (Binary64.finite negative significand power).text =
      Text.ofChars (sign negative) ++ ((CodePoint.ofChar first :: CodePoint.ofChar '.' ::
        Text.ofChars others) ++ CodePoint.ofChar 'e' :: exponent)) :
    readFloat own (Draft.floatText (.finite negative significand power)) =
      .ok (.float (.ofDecimal negative (Nat.ofDigitChars 10 (first :: others) 0)
        (e - others.length))) := by
  have hone : CodePoint.ofChar 'e' ∉ Text.ofChars [first] :=
    notMem_ofChars_digits (List.forall_mem_singleton.2 hfirst) rfl
  have hnone : CodePoint.ofChar 'e' ∉ Text.ofChars (sign negative) ++
      (CodePoint.ofChar first :: CodePoint.ofChar '.' :: Text.ofChars others) :=
    List.not_mem_append (notMem_sign (by decide) negative) (List.not_mem_append hone
      (List.not_mem_cons_of_ne_of_not_mem (by decide) (notMem_ofChars_digits hothers rfl)))
  have hpoint : (Text.ofChars (sign negative) ++ (CodePoint.ofChar first ::
      CodePoint.ofChar '.' :: Text.ofChars others)).any (· = '.') = true :=
    List.any_eq_true.2 ⟨CodePoint.ofChar '.', by simp, by decide⟩
  have hread := readFloat_digits own negative (List.cons_ne_nil first [])
    (List.forall_mem_singleton.2 hfirst) hothers hexponent hcut
  rw [List.singleton_append] at hread
  rw [← List.append_assoc] at htext
  rw [floatText_of_cut htext rfl hnone, if_pos hpoint, ← hread, List.append_assoc]
  rfl

end Decimal

/-- The text of a finite number is read as the number that its decimal reads as. -/
theorem readFloat_finite (own : Nat) (negative : Bool) (significand power : Nat) :
    readFloat own (Draft.floatText (.finite negative significand power)) =
      .ok (.float (Binary64.finite negative significand power).reread) := by
  obtain ⟨d, hd, htext, hreread⟩ := Binary64.exists_decimal negative significand power
  have hspells := Binary64.Decimal.spelling_text hd
  rw [hreread]
  generalize d.text.toList = written at htext hspells
  replace htext : Text.ofString (Binary64.finite negative significand power).text =
      Text.ofChars (sign negative) ++ Text.ofChars written := by
    rw [Text.ofString, htext, Text.ofChars, List.map_append]
    rfl
  cases hspells with
  | @places whole places hwhole hne hplaces value =>
    rw [← value]
    exact readFloat_places own hwhole.ne_nil hwhole.isDigit hplaces htext
  | @exponent first others hfirst hdigits e value =>
    obtain ⟨hdigit, hothers⟩ := List.forall_mem_cons.1 hdigits
    obtain ⟨hexponent, hcut⟩ := cutExponent?_exponentText e
    obtain ⟨ending, hending⟩ : ∃ ending,
        Text.ofString (Binary64.exponentText e) = CodePoint.ofChar 'e' :: ending := by
      rw [Text.ofString, Binary64.exponentText_toList]
      exact ⟨_, rfl⟩
    have happend : ∀ digits : List Char,
        Text.ofChars (digits ++ (Binary64.exponentText e).toList) =
          Text.ofChars digits ++ CodePoint.ofChar 'e' :: ending := by
      intro digits
      rw [← hending]
      exact List.map_append
    rw [hending] at hexponent hcut
    rw [← value]
    cases others with
    | nil =>
      rw [if_pos rfl] at htext
      rw [List.length_nil, Int.natCast_zero, Int.sub_zero]
      exact readFloat_oneDigit own hdigit hexponent hcut
        (htext.trans (congrArg _ (happend [first])))
    | cons second others =>
      rw [if_neg (List.cons_ne_nil _ _)] at htext
      exact readFloat_exponent own hdigit hothers hexponent hcut
        (htext.trans (congrArg _ (happend (first :: '.' :: second :: others))))

theorem readFloat_nan (own label : Nat) :
    readFloat own (Draft.floatText (.nan label)) = .ok (.float (.nan nanLabel)) := rfl

theorem readFloat_infinite (own : Nat) (negative : Bool) :
    readFloat own (Draft.floatText (.infinite negative)) = .ok (.float (.infinite negative)) := by
  cases negative <;> rfl

/-! ## Bytes -/

/-- A text in lines is a text of lines, each with characters of the text. -/
theorem exists_joinLines {width fuel : Nat} (hwidth : 0 < width) {cs : List Char}
    (h : ∀ c ∈ cs, 0x20 < c.toNat ∧ c.toNat < 0x7f) :
    ∃ ls, Base64.lines width fuel cs = joinLines ls ∧ ∀ l ∈ ls, IsLine l := by
  induction fuel generalizing cs with
  | zero => exact ⟨[], rfl, List.forall_mem_nil _⟩
  | succ fuel ih =>
    rw [Base64.lines]
    split
    · exact ⟨[], rfl, List.forall_mem_nil _⟩
    · next hne =>
      obtain ⟨ls, hls, hlines⟩ := ih fun c hc => h c (List.mem_of_mem_drop hc)
      have hfirst : IsLine (cs.take width) := by
        refine ⟨fun hnil => ?_, fun c hc => h c (List.mem_of_mem_take hc)⟩
        rcases List.take_eq_nil_iff.1 hnil with hzero | hnil
        · exact absurd hzero (Nat.ne_of_gt hwidth)
        · exact hne (List.isEmpty_iff.2 hnil)
      refine ⟨cs.take width :: ls, ?_, List.forall_mem_cons.2 ⟨hfirst, hlines⟩⟩
      rw [hls, joinLines, joinLines, List.flatMap_cons, List.append_assoc, List.singleton_append]

/-- Bytes are written as lines, if there are any. -/
theorem encodeLines_eq (bs : List UInt8) :
    ∃ ls, Base64.encodeLines bs = joinLines ls ∧ ∀ l ∈ ls, IsLine l :=
  exists_joinLines (by decide) Base64.visible_of_mem_encode

/-- The lines that spell bytes are read as the bytes. -/
theorem readBytes_encodeLines (bs : List UInt8) :
    readBytes (Text.ofChars (Base64.encodeLines bs)) = .ok (.bytes bs) := by
  have hlatin : (Text.ofChars (Base64.encodeLines bs)).all CodePoint.isBasicLatin = true := by
    obtain ⟨ls, hls, hlines⟩ := encodeLines_eq bs
    rw [hls, List.all_eq_true]
    refine List.forall_mem_map.2 fun c hc => ?_
    obtain ⟨l, hl, hc⟩ := List.mem_flatMap.1 hc
    rcases List.mem_append.1 hc with hc | hc
    · have hvisible := (hlines l hl).visible c hc
      exact decide_eq_true (show c.toNat < 0x80 by omega)
    · rw [List.mem_singleton.1 hc]
      rfl
  rw [readBytes, if_pos hlatin, Base64.decode?_encodeLines]

end SiteRules.Yaml.Scalar
