import SiteRules.Proofs.Number.Decimal
import SiteRules.Proofs.Text.Lower

/-!
# Theory of decimals

Digits with a point and an exponent, or without them, are read as a floating-point number
(`Literal.readFloat_of_isDecimal`), one with a point as the decimal that its digits and its exponent
spell (`Literal.readDecimal?_point`).
-/

namespace SiteRules.Literal

/-- An exponent with its sign, or nothing. -/
def IsExponent (t : Text) : Prop :=
  t = [] ∨ ∃ sign digits, t = CodePoint.ofChar 'e' :: sign :: digits ∧
    (sign = CodePoint.ofChar '-' ∨ sign = CodePoint.ofChar '+') ∧ digits ≠ [] ∧
    ∀ c ∈ digits, c.isBasicDigit = true

/-- A decimal without sign: digits alone, or digits with a point among them and an exponent. -/
inductive IsDecimal : Text → Prop
  | whole {digits : Text} (hne : digits ≠ []) (h : ∀ c ∈ digits, c.isBasicDigit = true) :
      IsDecimal digits
  | point {whole places exponent : Text} (hne : whole ≠ [] ∨ places ≠ [])
      (hwhole : ∀ c ∈ whole, c.isBasicDigit = true) (hplaces : ∀ c ∈ places, c.isBasicDigit = true)
      (hexponent : IsExponent exponent) :
      IsDecimal (whole ++ CodePoint.ofChar '.' :: (places ++ exponent))

/-! ## The parts of a decimal -/

/-- What follows the digits of a number goes on with neither a digit nor an underscore. -/
def NoDigit (rest : Text) : Prop :=
  ∀ c ∈ rest.head?, c.isDigit = false ∧ c ≠ CodePoint.ofChar '_'

/-- A run of digits is cut off whole. -/
theorem cutDigits_append {run rest : Text} (hrun : ∀ c ∈ run, c.isBasicDigit = true)
    (hrest : NoDigit rest) : cutDigits (run ++ rest) = (run, rest) := by
  -- whether a digit stands in front counts for underscores only, and here there are none
  have hafter : ∀ digitBefore, cutDigitsAfter digitBefore (run ++ rest) = (run, rest) := by
    induction run with
    | nil =>
      intro digitBefore
      cases rest with
      | nil => rfl
      | cons c rest =>
        obtain ⟨hdigit, hline⟩ := hrest c rfl
        simp only [List.nil_append, cutDigitsAfter, hdigit, hline, decide_false, Bool.and_false,
          Bool.false_and, Bool.false_eq_true, if_false]
    | cons c others ih =>
      intro digitBefore
      have hdigit := CodePoint.isDigit_of_isBasicDigit (hrun c List.mem_cons_self)
      have ih := ih (fun d hd => hrun d (List.mem_cons_of_mem _ hd)) true
      simp only [List.cons_append, cutDigitsAfter, hdigit, ih, if_true]
  exact hafter false

theorem noDigit_nil : NoDigit [] :=
  fun c hc => by cases hc

theorem noDigit_cons {c : CodePoint} (h : c.isDigit = false ∧ c ≠ CodePoint.ofChar '_')
    (rest : Text) : NoDigit (c :: rest) := by
  rintro _ ⟨rfl⟩
  exact h

theorem IsExponent.noDigit {t : Text} (h : IsExponent t) : NoDigit t := by
  rcases h with rfl | ⟨sign, digits, rfl, -⟩
  · exact noDigit_nil
  · exact noDigit_cons (by decide) _

/-- An exponent is cut off to the end of the text. -/
theorem IsExponent.cutExponent? {t : Text} (h : IsExponent t) :
    ∃ n, Literal.cutExponent? t = some (n, []) := by
  rcases h with rfl | ⟨sign, digits, rfl, hsign, hne, hdigits⟩
  · exact ⟨0, rfl⟩
  · have hcut : ∃ negative, cutSign (sign :: digits) = (negative, digits) := by
      rcases hsign with rfl | rfl
      · exact ⟨true, rfl⟩
      · exact ⟨false, rfl⟩
    obtain ⟨negative, hcut⟩ := hcut
    have hrun : cutDigits digits = (digits, []) := by
      rw [← List.append_nil digits, cutDigits_append hdigits noDigit_nil, List.append_nil]
    have hempty : digits.isEmpty = false := List.isEmpty_eq_false_iff.2 hne
    simp only [Literal.cutExponent?, true_or, if_true, hcut, hrun, hempty, Bool.false_eq_true,
      if_false]
    exact ⟨_, rfl⟩

/-- Digits with a point among them and an exponent are read as the decimal that they spell. -/
theorem readDecimal?_point {whole places exponent : Text} (hne : whole ≠ [] ∨ places ≠ [])
    (hwhole : ∀ c ∈ whole, c.isBasicDigit = true) (hplaces : ∀ c ∈ places, c.isBasicDigit = true)
    (hexponent : NoDigit exponent) {e : Int} (he : Literal.cutExponent? exponent = some (e, []))
    (negative : Bool) :
    readDecimal? negative (whole ++ CodePoint.ofChar '.' :: (places ++ exponent)) =
      some (.ofDecimal negative (whole ++ places).decimal (e - places.length)) := by
  have hcut := cutDigits_append hwhole
    (noDigit_cons (by decide : (CodePoint.ofChar '.').isDigit = false ∧ _) (places ++ exponent))
  have hplacesCut := cutDigits_append hplaces hexponent
  have hempty : (whole.isEmpty && places.isEmpty) = false := by
    rw [Bool.and_eq_false_iff, List.isEmpty_eq_false_iff, List.isEmpty_eq_false_iff]
    exact hne
  unfold Literal.readDecimal?
  simp [hcut, hplacesCut, hempty, he]

/-- A decimal fills the text. -/
theorem IsDecimal.readDecimal? {t : Text} (h : IsDecimal t) (negative : Bool) :
    ∃ x, Literal.readDecimal? negative t = some x := by
  cases h with
  | whole hne h =>
    have hcut : cutDigits t = (t, []) := by
      have happend := cutDigits_append h noDigit_nil
      rwa [List.append_nil] at happend
    have hempty : t.isEmpty = false := List.isEmpty_eq_false_iff.2 hne
    unfold Literal.readDecimal?
    simp [hcut, hempty, cutExponent?]
  | point hne hwhole hplaces hexponent =>
    obtain ⟨e, he⟩ := hexponent.cutExponent?
    exact ⟨_, readDecimal?_point hne hwhole hplaces hexponent.noDigit he negative⟩

/-! ## Decimals that are read -/

theorem IsDecimal.isPadding {t : Text} (h : IsDecimal t) :
    ∀ c ∈ t, Literal.isPadding c = false := by
  have hdigit : ∀ {c : CodePoint}, c.isBasicDigit = true → Literal.isPadding c = false :=
    fun h => isPadding_of_isDigit (isDigit_ten h)
  intro c hc
  cases h with
  | whole _ h => exact hdigit (h c hc)
  | point _ hwhole hplaces hexponent =>
    rcases List.mem_append.1 hc with hc | hc
    · exact hdigit (hwhole c hc)
    · rcases List.mem_cons.1 hc with rfl | hc
      · decide
      · rcases List.mem_append.1 hc with hc | hc
        · exact hdigit (hplaces c hc)
        · rcases hexponent with rfl | ⟨sign, digits, rfl, hsign, -, hdigits⟩
          · cases hc
          · rcases List.mem_cons.1 hc with rfl | hc
            · decide
            · rcases List.mem_cons.1 hc with rfl | hc
              · rcases hsign with rfl | rfl <;> decide
              · exact hdigit (hdigits c hc)

theorem IsDecimal.exists_digit {t : Text} (h : IsDecimal t) : ∃ c ∈ t, c.isBasicDigit = true := by
  cases h with
  | whole hne h =>
    obtain ⟨c, rest, rfl⟩ := List.exists_cons_of_ne_nil hne
    exact ⟨c, List.mem_cons_self, h c List.mem_cons_self⟩
  | point hne hwhole hplaces _ =>
    rcases hne with hne | hne
    · obtain ⟨c, hc⟩ := List.exists_mem_of_ne_nil _ hne
      exact ⟨c, by simp [hc], hwhole c hc⟩
    · obtain ⟨c, hc⟩ := List.exists_mem_of_ne_nil _ hne
      exact ⟨c, by simp [hc], hplaces c hc⟩

theorem IsDecimal.cutSign {t : Text} (h : IsDecimal t) : Literal.cutSign t = (false, t) := by
  refine cutSign_of_head fun c hc => ?_
  have hdigit : c.isBasicDigit = true → c ≠ CodePoint.ofChar '-' ∧ c ≠ CodePoint.ofChar '+' :=
    fun h => ⟨CodePoint.ne_of_kind h rfl, CodePoint.ne_of_kind h rfl⟩
  cases h with
  | whole _ h => exact hdigit (h c (List.mem_of_mem_head? hc))
  | @point whole _ _ _ hwhole =>
    cases whole with
    | nil =>
      cases hc
      decide
    | cons d rest =>
      cases hc
      exact hdigit (hwhole c List.mem_cons_self)

/-- A decimal is read: it is not padded, and it is no name, since none holds a digit. -/
theorem readFloat_of_readDecimal? {t : Text} (h : IsDecimal t) {x : Binary64}
    (hx : readDecimal? false t = some x) : readFloat t = .ok x := by
  have hpadding := h.isPadding
  have hunpad : unpad t = t := unpad_of_ends (fun c hc => hpadding c (List.mem_of_mem_head? hc))
    fun c hc => hpadding c (List.mem_of_mem_getLast? hc)
  -- lower case neither adds nor takes away digits
  have hname : ∀ {name : Text}, (∀ c ∈ name, c.isBasicDigit = false) → t.lower ≠ name := by
    intro name hnone heq
    obtain ⟨c, hc, hdigit⟩ := h.exists_digit
    have hmem : c ∈ t.lower := (Text.mem_lowerAfter_iff (CodePoint.val_lt_of_isBasicDigit hdigit)
      (CodePoint.isBasicLetter_of_isBasicDigit hdigit) [] t).2 hc
    rw [hnone c (heq ▸ hmem)] at hdigit
    cases hdigit
  have hinf : t.lower ≠ Text.ofString "inf" := hname (by decide)
  have hinfinity : t.lower ≠ Text.ofString "infinity" := hname (by decide)
  have hnan : t.lower ≠ Text.ofString "nan" := hname (by decide)
  simp only [readFloat, hunpad, h.cutSign, hinf, hinfinity, hnan, or_self, if_false, hx]

theorem readFloat_of_isDecimal {t : Text} (h : IsDecimal t) : ∃ x, readFloat t = .ok x := by
  obtain ⟨x, hx⟩ := h.readDecimal? false
  exact ⟨x, readFloat_of_readDecimal? h hx⟩

end SiteRules.Literal
