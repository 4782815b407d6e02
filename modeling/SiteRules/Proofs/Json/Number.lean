import SiteRules.Json.Reader
import SiteRules.Json.Writer
import SiteRules.Proofs.Number.Spelling

/-!
# Theory of JSON numbers

The text that is written for a number is read to its end, and as the number: an integer as itself
(`Json.scanNumber_integer`), and a finite number as the one that its shortest decimal reads as
(`Json.scanNumber_float`), which is the number itself (`Binary64.reread_of_isFormat`).
-/

namespace SiteRules

namespace Json

open Binary64

/-- What may follow a value: nothing, a comma, or the end of the line. -/
def Ends (rest : List Char) : Prop :=
  ∀ c ∈ rest.head?, c = ',' ∨ c = '\n'

/-- What follows the digits of a number does not begin with a digit. -/
def NoDigit (rest : List Char) : Prop :=
  ∀ c ∈ rest.head?, c.isDigit = false

theorem Ends.noDigit {rest : List Char} (h : Ends rest) : NoDigit rest := by
  intro c hc
  rcases h c hc with rfl | rfl <;> rfl

theorem noDigit_cons {c : Char} (h : c.isDigit = false) (rest : List Char) :
    NoDigit (c :: rest) := by
  rintro _ ⟨⟩
  exact h

/-! ## The parts of a number -/

section Parts

variable {digits rest : List Char}

/-- A run of digits is cut off whole. -/
theorem cutDigits_append (h : ∀ c ∈ digits, c.isDigit = true) (hrest : NoDigit rest) :
    cutDigits (digits ++ rest) = (digits, rest) := by
  rw [cutDigits, List.takeWhile_append_of_pos h, List.dropWhile_append_of_pos h]
  cases rest with
  | nil => rw [List.takeWhile_nil, List.dropWhile_nil, List.append_nil]
  | cons c rest =>
    have hc : c.isDigit ≠ true := by simp [hrest c rfl]
    rw [List.takeWhile_cons_of_neg hc, List.dropWhile_cons_of_neg hc, List.append_nil]

theorem cutWhole?_append (h : IsWhole digits) (hrest : NoDigit rest) :
    cutWhole? (digits ++ rest) = some (digits, rest) := by
  rcases h with rfl | ⟨first, others, rfl, hfirst, hdigits⟩
  · rfl
  · rw [List.cons_append, cutWhole?, ← List.cons_append, cutDigits_append hdigits hrest]
    rintro _ ⟨⟩
    exact hfirst rfl

theorem cutPlaces?_append (hne : digits ≠ []) (h : ∀ c ∈ digits, c.isDigit = true)
    (hrest : NoDigit rest) : cutPlaces? ('.' :: (digits ++ rest)) = some (digits, rest) := by
  rw [cutPlaces?, cutDigits_append h hrest]
  cases digits with
  | nil => exact absurd rfl hne
  | cons c digits => rfl

theorem cutPlaces?_eq_none (h : ∀ c ∈ rest.head?, c ≠ '.') : cutPlaces? rest = none := by
  unfold cutPlaces?
  split
  · exact absurd rfl (h '.' rfl)
  · rfl

theorem cutExponent?_eq_none (h : ∀ c ∈ rest.head?, c ≠ 'e' ∧ c ≠ 'E') :
    cutExponent? rest = none := by
  cases rest with
  | nil => rfl
  | cons c rest =>
    obtain ⟨he, hE⟩ := h c rfl
    simp only [cutExponent?]
    exact if_neg (by simp [he, hE])

/-- An exponent is read to its end. -/
theorem cutExponent?_append (e : Int) (hrest : NoDigit rest) :
    cutExponent? ((exponentText e).toList ++ rest) = some (e, rest) := by
  have hcut := cutDigits_append (isDigit_of_mem_exponentDigits e) hrest
  have hvalue := decimal_exponentDigits e
  rw [exponentText_toList]
  obtain ⟨first, others, hcons⟩ := List.exists_cons_of_ne_nil (exponentDigits_ne_nil e)
  rw [hcons] at hcut hvalue ⊢
  rw [List.cons_append] at hcut
  rcases lt_or_ge e 0 with hneg | hnonneg
  · rw [if_pos hneg]
    simp [cutExponent?, hcut, hvalue, abs_of_neg hneg]
  · rw [if_neg (Int.not_lt.2 hnonneg)]
    simp [cutExponent?, hcut, hvalue, abs_of_nonneg hnonneg]

end Parts

/-! ## Numbers -/

section Scan

variable {unsigned whole rest : List Char}

theorem cutSign_sign (negative : Bool) (hhead : ∀ c ∈ unsigned.head?, c ≠ '-') :
    cutSign (sign negative ++ unsigned) = (negative, unsigned) := by
  cases negative with
  | true => rfl
  | false =>
    show cutSign unsigned = (false, unsigned)
    unfold cutSign
    split
    · exact absurd rfl (hhead '-' rfl)
    · rfl

/-- A number that has places or an exponent is read as a decimal. -/
theorem scanNumber_of_parts (negative : Bool) (hhead : ∀ c ∈ unsigned.head?, c ≠ '-')
    (hwhole : cutWhole? unsigned = some (whole, rest)) {places : Option (List Char × List Char)}
    (hplaces : cutPlaces? rest = places) {exponent : Option (Int × List Char)}
    (hexponent : cutExponent? ((places.map Prod.snd).getD rest) = exponent)
    (hpart : (places.isSome || exponent.isSome) = true) :
    scanNumber (sign negative ++ unsigned) = .ok
      (.float (.ofDecimal negative
        (Text.ofChars (whole ++ (places.map Prod.fst).getD [])).decimal
        ((exponent.map Prod.fst).getD 0 - ((places.map Prod.fst).getD []).length)),
      (exponent.map Prod.snd).getD ((places.map Prod.snd).getD rest)) := by
  rw [scanNumber, cutSign_sign negative hhead]
  simp only [hwhole, hplaces, hexponent]
  rw [if_pos hpart]

end Scan

section Spelled

variable {rest : List Char}

theorem head?_append_of_mem {α : Type} {a b : List α} (h : a ≠ []) {c : α}
    (hc : c ∈ (a ++ b).head?) : c ∈ a := by
  rw [List.head?_append_of_ne_nil _ h] at hc
  exact List.mem_of_mem_head? hc

/-- A number with places and without an exponent. -/
theorem scanNumber_places (negative : Bool) {whole places : List Char} (hwhole : IsWhole whole)
    (hne : places ≠ []) (hplaces : ∀ c ∈ places, c.isDigit = true) (hrest : Ends rest) :
    scanNumber (sign negative ++ (whole ++ '.' :: (places ++ rest))) = .ok
      (.float (.ofDecimal negative (Nat.ofDigitChars 10 (whole ++ places) 0) (-places.length)),
        rest) := by
  have hhead : ∀ c ∈ (whole ++ '.' :: (places ++ rest)).head?, c ≠ '-' := by
    rintro _ hc rfl
    exact absurd (hwhole.isDigit _ (head?_append_of_mem hwhole.ne_nil hc)) (by decide)
  have hnone : cutExponent? rest = none := cutExponent?_eq_none fun c hc => by
    rcases hrest c hc with rfl | rfl <;> decide
  have hdigits : ∀ c ∈ whole ++ places, c.isDigit = true :=
    List.forall_mem_append.2 ⟨hwhole.isDigit, hplaces⟩
  have hread := scanNumber_of_parts negative hhead (cutWhole?_append hwhole (noDigit_cons rfl _))
    (cutPlaces?_append hne hplaces hrest.noDigit) hnone rfl
  rw [hread, ← Text.decimal_ofChars hdigits]
  simp

/-- A number with an exponent. Its whole part is one digit, and it may have no places. -/
theorem scanNumber_exponent (negative : Bool) {first : Char} {places : List Char}
    (hfirst : first ≠ '0') (hdigits : ∀ c ∈ first :: places, c.isDigit = true) (e : Int)
    (hrest : Ends rest) :
    scanNumber (sign negative ++ (first :: ((if places = [] then [] else '.' :: places) ++
      ((exponentText e).toList ++ rest)))) =
      .ok (.float (.ofDecimal negative (Nat.ofDigitChars 10 (first :: places) 0)
        (e - places.length)), rest) := by
  obtain ⟨hdigit, hplaces⟩ := List.forall_mem_cons.1 hdigits
  have hhead : ∀ others : List Char, ∀ c ∈ (first :: others).head?, c ≠ '-' := by
    rintro _ _ ⟨⟩ rfl
    cases hdigit
  have hwhole : IsWhole [first] := by
    refine .inr ⟨first, [], rfl, hfirst, ?_⟩
    simpa using hdigit
  have hletter : ((exponentText e).toList ++ rest).head? = some 'e' := by
    rw [exponentText_toList]
    rfl
  have hstop : NoDigit ((exponentText e).toList ++ rest) := by
    intro c hc
    rw [hletter] at hc
    cases hc
    rfl
  have hexponent := cutExponent?_append e hrest.noDigit
  rw [← Text.decimal_ofChars hdigits]
  split
  · next hnil =>
    subst hnil
    have hnone : cutPlaces? ((exponentText e).toList ++ rest) = none :=
      cutPlaces?_eq_none fun c hc => by
        rw [hletter] at hc
        cases hc
        decide
    exact scanNumber_of_parts negative (hhead _) (cutWhole?_append hwhole hstop) hnone hexponent rfl
  · next hne =>
    rw [List.cons_append]
    exact scanNumber_of_parts negative (hhead _) (cutWhole?_append hwhole (noDigit_cons rfl _))
      (cutPlaces?_append hne hplaces hstop) hexponent rfl

/-- The text of a decimal is read as the decimal. -/
theorem scanNumber_decimal (negative : Bool) {d : Decimal}
    (hd : 0 < d.digits ∨ d = ⟨0, 0⟩) (hrest : Ends rest) :
    scanNumber (sign negative ++ (d.text.toList ++ rest)) =
      .ok (.float (.ofDecimal negative d.digits d.exponent), rest) := by
  have hspells := Decimal.spelling_text hd
  generalize d.text.toList = written at hspells ⊢
  cases hspells with
  | places hwhole hne hplaces value =>
    rw [List.append_assoc, List.cons_append, scanNumber_places negative hwhole hne hplaces hrest,
      value]
  | exponent hfirst hdigits e value =>
    rw [List.cons_append, List.append_assoc, scanNumber_exponent negative hfirst hdigits e hrest,
      value]

/-- The text of a finite number is read as the number that its decimal reads as. -/
theorem scanNumber_float (negative : Bool) (significand power : Nat) (hrest : Ends rest) :
    scanNumber ((finite negative significand power).text.toList ++ rest) =
      .ok (.float (finite negative significand power).reread, rest) := by
  obtain ⟨d, hd, htext, hvalue⟩ := exists_decimal negative significand power
  rw [htext, hvalue, List.append_assoc]
  exact scanNumber_decimal negative hd hrest

/-- The text of an integer is read as the integer, if it has few enough digits. -/
theorem scanNumber_integer {n : Int} (hn : Literal.isSpellable n = true) (hrest : Ends rest) :
    scanNumber ((toString n).toList ++ rest) = .ok (.int n, rest) := by
  have hwhole := isWhole_toDigits n.natAbs
  have hhead : ∀ c ∈ (Nat.toDigits 10 n.natAbs ++ rest).head?, c ≠ '-' := by
    rintro _ hc rfl
    exact absurd (hwhole.isDigit _ (head?_append_of_mem hwhole.ne_nil hc)) (by decide)
  have hplaces : cutPlaces? rest = none := cutPlaces?_eq_none fun c hc => by
    rcases hrest c hc with rfl | rfl <;> decide
  have hexponent : cutExponent? rest = none := cutExponent?_eq_none fun c hc => by
    rcases hrest c hc with rfl | rfl <;> decide
  have hread : Literal.readInt 10 (Text.ofChars (Nat.toDigits 10 n.natAbs)) =
      .ok (n.natAbs : Int) := by
    have hlength := Text.length_ofNat_le (k := Literal.maxDigits) (by decide) (of_decide_eq_true hn)
    have hread := Literal.readInt_of_digits (Text.ofNat_ne_nil n.natAbs)
      (fun c => Text.isBasicDigit_of_mem_ofNat) hlength
    rwa [Text.decimal_ofNat] at hread
  rw [Literal.toString_toList, List.append_assoc, scanNumber, cutSign_sign _ hhead]
  simp only [cutWhole?_append hwhole hrest.noDigit, hplaces, hexponent, hread, Option.map_none,
    Option.getD_none, Option.isSome_none, Bool.or_false, Bool.false_eq_true, if_false,
    decide_eq_true_eq]
  rcases lt_or_ge n 0 with hneg | hnonneg
  · have hsign : -(n.natAbs : Int) = n := by omega
    rw [if_pos hneg, hsign]
  · have hsign : (n.natAbs : Int) = n := by omega
    rw [if_neg (Int.not_lt.2 hnonneg), hsign]

end Spelled

/-! ## What the text of a number holds -/

theorem return_notMem_of_isDigit {digits : List Char} (h : ∀ c ∈ digits, c.isDigit = true) :
    '\r' ∉ digits :=
  fun hmem => absurd (h _ hmem) (by decide)

theorem return_notMem_exponentText (e : Int) : '\r' ∉ (exponentText e).toList := by
  have hdigits := return_notMem_of_isDigit (isDigit_of_mem_exponentDigits e)
  rw [exponentText_toList]
  split <;> simp [hdigits]

theorem return_notMem_decimal {d : Decimal} (hd : 0 < d.digits ∨ d = ⟨0, 0⟩) :
    '\r' ∉ d.text.toList := by
  have hspells := Decimal.spelling_text hd
  generalize d.text.toList = written at hspells ⊢
  cases hspells with
  | places hwhole _ hplaces =>
    have hwhole := return_notMem_of_isDigit hwhole.isDigit
    have hplaces := return_notMem_of_isDigit hplaces
    simp [hwhole, hplaces]
  | exponent _ hdigits e =>
    have hdigits := return_notMem_of_isDigit hdigits
    have hexponent := return_notMem_exponentText e
    rw [List.mem_cons, not_or] at hdigits
    split <;> simp [hdigits, hexponent]

theorem return_notMem_text (negative : Bool) (significand power : Nat) :
    '\r' ∉ (finite negative significand power).text.toList := by
  obtain ⟨d, hd, htext, -⟩ := exists_decimal negative significand power
  have hdecimal := return_notMem_decimal hd
  rw [htext]
  cases negative <;> simp [sign, hdecimal]

theorem return_notMem_toString (n : Int) : '\r' ∉ (toString n).toList := by
  have hdigits : '\r' ∉ Nat.toDigits 10 n.natAbs := return_notMem_of_isDigit fun c =>
    Nat.isDigit_of_mem_toDigits (by decide) (by decide)
  rw [Literal.toString_toList, sign]
  split <;> simp [hdigits]

end Json

end SiteRules
