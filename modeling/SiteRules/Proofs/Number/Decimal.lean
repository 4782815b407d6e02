import Mathlib.Data.List.Basic
import SiteRules.Number.Literal
import SiteRules.Proofs.Text.CodePoint

/-!
# Theory of decimal numbers

The text that is written for a number spells it (`Text.decimal_ofNat`), and digits of basic Latin
are read as the number that they spell (`Literal.readInt_of_digits`).
-/

namespace SiteRules

theorem CodePoint.digit?_of_isBasicDigit {c : CodePoint} (h : c.isBasicDigit = true) :
    c.digit? = some (c.val - 0x30) :=
  forall_basicLatin (P := fun c => c.isBasicDigit = true → c.digit? = some (c.val - 0x30))
    (by decide) (val_lt_of_isBasicDigit h) h

theorem CodePoint.isDigit_of_isBasicDigit {c : CodePoint} (h : c.isBasicDigit = true) :
    c.isDigit = true := by
  rw [isDigit, digit?_of_isBasicDigit h]
  rfl

/-- A decimal digit lies within ten code points of a zero. -/
theorem CodePoint.exists_zero_of_isDigit {c : CodePoint} (h : c.isDigit = true) :
    ∃ first ∈ digitZeros, first ≤ c.val ∧ c.val < first + 10 := by
  obtain ⟨n, hn⟩ := Option.isSome_iff_exists.1 h
  obtain ⟨first, hfind, -⟩ := Option.map_eq_some_iff.1 hn
  have hrange := List.find?_some hfind
  rw [Bool.and_eq_true, decide_eq_true_eq, decide_eq_true_eq] at hrange
  exact ⟨first, List.mem_of_find?_eq_some hfind, hrange⟩

theorem CodePoint.isBlank_of_isDigit {c : CodePoint} (h : c.isDigit = true) :
    c.isBlank = false := by
  obtain ⟨first, hfirst, hmin, hmax⟩ := exists_zero_of_isDigit h
  have happart : ∀ first ∈ digitZeros, ∀ range ∈ blankRanges,
      first + 10 ≤ range.1 ∨ range.2 < first := by
    decide
  rw [isBlank, isIn, List.any_eq_false]
  intro range hrange hin
  rw [Bool.and_eq_true, decide_eq_true_eq, decide_eq_true_eq] at hin
  have hout := happart first hfirst range hrange
  omega

theorem CodePoint.isBasicDigit_ofChar {c : Char} (h : c.isDigit = true) :
    (ofChar c).isBasicDigit = true := by
  simp only [Char.isDigit, Bool.and_eq_true, decide_eq_true_eq, UInt32.le_iff_toNat_le] at h
  exact isBasicDigit_iff.2 h

/-- The digits of a number other than zero do not begin with one. -/
theorem ne_zero_of_mem_head?_toDigits {n : Nat} (hn : 0 < n) {c : Char}
    (hc : c ∈ (Nat.toDigits 10 n).head?) : c ≠ '0' := by
  induction n using Nat.strongRecOn with | _ n ih
  by_cases hlt : n < 10
  · have hdigit : ∀ m < 10, 0 < m → Nat.digitChar m ≠ '0' := by decide
    rw [Nat.toDigits_of_lt_base hlt] at hc
    cases hc
    exact hdigit n hlt hn
  · rw [Nat.toDigits_of_base_le (by decide) (by omega), List.head?_append,
      List.head?_eq_some_head Nat.toDigits_ne_nil] at hc
    exact ih (n / 10) (by omega) (by omega) (by rwa [List.head?_eq_some_head Nat.toDigits_ne_nil])

namespace Text

/-! ## Numbers that are written -/

theorem isBasicDigit_of_mem_ofNat {n : Nat} {c : CodePoint} (h : c ∈ ofNat n) :
    c.isBasicDigit = true := by
  obtain ⟨ch, hch, rfl⟩ := List.mem_map.1 h
  exact CodePoint.isBasicDigit_ofChar (Nat.isDigit_of_mem_toDigits (by decide) (by decide) hch)

theorem ofNat_ne_nil (n : Nat) : ofNat n ≠ [] := by
  simp [ofNat, ofChars]

theorem length_ofNat_le {n k : Nat} (hk : 0 < k) (h : n < Nat.pow 10 k) :
    (ofNat n).length ≤ k := by
  rw [ofNat, ofChars, List.length_map]
  exact (Nat.length_toDigits_le_iff (by decide) hk).2 h

/-- The number that a text of basic Latin digits spells. -/
theorem decimal_eq_foldl {t : Text} (h : ∀ c ∈ t, c.isBasicDigit = true) :
    t.decimal = t.foldl (fun n c => 10 * n + (c.val - 0x30)) 0 := by
  rw [decimal]
  refine List.foldl_ext _ _ _ fun n c hc => ?_
  rw [CodePoint.digit?_of_isBasicDigit (h c hc)]
  rfl

theorem decimal_ofChars {cs : List Char} (h : ∀ c ∈ cs, c.isDigit = true) :
    (ofChars cs).decimal = Nat.ofDigitChars 10 cs 0 := by
  have hdigits : ∀ c ∈ ofChars cs, c.isBasicDigit = true :=
    List.forall_mem_map.2 fun c hc => CodePoint.isBasicDigit_ofChar (h c hc)
  rw [decimal_eq_foldl hdigits, ofChars, List.foldl_map, Nat.ofDigitChars_eq_foldl]
  rfl

/-- A number is spelled by what is written for it. -/
theorem decimal_ofNat (n : Nat) : (ofNat n).decimal = n := by
  rw [ofNat, decimal_ofChars fun c => Nat.isDigit_of_mem_toDigits (by decide) (by decide)]
  exact Nat.ofDigitChars_ten_toDigits

end Text

namespace Literal

/-! ## Numbers that are read -/

/-- A code point is a digit in a base. -/
def IsDigit (base : Nat) (c : CodePoint) : Prop :=
  ∃ d, digitValue? c = some d ∧ d < base

/-- The value of a digit. -/
def valueOf (c : CodePoint) : Nat :=
  (digitValue? c).getD 0

theorem digitValue?_of_isBasicDigit {c : CodePoint} (h : c.isBasicDigit = true) :
    digitValue? c = some (c.val - 0x30) :=
  CodePoint.forall_basicLatin
    (P := fun c => c.isBasicDigit = true → digitValue? c = some (c.val - 0x30)) (by decide)
    (CodePoint.val_lt_of_isBasicDigit h) h

theorem isDigit_ten {c : CodePoint} (h : c.isBasicDigit = true) : IsDigit 10 c := by
  refine ⟨_, digitValue?_of_isBasicDigit h, ?_⟩
  have hrange := CodePoint.isBasicDigit_iff.1 h
  omega

theorem isPadding_of_isDigit {base : Nat} {c : CodePoint} (h : IsDigit base c) :
    isPadding c = false := by
  obtain ⟨d, hd, -⟩ := h
  have hletter : ∀ {c : CodePoint}, 0x41 ≤ c.val → c.val < 0x80 → c.isBlank = false := by
    intro c hmin hmax
    exact CodePoint.forall_basicLatin (P := fun c => 0x41 ≤ c.val → c.isBlank = false) (by decide)
      hmax hmin
  have hblank : c.isBlank = false := by
    rw [digitValue?] at hd
    split at hd
    · next hrange =>
      rw [Bool.and_eq_true, decide_eq_true_eq, decide_eq_true_eq] at hrange
      exact hletter hrange.1 (by omega)
    · split at hd
      · next hrange =>
        rw [Bool.and_eq_true, decide_eq_true_eq, decide_eq_true_eq] at hrange
        exact hletter (by omega) (by omega)
      · refine CodePoint.isBlank_of_isDigit ?_
        rw [CodePoint.isDigit, hd]
        rfl
  rw [isPadding, hblank, Bool.false_and]

theorem IsDigit.ne {base : Nat} {c mark : CodePoint} (h : IsDigit base c)
    (hmark : ∀ d ∈ digitValue? mark, base ≤ d) : c ≠ mark := by
  rintro rfl
  obtain ⟨d, hd, hlt⟩ := h
  exact absurd (hmark d hd) (Nat.not_le.2 hlt)

theorem IsDigit.ne_mark {base : Nat} {c mark : CodePoint} (h : IsDigit base c)
    (hmark : digitValue? mark = none) : c ≠ mark :=
  h.ne fun d hd => by rw [hmark] at hd; cases hd

/-- A text without padding at its ends is left as it is. -/
theorem unpad_of_ends {t : Text} (hhead : ∀ c ∈ t.head?, isPadding c = false)
    (hlast : ∀ c ∈ t.getLast?, isPadding c = false) : unpad t = t := by
  have hend : t.reverse.dropWhile isPadding = t.reverse :=
    Text.dropWhile_eq_self fun c hc => hlast c (List.head?_reverse ▸ hc)
  rw [unpad, Text.dropWhile_eq_self hhead, hend, List.reverse_reverse]

theorem cutSign_of_head {t : Text}
    (h : ∀ c ∈ t.head?, c ≠ CodePoint.ofChar '-' ∧ c ≠ CodePoint.ofChar '+') :
    cutSign t = (false, t) := by
  cases t with
  | nil => rfl
  | cons c rest => rw [cutSign, if_neg (h c rfl).1, if_neg (h c rfl).2]

section Digits

variable {base : Nat} {t : Text}

/-- The mark of a base is not made of digits. -/
theorem cutMark_of_digits (h : ∀ c ∈ t, IsDigit base c) : cutMark base t = t := by
  match t with
  | [] => rfl
  | [_] => rfl
  | z :: m :: rest =>
    have hm : IsDigit base m := h m (List.mem_cons_of_mem _ List.mem_cons_self)
    have hnone : ((base = 2 && (m = CodePoint.ofChar 'b' || m = CodePoint.ofChar 'B')) ||
        (base = 8 && (m = CodePoint.ofChar 'o' || m = CodePoint.ofChar 'O')) ||
        (base = 16 && (m = CodePoint.ofChar 'x' || m = CodePoint.ofChar 'X'))) = false := by
      simp only [Bool.or_eq_false_iff, Bool.and_eq_false_iff, decide_eq_false_iff_not]
      refine ⟨⟨?_, ?_⟩, ?_⟩ <;> refine or_iff_not_imp_left.2 fun hbase => ?_ <;>
        rw [not_not] at hbase <;> subst hbase <;> exact ⟨hm.ne (by decide), hm.ne (by decide)⟩
    simp only [cutMark, hnone, Bool.and_false, Bool.false_eq_true, if_false]

theorem digitValues?_of_digits (hne : t ≠ []) (h : ∀ c ∈ t, IsDigit base c) :
    digitValues? base t = some (t.map valueOf) := by
  induction t with
  | nil => exact absurd rfl hne
  | cons c rest ih =>
    obtain ⟨d, hd, hlt⟩ := h c List.mem_cons_self
    have hvalue : valueOf c = d := by rw [valueOf, hd]; rfl
    rw [digitValues?, hd]
    simp only [if_neg (Nat.not_le.2 hlt)]
    cases rest with
    | nil => rw [← hvalue]; rfl
    | cons u rest' =>
      have hline : u ≠ CodePoint.ofChar '_' :=
        (h u (List.mem_cons_of_mem _ List.mem_cons_self)).ne_mark (by decide)
      simp only [if_neg hline]
      rw [ih (List.cons_ne_nil _ _) fun d hd => h d (List.mem_cons_of_mem _ hd), ← hvalue]
      rfl

/-- Digits are read as the number that they spell, unless they are decimal and too many. -/
theorem readInt_of_isDigit (hne : t ≠ []) (h : ∀ c ∈ t, IsDigit base c) :
    readInt base t = if base = 10 ∧ maxDigits < t.length then .error (.tooManyDigits t.length)
      else .ok (ofDigits base (t.map valueOf)) := by
  have hunpad : unpad t = t :=
    unpad_of_ends (fun c hc => isPadding_of_isDigit (h c (List.mem_of_mem_head? hc)))
      fun c hc => isPadding_of_isDigit (h c (List.mem_of_mem_getLast? hc))
  have hsign : cutSign t = (false, t) := cutSign_of_head fun c hc =>
    have hdigit := h c (List.mem_of_mem_head? hc)
    ⟨hdigit.ne_mark (by decide), hdigit.ne_mark (by decide)⟩
  simp only [readInt, hunpad, hsign, cutMark_of_digits h, digitValues?_of_digits hne h,
    List.length_map, Bool.and_eq_true, decide_eq_true_eq, Bool.false_eq_true, if_false]

end Digits

/-- Digits of basic Latin, unless there are too many, are read as the number that they spell. -/
theorem readInt_of_digits {t : Text} (hne : t ≠ []) (h : ∀ c ∈ t, c.isBasicDigit = true)
    (hlength : t.length ≤ maxDigits) : readInt 10 t = .ok t.decimal := by
  have hvalue : ofDigits 10 (t.map valueOf) = t.decimal := by
    rw [Text.decimal_eq_foldl h, ofDigits, List.foldl_map]
    refine List.foldl_ext _ _ _ fun n c hc => ?_
    rw [valueOf, digitValue?_of_isBasicDigit (h c hc)]
    rfl
  rw [readInt_of_isDigit hne fun c hc => isDigit_ten (h c hc),
    if_neg fun hmany => Nat.not_lt.2 hlength hmany.2, hvalue]

end Literal

end SiteRules
