import SiteRules.Proofs.Number.Literal
import SiteRules.Proofs.Yaml.Scalar

/-!
# Integers by spelling

A scalar that spells an integer is read unless only underscores stand behind the mark of a base, or
there are too many digits (`Scalar.readInteger_of_isInteger`).
-/

namespace SiteRules.Yaml

/-! ## Signs -/

namespace Tag

theorem eq_of_unsigned (t : Text) :
    t = unsigned t ∨ t = CodePoint.ofChar '-' :: unsigned t ∨
      t = CodePoint.ofChar '+' :: unsigned t := by
  cases t with
  | nil => exact .inl rfl
  | cons c rest =>
    rw [unsigned]
    split
    · next hsign =>
      rw [Bool.or_eq_true, decide_eq_true_eq, decide_eq_true_eq] at hsign
      rcases hsign with rfl | rfl
      · exact .inr (.inl rfl)
      · exact .inr (.inr rfl)
    · exact .inl rfl

/-- Without a sign, a text begins as before or a sign stood in front of it. -/
theorem forall_head_of_unsigned {t : Text} {mark : CodePoint} (hmark : unsigned [mark] = [mark])
    (h : ∀ c ∈ (unsigned t).head?, c ≠ mark) : ∀ c ∈ t.head?, c ≠ mark := by
  cases t with
  | nil => exact fun c hc => by cases hc
  | cons c rest =>
    rintro _ ⟨rfl⟩ rfl
    have hself : unsigned (c :: rest) = c :: rest := by
      rw [unsigned] at hmark ⊢
      split at hmark
      · cases hmark
      · next hsign => rw [if_neg hsign]
    rw [hself] at h
    exact h c rfl rfl

end Tag

/-! ## Underscores -/

namespace Scalar

section Underscores

variable {t rest : Text} {c : CodePoint}

theorem mem_dropUnderscores : c ∈ dropUnderscores t ↔ c ∈ t ∧ c ≠ CodePoint.ofChar '_' := by
  simp [dropUnderscores]

theorem dropUnderscores_cons (h : c ≠ CodePoint.ofChar '_') (rest : Text) :
    dropUnderscores (c :: rest) = c :: dropUnderscores rest :=
  List.filter_cons_of_pos (decide_eq_true h)

theorem dropUnderscores_append (t rest : Text) :
    dropUnderscores (t ++ rest) = dropUnderscores t ++ dropUnderscores rest :=
  List.filter_append t rest

theorem dropUnderscores_eq_self (h : CodePoint.ofChar '_' ∉ t) : dropUnderscores t = t :=
  List.filter_eq_self.2 fun _ hc => decide_eq_true fun heq => h (heq ▸ hc)

theorem splitAt_dropUnderscores (t : Text) :
    (dropUnderscores t).splitAt ':' = (t.splitAt ':').map dropUnderscores :=
  Text.splitAt_filter (by decide) t

theorem unsigned_dropUnderscores (h : ∀ c ∈ t.head?, c ≠ CodePoint.ofChar '_') :
    Tag.unsigned (dropUnderscores t) = dropUnderscores (Tag.unsigned t) := by
  cases t with
  | nil => rfl
  | cons c rest =>
    have hc := h c rfl
    rw [dropUnderscores_cons hc, Tag.unsigned, Tag.unsigned]
    split
    · rfl
    · rw [dropUnderscores_cons hc]

/-- What is left of digits and underscores are digits. -/
theorem isBasicDigit_of_mem_dropUnderscores (h : ∀ c ∈ t, Tag.isDigitPart c = true) :
    ∀ c ∈ dropUnderscores t, c.isBasicDigit = true := by
  intro c hc
  obtain ⟨hmem, hline⟩ := mem_dropUnderscores.1 hc
  rcases Bool.or_eq_true_iff.1 (h c hmem) with hdigit | heq
  · exact hdigit
  · exact absurd (of_decide_eq_true heq) hline

end Underscores

/-- A run that begins with a digit and goes on with digits and underscores. -/
theorem isDigits_cases {t : Text} (h : Tag.isDigits t = true) :
    (∀ c ∈ t, Tag.isDigitPart c = true) ∧ dropUnderscores t ≠ [] ∧
      ∀ c ∈ t.head?, c.isBasicDigit = true := by
  cases t with
  | nil => cases h
  | cons c rest =>
    rw [Tag.isDigits, Bool.and_eq_true, List.all_eq_true] at h
    have hline : c ≠ CodePoint.ofChar '_' := CodePoint.ne_of_kind h.1 rfl
    refine ⟨List.forall_mem_cons.2 ⟨?_, h.2⟩, ?_, ?_⟩
    · rw [Tag.isDigitPart, h.1, Bool.true_or]
    · rw [dropUnderscores_cons hline]
      exact List.cons_ne_nil _ _
    · rintro _ ⟨rfl⟩
      exact h.1

theorem isDigits_of_isSixtieth {t : Text} (h : Tag.isSixtieth t = true) :
    Tag.isDigits t = true ∧ t.length ≤ 2 ∧ CodePoint.ofChar '_' ∉ t := by
  unfold Tag.isSixtieth at h
  split at h
  · next a =>
    refine ⟨?_, by simp, ?_⟩
    · rw [Tag.isDigits, h]
      rfl
    · rw [List.mem_singleton]
      exact (CodePoint.ne_of_kind h rfl).symm
  · next a b =>
    simp only [Bool.and_eq_true] at h
    refine ⟨?_, Nat.le_refl 2, ?_⟩
    · simp [Tag.isDigits, Tag.isDigitPart, h.1.1, h.2]
    · simp only [List.mem_cons, List.not_mem_nil, or_false, not_or]
      exact ⟨(CodePoint.ne_of_kind h.1.1 rfl).symm, (CodePoint.ne_of_kind h.2 rfl).symm⟩
  · cases h

theorem sixtieths?_eq_some {t first : Text} (h : Tag.sixtieths? t = some first) :
    ∃ others, t.splitAt ':' = first :: others ∧ others ≠ [] ∧
      ∀ part ∈ others, Tag.isSixtieth part = true := by
  unfold Tag.sixtieths? at h
  split at h
  · next second others hsplit =>
    split at h
    · next hall =>
      cases h
      exact ⟨second :: others, hsplit, List.cons_ne_nil _ _, List.all_eq_true.1 hall⟩
    · cases h
  · cases h

/-! ## Integers -/

/-- How a text without sign that spells an integer has no value. -/
inductive IntegerLapse (t : Text) : Fault → Prop
  /-- Only underscores stand behind the mark of a base. -/
  | bare {base : Nat} {mark : Char} {lines : Text} (hmark : (base, mark) ∈ [(2, 'b'), (16, 'x')])
      (ht : t = CodePoint.ofChar '0' :: CodePoint.ofChar mark :: lines)
      (hlines : ∀ c ∈ lines, c = CodePoint.ofChar '_') :
      IntegerLapse t (.number (.notInteger base []))
  /-- The integer, or the first of its parts in sixtieths, has too many digits. -/
  | digits {first : Text} {others : List Text} (hsplit : t.splitAt ':' = first :: others)
      (hmany : Literal.maxDigits < (dropUnderscores first).length) :
      IntegerLapse t (.number (.tooManyDigits (dropUnderscores first).length))

theorem integer_of_digits {base : Nat} {t : Text} (hne : t ≠ [])
    (h : ∀ c ∈ t, Literal.IsDigit base c) :
    EndsIn (fun fault => base = 10 ∧ Literal.maxDigits < t.length ∧
      fault = .number (.tooManyDigits t.length)) (fun _ => True) (integer base t) := by
  rw [integer, Literal.readInt_of_isDigit hne h]
  by_cases hmany : base = 10 ∧ Literal.maxDigits < t.length
  · rw [if_pos hmany]
    exact ⟨hmany.1, hmany.2, rfl⟩
  · rw [if_neg hmany]
    exact trivial

/-- Behind the mark of a base, digits are read, and there may be none. -/
theorem integer_marked {base : Nat} {mark : Char} {digits : Text}
    (hmark : (base, mark) ∈ [(2, 'b'), (16, 'x')])
    (h : ∀ c ∈ digits, Literal.IsDigit base c ∨ c = CodePoint.ofChar '_') :
    EndsIn (IntegerLapse (CodePoint.ofChar '0' :: CodePoint.ofChar mark :: digits))
      (fun _ => True) (integer base (dropUnderscores digits)) := by
  by_cases hempty : dropUnderscores digits = []
  · have hlines : ∀ c ∈ digits, c = CodePoint.ofChar '_' := by
      intro c hc
      by_contra hline
      have hmem := mem_dropUnderscores.2 ⟨hc, hline⟩
      rw [hempty] at hmem
      cases hmem
    rw [hempty]
    exact .bare hmark rfl hlines
  · have hdigits : ∀ c ∈ dropUnderscores digits, Literal.IsDigit base c := by
      intro c hc
      obtain ⟨hmem, hline⟩ := mem_dropUnderscores.1 hc
      exact (h c hmem).resolve_right hline
    -- the number of digits counts in base ten only, which has no mark
    refine (integer_of_digits hempty hdigits).weaken ?_
    rintro _ ⟨rfl, -⟩
    simp at hmark

theorem isDigit_of_isHexDigit {c : CodePoint} (h : c.isHexDigit = true) :
    Literal.IsDigit 16 c := by
  have hlatin : c.val < 0x80 := by
    simp only [CodePoint.isHexDigit, CodePoint.isBasicDigit, Bool.or_eq_true, Bool.and_eq_true,
      decide_eq_true_eq] at h
    omega
  have hvalue := CodePoint.forall_basicLatin
    (P := fun c => c.isHexDigit = true → (Literal.digitValue? c).any (· < 16) = true) (by decide)
    hlatin h
  obtain ⟨d, hd, hlt⟩ := (Option.any_eq_true _ _).1 hvalue
  exact ⟨d, hd, of_decide_eq_true hlt⟩

theorem isDigit_of_isBasicDigit {base : Nat} {c : CodePoint} (h : c.isBasicDigit = true)
    (hlt : c.val - 0x30 < base) : Literal.IsDigit base c :=
  ⟨_, Literal.digitValue?_of_isBasicDigit h, hlt⟩

/-- Octal digits behind a zero are read as an octal number: the first of them marks no base. -/
theorem readUnsigned_octal {digits : Text} (h : ∀ c ∈ digits, Literal.IsDigit 8 c) :
    EndsIn (fun _ => False) (fun _ => True) (readUnsigned (CodePoint.ofChar '0' :: digits)) := by
  unfold readUnsigned
  simp only [if_true]
  cases digits with
  | nil => exact trivial
  | cons first others =>
    have hfirst := h first List.mem_cons_self
    have hnotB : first ≠ CodePoint.ofChar 'b' := hfirst.ne (by decide)
    have hnotX : first ≠ CodePoint.ofChar 'x' := hfirst.ne (by decide)
    dsimp only
    rw [if_neg hnotB, if_neg hnotX]
    refine (integer_of_digits (List.cons_ne_nil _ _) (List.forall_mem_cons.2
      ⟨isDigit_of_isBasicDigit rfl (by decide), h⟩)).weaken ?_
    rintro _ ⟨hbase, -⟩
    cases hbase

/-- A zero and what follows it are read in the base that is marked, or else as an octal number. -/
theorem readUnsigned_zero {rest : Text}
    (h : Tag.isUnsignedInteger (CodePoint.ofChar '0' :: rest) = true) :
    EndsIn (IntegerLapse (CodePoint.ofChar '0' :: rest)) (fun _ => True)
      (readUnsigned (CodePoint.ofChar '0' :: dropUnderscores rest)) := by
  cases rest with
  | nil => exact trivial
  | cons m digits =>
    simp only [Tag.isUnsignedInteger, if_true] at h
    by_cases hb : m = CodePoint.ofChar 'b'
    · subst hb
      rw [dropUnderscores_cons (by decide)]
      refine integer_marked (by decide) fun c hc => ?_
      rw [if_pos rfl, Bool.and_eq_true, List.all_eq_true] at h
      have hdigit := h.2 c hc
      simp only [Bool.or_eq_true, decide_eq_true_eq] at hdigit
      rcases hdigit with (rfl | rfl) | rfl
      · exact .inl (isDigit_of_isBasicDigit rfl (by decide))
      · exact .inl (isDigit_of_isBasicDigit rfl (by decide))
      · exact .inr rfl
    · rw [if_neg hb] at h
      by_cases hx : m = CodePoint.ofChar 'x'
      · subst hx
        rw [dropUnderscores_cons (by decide)]
        refine integer_marked (by decide) fun c hc => ?_
        rw [if_pos rfl, Bool.and_eq_true, List.all_eq_true] at h
        have hdigit := h.2 c hc
        rw [Bool.or_eq_true, decide_eq_true_eq] at hdigit
        exact hdigit.imp_left isDigit_of_isHexDigit
      · -- what is left of an octal number are octal digits
        rw [if_neg hx, List.all_eq_true] at h
        have hoctal : ∀ c ∈ dropUnderscores (m :: digits), Literal.IsDigit 8 c := by
          intro c hc
          obtain ⟨hmem, hline⟩ := mem_dropUnderscores.1 hc
          have hdigit := h c hmem
          simp only [Bool.or_eq_true, Bool.and_eq_true, decide_eq_true_eq] at hdigit
          obtain ⟨hdigit, hle⟩ := hdigit.resolve_right hline
          exact isDigit_of_isBasicDigit hdigit (by omega)
        exact (readUnsigned_octal hoctal).weaken fun _ h => h.elim

/-- The parts of an integer in sixtieths; one that is not in sixtieths has one part. -/
theorem parts_of_positive {t : Text}
    (h : Tag.isPositive t = true ∨ (Tag.sixtieths? t).any Tag.isPositive = true) :
    ∃ first others, t.splitAt ':' = first :: others ∧ Tag.isDigits first = true ∧
      ∀ part ∈ others, Tag.isSixtieth part = true := by
  have hpositive : ∀ {part : Text}, Tag.isPositive part = true → Tag.isDigits part = true :=
    fun hpart => (Bool.and_eq_true_iff.1 hpart).1
  rcases h with h | h
  · have hcolon : CodePoint.ofChar ':' ∉ t :=
      Text.notMem_of_kind (isDigits_cases (hpositive h)).1 rfl
    exact ⟨t, [], Text.splitAt_eq_self hcolon, hpositive h, List.forall_mem_nil _⟩
  · obtain ⟨first, hfirst, hdigits⟩ := (Option.any_eq_true _ _).1 h
    obtain ⟨others, hsplit, -, hall⟩ := sixtieths?_eq_some hfirst
    exact ⟨first, others, hsplit, hpositive hdigits, hall⟩

/-- A text begins as its first part does. -/
theorem isBasicDigit_head_of_splitAt {z : CodePoint} {rest first : Text} {others : List Text}
    (hsplit : Text.splitAt ':' (z :: rest) = first :: others) (h : Tag.isDigits first = true) :
    z.isBasicDigit = true := by
  by_cases hz : z = CodePoint.ofChar ':'
  · rw [Text.splitAt, if_pos hz, List.cons.injEq] at hsplit
    rw [← hsplit.1] at h
    cases h
  · obtain ⟨piece, pieces, -, heq⟩ := Text.splitAt_cons_of_ne hz rest
    rw [heq, List.cons.injEq] at hsplit
    exact (isDigits_cases h).2.2 z (by rw [← hsplit.1]; rfl)

theorem integer_of_isDigits {part : Text} (h : Tag.isDigits part = true) :
    EndsIn (fun fault => Literal.maxDigits < (dropUnderscores part).length ∧
      fault = .number (.tooManyDigits (dropUnderscores part).length)) (fun _ => True)
      (integer 10 (dropUnderscores part)) := by
  obtain ⟨hall, hne, -⟩ := isDigits_cases h
  exact (integer_of_digits hne fun c hc =>
    Literal.isDigit_ten (isBasicDigit_of_mem_dropUnderscores hall c hc)).weaken fun _ h => h.2

/-- Only the first part of an integer can have too many digits. -/
theorem integer_of_mem_splitAt {t first : Text} {others : List Text}
    (hsplit : t.splitAt ':' = first :: others) (hfirst : Tag.isDigits first = true)
    (hothers : ∀ part ∈ others, Tag.isSixtieth part = true) :
    ∀ part ∈ t.splitAt ':',
      EndsIn (IntegerLapse t) (fun _ => True) (integer 10 (dropUnderscores part)) := by
  rw [hsplit, List.forall_mem_cons]
  constructor
  · refine (integer_of_isDigits hfirst).weaken ?_
    rintro _ ⟨hmany, rfl⟩
    exact .digits hsplit hmany
  · intro part hpart
    obtain ⟨hdigits, hshort, hline⟩ := isDigits_of_isSixtieth (hothers part hpart)
    refine (integer_of_isDigits hdigits).weaken ?_
    rintro _ ⟨hmany, -⟩
    rw [dropUnderscores_eq_self hline, Literal.maxDigits] at hmany
    omega

theorem isBasicDigit_head_of_isUnsignedInteger {z : CodePoint} {rest : Text}
    (h : Tag.isUnsignedInteger (z :: rest) = true) : z.isBasicDigit = true := by
  by_cases hzero : z = CodePoint.ofChar '0'
  · rw [hzero]
    rfl
  · simp only [Tag.isUnsignedInteger, if_neg hzero] at h
    obtain ⟨first, others, hsplit, hfirst, -⟩ := parts_of_positive (Bool.or_eq_true_iff.1 h)
    exact isBasicDigit_head_of_splitAt hsplit hfirst

/-- A text without sign that spells an integer is read, or one of the two things is amiss. -/
theorem readUnsigned_of_isUnsignedInteger {t : Text} (h : Tag.isUnsignedInteger t = true) :
    EndsIn (IntegerLapse t) (fun _ => True) (readUnsigned (dropUnderscores t)) := by
  cases t with
  | nil => cases h
  | cons z rest =>
    have hcons := dropUnderscores_cons
      (CodePoint.ne_of_kind (isBasicDigit_head_of_isUnsignedInteger h) rfl) rest
    by_cases hzero : z = CodePoint.ofChar '0'
    · subst hzero
      rw [hcons]
      exact readUnsigned_zero h
    · simp only [Tag.isUnsignedInteger, if_neg hzero] at h
      obtain ⟨first, others, hsplit, hfirst, hothers⟩ := parts_of_positive (Bool.or_eq_true_iff.1 h)
      have hread := integer_of_mem_splitAt hsplit hfirst hothers
      rw [hcons]
      unfold readUnsigned
      simp only [if_neg hzero]
      rw [← hcons]
      refine .ite (fun _ => ?_) fun hcolon => ?_
      · rw [readSixtieths, splitAt_dropUnderscores]
        exact (EndsIn.mapM (List.forall_mem_map.2 hread)).bind fun _ _ => trivial
      · have hwhole : CodePoint.ofChar ':' ∉ z :: rest := by
          rw [Text.any_eq_true_iff, mem_dropUnderscores, not_and_not_right] at hcolon
          intro hmem
          exact absurd (hcolon hmem) (by decide)
        rw [Text.splitAt_eq_self hwhole, List.forall_mem_singleton] at hread
        exact hread

/-- A text that spells an integer is read, or what follows its sign has no value. -/
theorem readInteger_of_isInteger {content : Text} (h : Tag.isInteger content = true) :
    EndsIn (IntegerLapse (Tag.unsigned content)) (fun _ => True) (readInteger content) := by
  rw [Tag.isInteger] at h
  have hread := readUnsigned_of_isUnsignedInteger h
  cases hunsigned : Tag.unsigned content with
  | nil =>
    rw [hunsigned] at h
    cases h
  | cons z rest =>
    rw [hunsigned] at h
    have hline : z ≠ CodePoint.ofChar '_' :=
      CodePoint.ne_of_kind (isBasicDigit_head_of_isUnsignedInteger h) rfl
    have hhead : ∀ c ∈ content.head?, c ≠ CodePoint.ofChar '_' := by
      refine Tag.forall_head_of_unsigned (by decide) ?_
      rw [hunsigned]
      rintro _ ⟨rfl⟩
      exact hline
    have hdrop := unsigned_dropUnderscores hhead
    rw [← hunsigned]
    -- underscores go before the sign is cut off, and none stands in front of the sign
    refine EndsIn.bind (V := fun signed => signed.2 = dropUnderscores (Tag.unsigned content))
      ((cutSign_spec _).mono ?_ ?_) fun signed hsigned => ?_
    · rintro _ ⟨-, hempty⟩
      rw [hempty, hunsigned, dropUnderscores_cons hline] at hdrop
      cases hdrop
    · intro signed hsigned
      rw [hsigned, hdrop]
    · rw [← hsigned] at hread
      exact hread.bind fun _ _ => trivial

end Scalar

end SiteRules.Yaml
