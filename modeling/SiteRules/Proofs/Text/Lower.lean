import SiteRules.Proofs.Text.CodePoint
import SiteRules.Text.Lower
import SiteRules.Text.Separator

/-!
# Theory of lower case

Putting a text into lower case a second time changes nothing (`Text.lower_lower`). For single code
points this is a fact about the table: no run of capitals holds a lower-case form
(`CodePoint.caseRuns_isClear`). A text takes it over because its one rule that looks at the context,
the one for the capital sigma, gives forms that are in lower case too.
-/

namespace SiteRules

namespace CodePoint

/-- A code point that is its own lower-case form. -/
def IsLower (c : CodePoint) : Prop :=
  c.lower = [c]

instance (c : CodePoint) : Decidable c.IsLower :=
  inferInstanceAs (Decidable (c.lower = [c]))

/-! ## The table -/

theorem CaseRun.lower?_eq_some_iff {run : CaseRun} {n m : Nat} :
    run.lower? n = some m ↔ run.first ≤ n ∧ n ≤ run.last ∧ (n - run.first) % run.step = 0 ∧
      m = run.target + (n - run.first) := by
  simp only [lower?, Bool.and_eq_true, decide_eq_true_eq, beq_iff_eq]
  constructor
  · intro h
    split at h
    · next hrun => exact ⟨hrun.1.1, hrun.1.2, hrun.2, (Option.some.inj h).symm⟩
    · cases h
  · rintro ⟨hfirst, hlast, hstep, rfl⟩
    rw [if_pos ⟨⟨hfirst, hlast⟩, hstep⟩]

/-- Whether the forms that a run gives lie outside a range. -/
def CaseRun.avoids (run : CaseRun) (range : Nat × Nat) : Bool :=
  Nat.blt (run.target + (run.last - run.first)) range.1 || Nat.blt range.2 run.target

/-- Whether no form that a run gives is a capital of the other one: the two lie apart, or they take
turns. -/
def CaseRun.apart (run other : CaseRun) : Bool :=
  run.avoids (other.first, other.last) ||
    ((run.step == 2 || run.first == run.last) && other.step == 2 &&
      (run.target + other.first) % 2 == 1)

theorem CaseRun.not_mem_of_avoids {run : CaseRun} {range : Nat × Nat} {n m : Nat}
    (h : run.avoids range = true) (hm : run.lower? n = some m) : m < range.1 ∨ range.2 < m := by
  obtain ⟨hfirst, hlast, -, rfl⟩ := lower?_eq_some_iff.1 hm
  simp only [avoids, Bool.or_eq_true, Nat.blt_eq] at h
  omega

theorem CaseRun.lower?_eq_none_of_apart {run other : CaseRun} {n m : Nat}
    (h : run.apart other = true) (hm : run.lower? n = some m) : other.lower? m = none := by
  rw [Option.eq_none_iff_forall_ne_some]
  intro k hk
  obtain ⟨hfirst, hlast, hstep, -⟩ := lower?_eq_some_iff.1 hk
  simp only [apart, Bool.or_eq_true, Bool.and_eq_true, beq_iff_eq] at h
  rcases h with h | ⟨⟨hturns, htwo⟩, hodd⟩
  · have hout := not_mem_of_avoids h hm
    simp only at hout
    omega
  · obtain ⟨hfirst', hlast', hstep', rfl⟩ := lower?_eq_some_iff.1 hm
    rw [htwo] at hstep
    rcases hturns with htwo' | hsingle
    · rw [htwo'] at hstep'
      omega
    · omega

/-- Ranges in which the runs give no form: basic Latin but for one letter, the dotted capital I, the
blanks, and what hides a separator. -/
def formless : List (Nat × Nat) :=
  [(0x0, 0x6a), (0x6c, 0x7f), (0x130, 0x130)] ++ blankRanges ++
    compatibilitySeparators.map fun n => (n, n)

/-- What each run of the table is checked for: its forms are no capitals of any run, lie in no range
without forms, and are code points. -/
def CaseRun.isClear (run : CaseRun) : Bool :=
  caseRuns.all run.apart && formless.all run.avoids &&
    Nat.blt (run.target + (run.last - run.first)) 0x110000

theorem caseRuns_isClear : caseRuns.all CaseRun.isClear = true := by
  decide +kernel

/-- A form from the table is a code point but no capital of the table, and lies in no range without
forms. -/
theorem lower?_of_mem_caseRuns {run : CaseRun} (hrun : run ∈ caseRuns) {n m : Nat}
    (hm : run.lower? n = some m) :
    (caseRuns.findSome? fun other => other.lower? m) = none ∧ m < 0x110000 ∧
      ∀ range ∈ formless, m < range.1 ∨ range.2 < m := by
  have hclear := List.all_eq_true.1 caseRuns_isClear run hrun
  simp only [CaseRun.isClear, Bool.and_eq_true, List.all_eq_true, Nat.blt_eq] at hclear
  obtain ⟨⟨hapart, havoids⟩, hend⟩ := hclear
  refine ⟨?_, ?_, fun range hrange => CaseRun.not_mem_of_avoids (havoids range hrange) hm⟩
  · rw [List.findSome?_eq_none_iff]
    exact fun other hother => CaseRun.lower?_eq_none_of_apart (hapart other hother) hm
  · obtain ⟨-, hlast, -, rfl⟩ := CaseRun.lower?_eq_some_iff.1 hm
    omega

/-! ## Code points -/

theorem lower_of_past_basicLatin {c : CodePoint} (h : 0x80 ≤ c.val) (hdotted : c.val ≠ 0x130) :
    c.lower = match caseRuns.findSome? fun run => run.lower? c.val with
      | some n => [ofNat n]
      | none => [c] := by
  have hcapital : (decide (0x41 ≤ c.val) && decide (c.val ≤ 0x5a)) = false := by
    simp only [Bool.and_eq_false_iff, decide_eq_false_iff_not]
    omega
  have hlatin : c.isBasicLatin = false := by
    simp only [isBasicLatin, decide_eq_false_iff_not]
    omega
  rw [lower, hcapital, hlatin, if_neg hdotted]
  rfl

/-- The lower-case form of a code point past basic Latin is the code point itself, a form of the
table, or that of the dotted capital I. -/
theorem lower_cases {c : CodePoint} (h : 0x80 ≤ c.val) :
    c.lower = [c] ∨
      (∃ run ∈ caseRuns, ∃ d : CodePoint, run.lower? c.val = some d.val ∧ c.lower = [d]) ∨
      c.lower = [ofNat 0x69, ofNat 0x307] := by
  by_cases hdotted : c.val = 0x130
  · right
    right
    obtain rfl : c = ofNat 0x130 := CodePoint.ext hdotted
    decide
  · rw [lower_of_past_basicLatin h hdotted]
    cases hfind : caseRuns.findSome? fun run => run.lower? c.val with
    | none => exact .inl rfl
    | some m =>
      obtain ⟨run, hrun, hm⟩ := List.exists_of_findSome?_eq_some hfind
      have hlt := (lower?_of_mem_caseRuns hrun hm).2.1
      refine .inr (.inl ⟨run, hrun, ⟨m, hlt⟩, hm, ?_⟩)
      show [ofNat m] = [⟨m, hlt⟩]
      rw [ofNat, dif_pos hlt]

theorem isLower_of_mem_caseRuns {run : CaseRun} (hrun : run ∈ caseRuns) {n : Nat} {d : CodePoint}
    (hd : run.lower? n = some d.val) : d.IsLower := by
  obtain ⟨hnone, -, hformless⟩ := lower?_of_mem_caseRuns hrun hd
  by_cases hlatin : d.val < 0x80
  · -- the one form in basic Latin
    have hk : d.val = 0x6b := by
      have hbelow := hformless (0x0, 0x6a) (by decide)
      have habove := hformless (0x6c, 0x7f) (by decide)
      simp only at hbelow habove
      omega
    obtain rfl : d = ofNat 0x6b := CodePoint.ext hk
    decide
  · have hdotted : d.val ≠ 0x130 := by
      have hout := hformless (0x130, 0x130) (by decide)
      simp only at hout
      omega
    rw [IsLower, lower_of_past_basicLatin (Nat.le_of_not_lt hlatin) hdotted, hnone]

/-- A lower-case form is in lower case. -/
theorem isLower_of_mem_lower {c d : CodePoint} (h : d ∈ c.lower) : d.IsLower := by
  by_cases hlatin : c.val < 0x80
  · have hall : ∀ d ∈ c.lower, d.IsLower :=
      forall_basicLatin (P := fun c => ∀ d ∈ c.lower, d.IsLower) (by decide) hlatin
    exact hall d h
  · rcases lower_cases (Nat.le_of_not_lt hlatin) with hself | ⟨run, hrun, e, he, hform⟩ | hdotted
    · rw [hself, List.mem_singleton] at h
      rw [h, IsLower, hself]
    · rw [hform, List.mem_singleton] at h
      rw [h]
      exact isLower_of_mem_caseRuns hrun he
    · rw [hdotted, List.mem_cons, List.mem_singleton] at h
      rcases h with rfl | rfl <;> decide

/-- What the form of a code point past basic Latin can be: the code point itself, one of two letters
of basic Latin, or one past basic Latin that is no blank and hides no separator. -/
theorem mem_lower_of_past_basicLatin {c d : CodePoint} (hc : 0x80 ≤ c.val) (h : d ∈ c.lower) :
    d = c ∨ d.val = 0x69 ∨ d.val = 0x6b ∨
      (0x80 ≤ d.val ∧ ∀ range ∈ formless, d.val < range.1 ∨ range.2 < d.val) := by
  rcases lower_cases hc with hself | ⟨run, hrun, e, he, hform⟩ | hdotted
  · rw [hself, List.mem_singleton] at h
    exact .inl h
  · rw [hform, List.mem_singleton] at h
    rw [h]
    obtain ⟨-, -, hformless⟩ := lower?_of_mem_caseRuns hrun he
    have hbelow := hformless (0x0, 0x6a) (by decide)
    have habove := hformless (0x6c, 0x7f) (by decide)
    simp only at hbelow habove
    by_cases hlatin : e.val < 0x80
    · right
      right
      left
      omega
    · exact .inr (.inr (.inr ⟨Nat.le_of_not_lt hlatin, hformless⟩))
  · rw [hdotted, List.mem_cons, List.mem_singleton] at h
    right
    rcases h with rfl | rfl
    · exact .inl rfl
    · exact .inr (.inr (by decide))

/-- What a lower-case form can be: the code point itself, a small letter of basic Latin, or a code
point past basic Latin that is no blank and hides no separator. -/
theorem mem_lower_cases {c d : CodePoint} (h : d ∈ c.lower) :
    d = c ∨ (0x61 ≤ d.val ∧ d.val ≤ 0x7a) ∨
      (0x80 ≤ d.val ∧ ∀ range ∈ formless, d.val < range.1 ∨ range.2 < d.val) := by
  by_cases hlatin : c.val < 0x80
  · have hall : ∀ d ∈ c.lower, d = c ∨ (0x61 ≤ d.val ∧ d.val ≤ 0x7a) :=
      forall_basicLatin (P := fun c => ∀ d ∈ c.lower, d = c ∨ (0x61 ≤ d.val ∧ d.val ≤ 0x7a))
        (by decide) hlatin
    rcases hall d h with hself | hsmall
    · exact .inl hself
    · exact .inr (.inl hsmall)
  · rcases mem_lower_of_past_basicLatin (Nat.le_of_not_lt hlatin) h with hself | hi | hk | hpast
    · exact .inl hself
    · exact .inr (.inl (by omega))
    · exact .inr (.inl (by omega))
    · exact .inr (.inr hpast)

theorem lower_ne_nil (c : CodePoint) : c.lower ≠ [] := by
  by_cases hlatin : c.val < 0x80
  · exact forall_basicLatin (P := fun c => c.lower ≠ []) (by decide) hlatin
  · rcases lower_cases (Nat.le_of_not_lt hlatin) with h | ⟨-, -, d, -, h⟩ | h <;> rw [h] <;> simp

/-- A capital of basic Latin in lower case; every other code point is left as it is. -/
def small (c : CodePoint) : CodePoint :=
  if 0x41 ≤ c.val && c.val ≤ 0x5a then ofNat (c.val + 0x20) else c

theorem small_of_past_basicLatin {c : CodePoint} (h : 0x80 ≤ c.val) : c.small = c := by
  have hcapital : (decide (0x41 ≤ c.val) && decide (c.val ≤ 0x5a)) = false := by
    simp only [Bool.and_eq_false_iff, decide_eq_false_iff_not]
    omega
  rw [small, hcapital, if_neg Bool.false_ne_true]

theorem lower_eq_small {c : CodePoint} (h : c.val < 0x80) : c.lower = [c.small] :=
  forall_basicLatin (P := fun c => c.lower = [c.small]) (by decide) h

theorem small_eq_self {c : CodePoint} (h : c.isBasicLetter = false) : c.small = c := by
  by_cases hlatin : c.val < 0x80
  · exact forall_basicLatin (P := fun c => c.isBasicLetter = false → c.small = c)
      (by decide) hlatin h
  · exact small_of_past_basicLatin (Nat.le_of_not_lt hlatin)

/-- What does not tell capitals of basic Latin from small letters is the same after the change. -/
theorem apply_small {α : Type} {f : CodePoint → α}
    (h : ∀ n : Fin 0x80, f (small ⟨n.val, Nat.lt_trans n.isLt (by decide)⟩) =
      f ⟨n.val, Nat.lt_trans n.isLt (by decide)⟩) (c : CodePoint) : f c.small = f c := by
  by_cases hlatin : c.val < 0x80
  · exact forall_basicLatin (P := fun c => f c.small = f c) h hlatin
  · rw [small_of_past_basicLatin (Nat.le_of_not_lt hlatin)]

theorem isBasicLetter_small (c : CodePoint) : c.small.isBasicLetter = c.isBasicLetter :=
  apply_small (f := isBasicLetter) (by decide) c

theorem isBasicDigit_small (c : CodePoint) : c.small.isBasicDigit = c.isBasicDigit :=
  apply_small (f := isBasicDigit) (by decide) c

theorem isHexDigit_small (c : CodePoint) : c.small.isHexDigit = c.isHexDigit :=
  apply_small (f := isHexDigit) (by decide) c

theorem small_small (c : CodePoint) : c.small.small = c.small :=
  apply_small (f := small) (by decide) c

theorem caseIgnorableRanges_avoid_letters :
    (caseIgnorableRanges.all fun range => Nat.blt range.2 0x41 ||
      (Nat.blt 0x5a range.1 && Nat.blt range.2 0x61) || Nat.blt 0x7a range.1) = true := by
  decide +kernel

/-- Letters of basic Latin are cased. -/
theorem of_isBasicLetter {c : CodePoint} (h : c.isBasicLetter = true) :
    c.isCased = true ∧ c.isCaseIgnorable = false := by
  have hrange := isBasicLetter_iff.1 h
  constructor
  · rw [isCased, isIn, List.any_eq_true]
    rcases hrange with hcapital | hsmall
    · exact ⟨(0x41, 0x5a), by decide, by simpa using hcapital⟩
    · exact ⟨(0x61, 0x7a), by decide, by simpa using hsmall⟩
  · rw [isCaseIgnorable, isIn, List.any_eq_false]
    intro range hrange' hin
    have hout := List.all_eq_true.1 caseIgnorableRanges_avoid_letters range hrange'
    simp only [Bool.or_eq_true, Bool.and_eq_true, Nat.blt_eq, decide_eq_true_eq] at hout hin
    omega

theorem isCased_small (c : CodePoint) : c.small.isCased = c.isCased := by
  cases h : c.isBasicLetter with
  | true =>
    have hsmall : c.small.isBasicLetter = true := by rw [isBasicLetter_small, h]
    rw [(of_isBasicLetter h).1, (of_isBasicLetter hsmall).1]
  | false => rw [small_eq_self h]

theorem isCaseIgnorable_small (c : CodePoint) : c.small.isCaseIgnorable = c.isCaseIgnorable := by
  cases h : c.isBasicLetter with
  | true =>
    have hsmall : c.small.isBasicLetter = true := by rw [isBasicLetter_small, h]
    rw [(of_isBasicLetter h).2, (of_isBasicLetter hsmall).2]
  | false => rw [small_eq_self h]

/-- A code point that is no letter of basic Latin comes from itself only. -/
theorem small_eq_iff {c mark : CodePoint} (hmark : mark.isBasicLetter = false) :
    c.small = mark ↔ c = mark := by
  constructor
  · intro h
    have hc : c.isBasicLetter = false := by rw [← isBasicLetter_small, h, hmark]
    rw [← h, small_eq_self hc]
  · rintro rfl
    exact small_eq_self hmark

/-- The capital sigma is the one code point whose form depends on its context. -/
theorem IsLower.ne_sigma {c : CodePoint} (h : c.IsLower) : c.val ≠ 0x3a3 := by
  intro hval
  obtain rfl : c = ofNat 0x3a3 := CodePoint.ext hval
  exact absurd h (by decide)

end CodePoint

namespace Text

/-! ## Texts -/

/-- The form of a text begins with that of its first code point, for a sigma the one that fits in
between its neighbours. -/
theorem lowerAfter_eq (before : Text) (c : CodePoint) (rest : Text) :
    lowerAfter before (c :: rest) =
      (if c.val = 0x3a3 then
        if opensCased before && !opensCased rest then [CodePoint.ofNat 0x3c2]
        else [CodePoint.ofNat 0x3c3]
      else c.lower) ++ lowerAfter (c :: before) rest :=
  rfl

/-- What holds of the forms of the code points, and of both forms of the sigma, holds of the form of
a text. -/
theorem forall_mem_lower {P : CodePoint → Prop} (hfinal : P (.ofNat 0x3c2))
    (hsigma : P (.ofNat 0x3c3)) {t : Text} (h : ∀ c ∈ t, ∀ d ∈ c.lower, P d) :
    ∀ d ∈ t.lower, P d := by
  have hafter : ∀ before : Text, ∀ d ∈ lowerAfter before t, P d := by
    induction t with
    | nil =>
      intro _ d hd
      cases hd
    | cons c rest ih =>
      intro before d hd
      have ih := ih fun c hc => h c (List.mem_cons_of_mem _ hc)
      rw [lowerAfter_eq, List.mem_append] at hd
      rcases hd with hd | hd
      · split at hd
        · -- a sigma has one of its two forms
          split at hd
          · rw [List.mem_singleton] at hd
            exact hd ▸ hfinal
          · rw [List.mem_singleton] at hd
            exact hd ▸ hsigma
        · exact h c List.mem_cons_self d hd
      · exact ih _ d hd
  exact hafter []

/-- The form of a text holds the forms of its code points, a capital sigma at the end of a word
excepted. -/
theorem lower_subset_lower {t : Text} {c : CodePoint} (h : c ∈ t) :
    c.lower ⊆ t.lower ∨ .ofNat 0x3c2 ∈ t.lower := by
  have hafter : ∀ before : Text,
      c.lower ⊆ lowerAfter before t ∨ .ofNat 0x3c2 ∈ lowerAfter before t := by
    induction t with
    | nil => cases h
    | cons d rest ih =>
      intro before
      rw [lowerAfter_eq]
      rcases List.mem_cons.1 h with rfl | hmem
      · split
        · next hsigma =>
          split
          · exact .inr (List.mem_append_left _ List.mem_cons_self)
          · obtain rfl : c = .ofNat 0x3a3 := CodePoint.ext hsigma
            exact .inl fun e he => List.mem_append_left _ he
        · exact .inl fun e he => List.mem_append_left _ he
      · rcases ih hmem (d :: before) with hsub | hfinal
        · exact .inl fun e he => List.mem_append_right _ (hsub he)
        · exact .inr (List.mem_append_right _ hfinal)
  exact hafter []

/-- The form of a text is in lower case. -/
theorem isLower_of_mem_lower {t : Text} {d : CodePoint} (h : d ∈ t.lower) : d.IsLower :=
  forall_mem_lower (by decide) (by decide)
    (fun _ _ _ hd => CodePoint.isLower_of_mem_lower hd) d h

theorem lowerAfter_eq_self {t : Text} (h : ∀ c ∈ t, c.IsLower) (before : Text) :
    lowerAfter before t = t := by
  induction t generalizing before with
  | nil => rfl
  | cons c rest ih =>
    have hc := h c List.mem_cons_self
    rw [lowerAfter_eq, if_neg hc.ne_sigma, hc, ih fun d hd => h d (List.mem_cons_of_mem _ hd)]
    rfl

/-- A text in lower case is its own form. -/
theorem lower_eq_self {t : Text} (h : ∀ c ∈ t, c.IsLower) : t.lower = t :=
  lowerAfter_eq_self h []

theorem lower_lower (t : Text) : t.lower.lower = t.lower :=
  lower_eq_self fun _ h => isLower_of_mem_lower h

/-- Without a capital sigma, a text is put into lower case one code point after the other. -/
theorem lower_eq_flatMap {t : Text} (h : ∀ c ∈ t, c.val ≠ 0x3a3) :
    t.lower = t.flatMap CodePoint.lower := by
  have hafter : ∀ before : Text, lowerAfter before t = t.flatMap CodePoint.lower := by
    induction t with
    | nil => exact fun _ => rfl
    | cons c rest ih =>
      intro before
      rw [lowerAfter_eq, if_neg (h c List.mem_cons_self),
        ih (fun d hd => h d (List.mem_cons_of_mem _ hd)), List.flatMap_cons]
  exact hafter []

/-- In basic Latin, capitals are changed one by one. -/
theorem lower_eq_map_small {t : Text} (h : ∀ c ∈ t, c.val < 0x80) :
    t.lower = t.map CodePoint.small := by
  have hsigma : ∀ c ∈ t, c.val ≠ 0x3a3 := by
    intro c hc
    have hlt := h c hc
    omega
  rw [lower_eq_flatMap hsigma]
  clear hsigma
  induction t with
  | nil => rfl
  | cons c rest ih =>
    rw [List.flatMap_cons, CodePoint.lower_eq_small (h c List.mem_cons_self),
      ih fun d hd => h d (List.mem_cons_of_mem _ hd)]
    rfl

theorem lower_ne_nil {t : Text} (h : t ≠ []) : t.lower ≠ [] := by
  cases t with
  | nil => exact absurd rfl h
  | cons c rest =>
    rw [lower, lowerAfter_eq]
    split
    · split <;> simp
    · simp [CodePoint.lower_ne_nil c]

/-! ## What stands in front -/

/-- What stands further away does not count if the first cased code point is not in it. -/
theorem opensCased_append {before : Text} (h : opensCased before = false) (t : Text) :
    opensCased (t ++ before) = opensCased t := by
  unfold opensCased at h ⊢
  rw [List.dropWhile_append]
  cases hdrop : t.dropWhile CodePoint.isCaseIgnorable with
  | nil => simpa using h
  | cons c others => simp

/-- Behind what does not open with a cased code point, a text is put into lower case as if nothing
stood in front of it. -/
theorem lowerAfter_append {before : Text} (h : opensCased before = false) (t after : Text) :
    lowerAfter (after ++ before) t = lowerAfter after t := by
  induction t generalizing after with
  | nil => rfl
  | cons c rest ih => rw [lowerAfter_eq, lowerAfter_eq, opensCased_append h, ← List.cons_append, ih]

/-- A mark that is neither cased nor ignored for case parts a text: both sides are put into lower
case by themselves. -/
theorem lower_append_mark {mark : CodePoint} (hcased : mark.isCased = false)
    (hignored : mark.isCaseIgnorable = false) (a b : Text) :
    (a ++ mark :: b).lower = a.lower ++ mark.lower ++ b.lower := by
  have hsigma : mark.val ≠ 0x3a3 := by
    intro hval
    obtain rfl : mark = .ofNat 0x3a3 := CodePoint.ext hval
    exact absurd hcased (by decide)
  have hopens : ∀ rest : Text, opensCased (mark :: rest) = false := by
    intro rest
    unfold opensCased
    rw [List.dropWhile_cons, hignored, if_neg Bool.false_ne_true]
    exact hcased
  have hafter : ∀ before : Text,
      lowerAfter before (a ++ mark :: b) =
        lowerAfter before a ++ mark.lower ++ lowerAfter [] b := by
    induction a with
    | nil =>
      intro before
      show lowerAfter before (mark :: b) = mark.lower ++ lowerAfter [] b
      rw [lowerAfter_eq, if_neg hsigma]
      exact congrArg (mark.lower ++ ·) (lowerAfter_append (hopens before) b [])
    | cons c rest ih =>
      intro before
      rw [List.cons_append, lowerAfter_eq, lowerAfter_eq, opensCased_append (hopens b), ih]
      simp only [List.append_assoc]
  exact hafter []

/-- The context of a code point does not count for the length of its form. -/
theorem length_lowerAfter (before t : Text) :
    (lowerAfter before t).length = (t.flatMap CodePoint.lower).length := by
  induction t generalizing before with
  | nil => rfl
  | cons c rest ih =>
    have hform : (if c.val = 0x3a3 then
        if opensCased before && !opensCased rest then [CodePoint.ofNat 0x3c2]
        else [CodePoint.ofNat 0x3c3]
      else c.lower).length = c.lower.length := by
      split
      · next hsigma =>
        obtain rfl : c = .ofNat 0x3a3 := CodePoint.ext hsigma
        split <;> decide +kernel
      · rfl
    rw [lowerAfter_eq, List.flatMap_cons, List.length_append, List.length_append, ih, hform]

theorem length_lower_append (a b : Text) :
    (a ++ b).lower.length = a.lower.length + b.lower.length := by
  simp only [lower, length_lowerAfter, List.flatMap_append, List.length_append]

/-! ## Capitals of basic Latin -/

theorem opensCased_small (t : Text) : opensCased (t.map CodePoint.small) = opensCased t := by
  have hignored : CodePoint.isCaseIgnorable ∘ CodePoint.small = CodePoint.isCaseIgnorable :=
    funext CodePoint.isCaseIgnorable_small
  unfold opensCased
  rw [List.dropWhile_map, hignored]
  cases t.dropWhile CodePoint.isCaseIgnorable with
  | nil => rfl
  | cons c _ => exact c.isCased_small

/-- The case of letters of basic Latin counts neither for the form of a text nor as a context. -/
theorem lower_map_small (t : Text) : lower (t.map CodePoint.small) = t.lower := by
  have hsigma : ∀ c : CodePoint, c.small.val = 0x3a3 ↔ c.val = 0x3a3 := fun c =>
    iff_of_eq (CodePoint.apply_small (f := fun c => c.val = 0x3a3) (by decide) c)
  have hafter : ∀ before : Text,
      lowerAfter (before.map CodePoint.small) (t.map CodePoint.small) = lowerAfter before t := by
    induction t with
    | nil => exact fun _ => rfl
    | cons c rest ih =>
      intro before
      have hform : c.small.lower = c.lower :=
        CodePoint.apply_small (f := CodePoint.lower) (by decide) c
      rw [List.map_cons, lowerAfter_eq, lowerAfter_eq, opensCased_small, opensCased_small, hform,
        ← List.map_cons, ih]
      simp only [hsigma]
  exact hafter []

/-- Texts that differ only in the case of letters of basic Latin have the same form. -/
theorem lower_congr {a b : Text} (h : a.map CodePoint.small = b.map CodePoint.small) :
    a.lower = b.lower := by
  rw [← lower_map_small a, h, lower_map_small]

/-- Texts that differ only in the case of letters of basic Latin. -/
def CaseEq (a b : Text) : Prop :=
  a.map CodePoint.small = b.map CodePoint.small

instance (a b : Text) : Decidable (CaseEq a b) :=
  inferInstanceAs (Decidable (_ = _))

namespace CaseEq

variable {a b t : Text}

theorem symm (h : CaseEq a b) : CaseEq b a :=
  Eq.symm h

theorem length_eq (h : CaseEq a b) : a.length = b.length := by
  have hlength := congrArg List.length h
  rwa [List.length_map, List.length_map] at hlength

theorem ne_nil (h : CaseEq a b) (ha : a ≠ []) : b ≠ [] := by
  rintro rfl
  exact ha (List.length_eq_zero_iff.1 h.length_eq)

theorem append {a' b' : Text} (ha : CaseEq a a') (hb : CaseEq b b') :
    CaseEq (a ++ b) (a' ++ b') := by
  rw [CaseEq, List.map_append, List.map_append, ha, hb]

theorem exists_append (h : CaseEq (a ++ b) t) :
    ∃ a' b', t = a' ++ b' ∧ CaseEq a a' ∧ CaseEq b b' := by
  rw [CaseEq, List.map_append] at h
  obtain ⟨a', b', rfl, ha, hb⟩ := List.map_eq_append_iff.1 h.symm
  exact ⟨a', b', rfl, ha.symm, hb.symm⟩

theorem exists_cons {c : CodePoint} (h : CaseEq (c :: a) t) :
    ∃ d b, t = d :: b ∧ CaseEq [c] [d] ∧ CaseEq a b := by
  obtain ⟨d, b, rfl, hd, hb⟩ := List.map_eq_cons_iff.1 (Eq.symm h)
  exact ⟨d, b, rfl, congrArg (· :: []) hd.symm, hb.symm⟩

/-- What all code points of a text satisfy, those of the other one satisfy too, unless it tells
capitals from small letters. -/
theorem forall_mem (h : CaseEq a b) (p : CodePoint → Bool) (hp : ∀ c, p c.small = p c)
    (ha : ∀ c ∈ a, p c = true) : ∀ c ∈ b, p c = true := by
  intro c hc
  have hmem : c.small ∈ a.map CodePoint.small := by
    rw [h]
    exact List.mem_map_of_mem hc
  obtain ⟨d, hd, hsame⟩ := List.mem_map.1 hmem
  rw [← hp c, ← hsame, hp d, ha d hd]

theorem notMem {mark : CodePoint} (h : CaseEq a b) (hmark : mark.isBasicLetter = false)
    (ha : mark ∉ a) : mark ∉ b := by
  have hsame : ∀ c : CodePoint, (!decide (c.small = mark)) = !decide (c = mark) := by
    simp only [CodePoint.small_eq_iff hmark, implies_true]
  have hb := h.forall_mem (fun c => !decide (c = mark)) hsame fun c hc => by
    simpa using ne_of_mem_of_not_mem hc ha
  intro hmem
  simpa using hb mark hmem

/-- Texts without letters of basic Latin differ in nothing. -/
theorem eq_of_no_letter (h : CaseEq a b) (ha : ∀ c ∈ a, c.isBasicLetter = false) : b = a := by
  have hb : ∀ c ∈ b, c.isBasicLetter = false := by
    simpa using h.forall_mem (fun c => !c.isBasicLetter)
      (fun c => congrArg _ c.isBasicLetter_small) (by simpa using ha)
  have hsmall : ∀ t : Text, (∀ c ∈ t, c.isBasicLetter = false) → t.map CodePoint.small = t :=
    fun t ht => (List.map_congr_left fun c hc => CodePoint.small_eq_self (ht c hc)).trans
      (List.map_id t)
  rw [← hsmall a ha, h, hsmall b hb]

end CaseEq

/-- The form of a text without a capital sigma stands at the front of that of every text that begins
with it. -/
theorem lower_prefix {t : Text} (h : ∀ c ∈ t, c.val ≠ 0x3a3) (rest : Text) :
    t.lower <+: (t ++ rest).lower := by
  have hafter : ∀ before : Text, lowerAfter before t <+: lowerAfter before (t ++ rest) := by
    induction t with
    | nil => exact fun before => List.nil_prefix
    | cons c others ih =>
      intro before
      have ih := ih (fun d hd => h d (List.mem_cons_of_mem _ hd)) (c :: before)
      rw [List.cons_append, lowerAfter_eq, lowerAfter_eq, if_neg (h c List.mem_cons_self),
        if_neg (h c List.mem_cons_self), List.prefix_append_right_inj]
      exact ih
  exact hafter []

/-! ## What lower case brings out -/

/-- A text whose form is in basic Latin, without the letters that code points past it give, is in
basic Latin itself. -/
theorem lower_eq_iff_map_small {t s : Text}
    (hs : ∀ d ∈ s, d.val < 0x80 ∧ d.val ≠ 0x69 ∧ d.val ≠ 0x6b) :
    t.lower = s ↔ t.map CodePoint.small = s := by
  have hlatin : t.lower = s ∨ t.map CodePoint.small = s → ∀ c ∈ t, c.val < 0x80 := by
    intro h c hc
    apply Nat.lt_of_not_le
    intro hpast
    rcases h with rfl | rfl
    · -- the form of the code point has members, and `s` holds none of them
      rcases lower_subset_lower hc with hsub | hfinal
      · obtain ⟨d, others, hd⟩ := List.exists_cons_of_ne_nil c.lower_ne_nil
        have hmem : d ∈ c.lower := hd ▸ List.mem_cons_self
        have hletter := hs d (hsub hmem)
        rcases CodePoint.mem_lower_of_past_basicLatin hpast hmem with rfl | hi | hk | ⟨hd, -⟩ <;>
          omega
      · exact absurd (hs _ hfinal).1 (by decide)
    · have hletter := hs _ (List.mem_map_of_mem hc)
      rw [CodePoint.small_of_past_basicLatin hpast] at hletter
      omega
  constructor
  · intro h
    rw [← lower_eq_map_small (hlatin (.inl h)), h]
  · intro h
    rw [lower_eq_map_small (hlatin (.inr h)), h]

section Mark

variable {mark : CodePoint} (hlatin : mark.val < 0x80) (hletter : mark.isBasicLetter = false)

include hlatin hletter

/-- Code point by code point, a mark of basic Latin stays as it is, and nothing else gives one. -/
theorem lowerAfter_cons (before : Text) (c : CodePoint) (rest : Text) :
    ∃ form : Text, lowerAfter before (c :: rest) = form ++ lowerAfter (c :: before) rest ∧
      (c = mark ∧ form = [mark] ∨ c ≠ mark ∧ form ≠ [] ∧ mark ∉ form) := by
  rw [lowerAfter_eq]
  refine ⟨_, rfl, ?_⟩
  by_cases hc : c = mark
  · left
    subst hc
    have hsigma : c.val ≠ 0x3a3 := by omega
    rw [if_neg hsigma, CodePoint.lower_eq_small hlatin, CodePoint.small_eq_self hletter]
    exact ⟨rfl, rfl⟩
  · right
    have hforms : ∀ d : CodePoint, 0x80 ≤ d.val → mark ∉ [d] := by
      intro d hd hmem
      rw [List.mem_singleton] at hmem
      rw [hmem] at hlatin
      omega
    refine ⟨hc, ?_⟩
    split
    · -- a sigma has one of its two forms
      split
      · exact ⟨List.cons_ne_nil _ _, hforms _ (by decide)⟩
      · exact ⟨List.cons_ne_nil _ _, hforms _ (by decide)⟩
    · refine ⟨c.lower_ne_nil, fun hmem => ?_⟩
      rcases CodePoint.mem_lower_cases hmem with hself | hsmall | ⟨hpast, -⟩
      · exact hc hself.symm
      · rw [CodePoint.isBasicLetter_iff.2 (.inr hsmall)] at hletter
        cases hletter
      · omega

/-- A mark stands in the form of a text exactly if it stands in the text. -/
theorem mem_lowerAfter_iff (before t : Text) : mark ∈ lowerAfter before t ↔ mark ∈ t := by
  induction t generalizing before with
  | nil => rfl
  | cons c rest ih =>
    obtain ⟨form, hlower, hform⟩ := lowerAfter_cons hlatin hletter before c rest
    have hrest : mark ∈ lowerAfter (c :: before) rest ↔ mark ∈ rest := ih (c :: before)
    rw [hlower, List.mem_append, hrest, List.mem_cons]
    rcases hform with ⟨rfl, rfl⟩ | ⟨hc, -, hmark⟩
    · simp
    · simp [hmark, Ne.symm hc]

theorem head?_lowerAfter_eq_mark (before t : Text) :
    (lowerAfter before t).head? = some mark ↔ t.head? = some mark := by
  cases t with
  | nil => rfl
  | cons c rest =>
    obtain ⟨form, hlower, hform⟩ := lowerAfter_cons hlatin hletter before c rest
    rw [hlower, List.head?_cons, Option.some.injEq]
    rcases hform with ⟨hc, rfl⟩ | ⟨hc, hne, hmark⟩
    · simp [hc]
    · obtain ⟨d, others, rfl⟩ := List.exists_cons_of_ne_nil hne
      have hd : d ≠ mark := fun hd => hmark (hd ▸ List.mem_cons_self)
      simp [hc, hd]

/-- Two marks in a row stand in the form of a text exactly if they stand in the text. -/
theorem infix_lowerAfter (before t : Text) :
    [mark, mark] <:+: lowerAfter before t ↔ [mark, mark] <:+: t := by
  have hskip : ∀ form rest : Text, mark ∉ form →
      ([mark, mark] <:+: form ++ rest ↔ [mark, mark] <:+: rest) := by
    intro form rest hmark
    induction form with
    | nil => rfl
    | cons d others ih =>
      obtain ⟨hd, hothers⟩ := List.ne_and_not_mem_of_not_mem_cons hmark
      have hfront : ¬[mark, mark] <+: d :: (others ++ rest) := by
        rw [List.cons_prefix_cons]
        exact fun h => hd h.1
      rw [List.cons_append, List.infix_cons_iff, ih hothers]
      exact or_iff_right hfront
  have hpair : ∀ rest : Text, [mark, mark] <+: mark :: rest ↔ rest.head? = some mark := by
    intro rest
    cases rest <;> simp [List.cons_prefix_cons, eq_comm]
  induction t generalizing before with
  | nil => rfl
  | cons c rest ih =>
    obtain ⟨form, hlower, hform⟩ := lowerAfter_cons hlatin hletter before c rest
    have hrest : [mark, mark] <:+: lowerAfter (c :: before) rest ↔ [mark, mark] <:+: rest :=
      ih (c :: before)
    rw [hlower]
    rcases hform with ⟨rfl, rfl⟩ | ⟨hc, -, hmark⟩
    · -- a mark in front makes a pair with one at the head of the rest
      rw [List.singleton_append, List.infix_cons_iff, List.infix_cons_iff, hpair, hpair, hrest,
        head?_lowerAfter_eq_mark hlatin hletter]
    · have hother : mark ∉ [c] := fun hmem => hc (List.mem_singleton.1 hmem).symm
      rw [hskip form _ hmark, hrest]
      exact (hskip [c] rest hother).symm

end Mark

end Text

end SiteRules
