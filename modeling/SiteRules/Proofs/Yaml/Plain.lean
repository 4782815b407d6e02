import SiteRules.Proofs.Yaml.Integer

/-!
# Plain scalars that have no value

A scalar whose kind is told by its spelling is of that kind, but it can still fail to have a value
(`Scalar.Lapse`): an integer in one of two ways, a number in sixtieths with too many places, or a
point in time out of the calendar. There are no other ways (`Scalar.read_ofPlain`).
-/

namespace SiteRules.Yaml

/-! ## Kinds by spelling -/

namespace Tag

/-- A text spells a value of a kind that is told by the spelling. Bytes are never spelled so. -/
def IsSpelled (t : Text) : Tag → Prop
  | bool => isBoolean t = true
  | int => isInteger t = true
  | float => isFloat t = true
  | timestamp => isTime t = true
  | binary => False
  | _ => True

theorem IsSpelled.ite {t : Text} {c : Prop} [Decidable c] {a b : Tag} (ha : c → a.IsSpelled t)
    (hb : ¬c → b.IsSpelled t) : (if c then a else b).IsSpelled t := by
  split
  · next h => exact ha h
  · next h => exact hb h

theorem isSpelled_ofPlain (content : Text) :
    (ofPlain content).IsSpelled (withoutFinalBreak content) :=
  .ite (fun _ => trivial) fun _ => .ite (fun _ => trivial) fun _ => .ite (fun hbool => hbool)
    fun _ => .ite (fun hfloat => hfloat) fun _ => .ite (fun hint => hint) fun _ =>
    .ite (fun _ => trivial) fun _ => .ite (fun _ => trivial) fun _ => .ite (fun htime => htime)
    fun _ => .ite (fun _ => trivial) fun _ => .ite (fun _ => trivial) fun _ => trivial

theorem exists_of_isOneOf {words : List String} {t : Text} (h : isOneOf words t = true) :
    ∃ word ∈ words, t = Text.ofString word := by
  simpa [isOneOf] using h

/-- The words for truth values are read. -/
theorem isSome_lookup_of_isBoolean {t : Text} (h : isBoolean t = true) :
    (Scalar.booleans.lookup t.lower).isSome = true := by
  obtain ⟨word, hword, rfl⟩ := exists_of_isOneOf h
  revert word
  decide

end Tag

namespace Scalar

/-! ## Floating-point numbers -/

/-- A text is put together from the parts in front of a point, places and an exponent. Digits stand
in front of the point or right behind it. -/
structure IsPointed (whole places exponent : Text) : Prop where
  digits : (∀ part ∈ whole.splitAt ':', Tag.isDigits part = true) ∨
    whole = [] ∧ Tag.isDigits places = true
  places : ∀ c ∈ places, Tag.isDigitPart c = true
  exponent : Tag.isExponent exponent = true

/-- The text that is put together. -/
def pointed (whole places exponent : Text) : Text :=
  whole ++ CodePoint.ofChar '.' :: (places ++ exponent)

theorem mem_takeWhile_isDigitPart {t : Text} :
    ∀ c ∈ t.takeWhile Tag.isDigitPart, Tag.isDigitPart c = true :=
  fun _ hc => List.mem_takeWhile_imp hc

theorem exists_isPointed_of_isUnsignedDecimal {t : Text} (h : Tag.isUnsignedDecimal t = true) :
    ∃ whole places exponent, t = pointed whole places exponent ∧
      IsPointed whole places exponent := by
  rw [Tag.isUnsignedDecimal] at h
  cases hcut : t.cut? '.' with
  | none =>
    rw [hcut] at h
    cases h
  | some parts =>
    obtain ⟨whole, rest⟩ := parts
    obtain ⟨rfl, -⟩ := Text.cut?_eq_some_iff.1 hcut
    rw [hcut] at h
    simp only [Bool.or_eq_true, Bool.and_eq_true] at h
    rcases h with ⟨hwhole, hexponent⟩ | ⟨hwhole, hplaces⟩
    · refine ⟨whole, rest.takeWhile Tag.isDigitPart, rest.dropWhile Tag.isDigitPart, ?_, .inl ?_,
        mem_takeWhile_isDigitPart, hexponent⟩
      · rw [pointed, List.takeWhile_append_dropWhile]
      · have hcolon : CodePoint.ofChar ':' ∉ whole :=
          Text.notMem_of_kind (isDigits_cases hwhole).1 rfl
        rw [Text.splitAt_eq_self hcolon]
        exact List.forall_mem_singleton.2 hwhole
    · obtain ⟨first, hfirst, hdigits⟩ := (Option.any_eq_true _ _).1 hwhole
      obtain ⟨others, hsplit, -, hothers⟩ := sixtieths?_eq_some hfirst
      refine ⟨whole, rest, [], ?_, .inl ?_, List.all_eq_true.1 hplaces, rfl⟩
      · rw [pointed, List.append_nil]
      · rw [hsplit]
        exact List.forall_mem_cons.2
          ⟨hdigits, fun part hpart => (isDigits_of_isSixtieth (hothers part hpart)).1⟩

theorem exists_isPointed_of_point {rest : Text}
    (hdigit : rest.head?.any CodePoint.isBasicDigit = true)
    (hexponent : Tag.isExponent (rest.dropWhile Tag.isDigitPart) = true) :
    ∃ whole places exponent, CodePoint.ofChar '.' :: rest = pointed whole places exponent ∧
      IsPointed whole places exponent := by
  refine ⟨[], rest.takeWhile Tag.isDigitPart, rest.dropWhile Tag.isDigitPart, ?_, .inr ⟨rfl, ?_⟩,
    mem_takeWhile_isDigitPart, hexponent⟩
  · rw [pointed, List.takeWhile_append_dropWhile]
    rfl
  · cases rest with
    | nil => cases hdigit
    | cons c rest =>
      have hpart : Tag.isDigitPart c = true := by
        rw [Tag.isDigitPart, show c.isBasicDigit = true from hdigit, Bool.true_or]
      rw [List.takeWhile_cons_of_pos hpart, Tag.isDigits, show c.isBasicDigit = true from hdigit,
        Bool.true_and, List.all_eq_true]
      exact mem_takeWhile_isDigitPart

/-! ### The form that is read -/

/-- A text without underscores and with small letters for capitals of basic Latin. -/
def plainForm (t : Text) : Text :=
  (dropUnderscores t).map CodePoint.small

theorem plainForm_of_digits {t : Text} (h : ∀ c ∈ t, Tag.isDigitPart c = true) :
    plainForm t = dropUnderscores t := by
  have hsmall : ∀ c ∈ dropUnderscores t, c.small = c := fun c hc => CodePoint.small_eq_self
    (CodePoint.isBasicLetter_of_isBasicDigit (isBasicDigit_of_mem_dropUnderscores h c hc))
  rw [plainForm, List.map_congr_left hsmall, List.map_id']

theorem plainForm_append (t rest : Text) :
    plainForm (t ++ rest) = plainForm t ++ plainForm rest := by
  rw [plainForm, dropUnderscores_append, List.map_append]
  rfl

theorem plainForm_point (t : Text) :
    plainForm (CodePoint.ofChar '.' :: t) = CodePoint.ofChar '.' :: plainForm t :=
  rfl

theorem isExponent_plainForm {t : Text} (h : Tag.isExponent t = true) :
    Literal.IsExponent (plainForm t) := by
  unfold Tag.isExponent at h
  split at h
  · exact .inl rfl
  · next e sign digits =>
    simp only [Bool.and_eq_true, Bool.or_eq_true, decide_eq_true_eq, Bool.not_eq_true',
      List.all_eq_true] at h
    obtain ⟨⟨⟨he, hsign⟩, hne⟩, hdigits⟩ := h
    have hparts : ∀ c ∈ digits, Tag.isDigitPart c = true := by
      intro c hc
      rw [Tag.isDigitPart, hdigits c hc, Bool.true_or]
    have hline : CodePoint.ofChar '_' ∉ digits := Text.notMem_of_kind hdigits rfl
    have hform : plainForm digits = digits := by
      rw [plainForm_of_digits hparts, dropUnderscores_eq_self hline]
    have hfront : plainForm [e, sign] = [CodePoint.ofChar 'e', sign] := by
      rcases he with rfl | rfl <;> rcases hsign with rfl | rfl <;> rfl
    refine .inr ⟨sign, digits, ?_, hsign, List.isEmpty_eq_false_iff.1 hne, hdigits⟩
    rw [show e :: sign :: digits = [e, sign] ++ digits from rfl, plainForm_append, hform, hfront]
    rfl
  · cases h

theorem mem_of_isExponent {t : Text} (h : Tag.isExponent t = true) :
    ∀ c ∈ t, c.isBasicDigit = true ∨ c ∈ Text.ofString "eE-+" := by
  unfold Tag.isExponent at h
  split at h
  · exact List.forall_mem_nil _
  · next e sign digits =>
    simp only [Bool.and_eq_true, Bool.or_eq_true, decide_eq_true_eq, List.all_eq_true] at h
    obtain ⟨⟨⟨he, hsign⟩, -⟩, hdigits⟩ := h
    refine List.forall_mem_cons.2 ⟨.inr ?_, List.forall_mem_cons.2 ⟨.inr ?_, fun c hc => ?_⟩⟩
    · rcases he with rfl | rfl <;> decide
    · rcases hsign with rfl | rfl <;> decide
    · exact .inl (hdigits c hc)
  · cases h

theorem splitAt_plainForm (t : Text) :
    (plainForm t).splitAt ':' = (t.splitAt ':').map plainForm := by
  have hcolon : ∀ c ∈ dropUnderscores t,
      c.small = CodePoint.ofChar ':' ↔ c = CodePoint.ofChar ':' :=
    fun c _ => CodePoint.small_eq_iff rfl
  rw [plainForm, Text.splitAt_map hcolon, splitAt_dropUnderscores, List.map_map]
  rfl

theorem isDecimal_of_isDigits {part : Text} (h : Tag.isDigits part = true) :
    Literal.IsDecimal (plainForm part) := by
  obtain ⟨hall, hne, -⟩ := isDigits_cases h
  rw [plainForm_of_digits hall]
  exact .whole hne (isBasicDigit_of_mem_dropUnderscores hall)

namespace IsPointed

variable {whole places exponent : Text}

/-- The last part of a number goes on with the point and what follows it. -/
theorem isDecimal_last (h : IsPointed whole places exponent) {last : Text}
    (hlast : Tag.isDigits last = true ∨ last = [] ∧ Tag.isDigits places = true) :
    Literal.IsDecimal (plainForm (last ++ CodePoint.ofChar '.' :: (places ++ exponent))) := by
  have hform : plainForm (last ++ CodePoint.ofChar '.' :: (places ++ exponent)) =
      plainForm last ++ CodePoint.ofChar '.' :: (dropUnderscores places ++ plainForm exponent) := by
    rw [plainForm_append, plainForm_point, plainForm_append, plainForm_of_digits h.places]
  have hparts : ∀ c ∈ last, Tag.isDigitPart c = true := by
    rcases hlast with hdigits | ⟨rfl, -⟩
    · exact (isDigits_cases hdigits).1
    · exact List.forall_mem_nil _
  rw [hform, plainForm_of_digits hparts]
  refine .point ?_ (isBasicDigit_of_mem_dropUnderscores hparts)
    (isBasicDigit_of_mem_dropUnderscores h.places) (isExponent_plainForm h.exponent)
  exact hlast.imp (fun hdigits => (isDigits_cases hdigits).2.1)
    fun hplaces => (isDigits_cases hplaces.2).2.1

theorem colon_notMem (h : IsPointed whole places exponent) :
    CodePoint.ofChar ':' ∉ CodePoint.ofChar '.' :: (places ++ exponent) := by
  have hexponent : CodePoint.ofChar ':' ∉ exponent := fun hmem =>
    absurd (mem_of_isExponent h.exponent _ hmem) (by decide)
  intro hmem
  rcases List.mem_cons.1 hmem with heq | hmem
  · revert heq
    decide
  · exact (List.mem_append.1 hmem).elim (Text.notMem_of_kind h.places rfl) hexponent

/-- Every part of a number is a decimal. -/
theorem isDecimal (h : IsPointed whole places exponent) :
    ∀ part ∈ (plainForm (pointed whole places exponent)).splitAt ':', Literal.IsDecimal part := by
  obtain ⟨pieces, last, hwhole, hsplit⟩ := Text.splitAt_append h.colon_notMem whole
  rw [splitAt_plainForm, pointed, hsplit, List.forall_mem_map]
  have hdigits := h.digits
  rw [hwhole] at hdigits
  -- an empty text is its own only part
  have hempty : whole = [] → pieces = [] ∧ last = [] := by
    rintro rfl
    cases pieces with
    | nil => exact ⟨rfl, (List.cons.inj hwhole).1.symm⟩
    | cons first others => simp [Text.splitAt] at hwhole
  intro part hpart
  rcases List.mem_append.1 hpart with hpiece | hlast
  · rcases hdigits with hdigits | ⟨hnone, -⟩
    · exact isDecimal_of_isDigits (hdigits part (List.mem_append_left _ hpiece))
    · rw [(hempty hnone).1] at hpiece
      cases hpiece
  · rw [List.mem_singleton] at hlast
    rw [hlast]
    refine h.isDecimal_last ?_
    rcases hdigits with hdigits | ⟨hnone, hplaces⟩
    · exact .inl (hdigits last (List.mem_append_right _ List.mem_cons_self))
    · exact .inr ⟨(hempty hnone).2, hplaces⟩

theorem isBasicLatin (h : IsPointed whole places exponent) :
    ∀ c ∈ pointed whole places exponent, c.val < 0x80 := by
  have hpart : ∀ {c : CodePoint}, Tag.isDigitPart c = true → c.val < 0x80 := by
    intro c hc
    rcases Bool.or_eq_true_iff.1 hc with hdigit | hline
    · exact CodePoint.val_lt_of_isBasicDigit hdigit
    · rw [of_decide_eq_true hline]
      decide
  have hwhole : ∀ c ∈ whole, c.val < 0x80 := by
    intro c hc
    by_cases hcolon : c = CodePoint.ofChar ':'
    · rw [hcolon]
      decide
    · obtain ⟨part, hmem, hcpart⟩ := Text.exists_mem_splitAt hcolon hc
      rcases h.digits with hdigits | ⟨rfl, -⟩
      · exact hpart ((isDigits_cases (hdigits part hmem)).1 c hcpart)
      · cases hc
  have hexponent : ∀ c ∈ exponent, c.val < 0x80 := by
    intro c hc
    rcases mem_of_isExponent h.exponent c hc with hdigit | hmark
    · exact CodePoint.val_lt_of_isBasicDigit hdigit
    · have hlatin : ∀ c ∈ Text.ofString "eE-+", c.val < 0x80 := by decide
      exact hlatin c hmark
  intro c hc
  rcases List.mem_append.1 hc with hc | hc
  · exact hwhole c hc
  · rcases List.mem_cons.1 hc with rfl | hc
    · decide
    · rcases List.mem_append.1 hc with hc | hc
      · exact hpart (h.places c hc)
      · exact hexponent c hc

/-- A number begins with a digit or with its point. -/
theorem head_ne (h : IsPointed whole places exponent) :
    ∀ c ∈ (pointed whole places exponent).head?, c ≠ CodePoint.ofChar '_' := by
  cases whole with
  | nil =>
    rintro _ ⟨rfl⟩
    decide
  | cons z rest =>
    rintro _ ⟨rfl⟩
    rcases h.digits with hdigits | ⟨hnone, -⟩
    · obtain ⟨first, others, hsplit⟩ := List.exists_cons_of_ne_nil
        (Text.splitAt_ne_nil (CodePoint.ofChar ':') (z :: rest))
      have hfirst := hdigits first (hsplit ▸ List.mem_cons_self)
      exact CodePoint.ne_of_kind (isBasicDigit_head_of_splitAt hsplit hfirst) rfl
    · cases hnone

end IsPointed

/-! ### Numbers that are read -/

/-- Numbers with too many places. -/
def HasManyPlaces (content : Text) : Prop :=
  maxPlaces < ((Tag.unsigned content).splitAt ':').length

theorem unsigned_map_small (t : Text) :
    Tag.unsigned (t.map CodePoint.small) = (Tag.unsigned t).map CodePoint.small := by
  cases t with
  | nil => rfl
  | cons c rest =>
    simp only [List.map_cons, Tag.unsigned, CodePoint.small_eq_iff
      (show (CodePoint.ofChar '-').isBasicLetter = false from rfl), CodePoint.small_eq_iff
      (show (CodePoint.ofChar '+').isBasicLetter = false from rfl)]
    split
    · rfl
    · rfl

/-- Without its sign, a number is read in its plain form. -/
theorem cutSign_lower {content whole places exponent : Text}
    (hcontent : Tag.unsigned content = pointed whole places exponent)
    (h : IsPointed whole places exponent) :
    ∃ negative, cutSign (dropUnderscores content).lower =
      .ok (negative, plainForm (Tag.unsigned content)) := by
  have hlatin : ∀ c ∈ content, c.val < 0x80 := by
    have hunsigned := h.isBasicLatin
    rw [← hcontent] at hunsigned
    rcases Tag.eq_of_unsigned content with heq | heq | heq
    · rwa [heq]
    · rw [heq]
      exact List.forall_mem_cons.2 ⟨by decide, hunsigned⟩
    · rw [heq]
      exact List.forall_mem_cons.2 ⟨by decide, hunsigned⟩
  have hhead : ∀ c ∈ content.head?, c ≠ CodePoint.ofChar '_' := by
    refine Tag.forall_head_of_unsigned (by decide) ?_
    rw [hcontent]
    exact h.head_ne
  -- in basic Latin, lower case changes each letter on its own
  have hlower : (dropUnderscores content).lower = plainForm content :=
    Text.lower_eq_map_small fun c hc => hlatin c (mem_dropUnderscores.1 hc).1
  have hplain : Tag.unsigned (plainForm content) = plainForm (Tag.unsigned content) := by
    rw [plainForm, unsigned_map_small, unsigned_dropUnderscores hhead]
    rfl
  have hspec := cutSign_spec (plainForm content)
  rw [hlower]
  cases hcut : cutSign (plainForm content) with
  | error fault =>
    obtain ⟨-, hempty⟩ := hspec.of_error hcut
    rw [hempty, hcontent, pointed, plainForm_append, plainForm_point] at hplain
    exact absurd (List.append_eq_nil_iff.1 hplain.symm).2 (List.cons_ne_nil _ _)
  | ok signed =>
    refine ⟨signed.1, ?_⟩
    rw [← hplain, ← hspec.of_ok hcut]

theorem readFloat_of_isPointed (own : Nat) {content whole places exponent : Text}
    (hcontent : Tag.unsigned content = pointed whole places exponent)
    (h : IsPointed whole places exponent) :
    EndsIn (fun fault => fault = .placeOverflow ∧ HasManyPlaces content) (fun _ => True)
      (readFloat own content) := by
  obtain ⟨negative, hcut⟩ := cutSign_lower hcontent h
  have hread : ∀ part ∈ (plainForm (Tag.unsigned content)).splitAt ':', EndsIn (fun _ => False)
      (fun _ => True) ((Literal.readFloat part).mapError Fault.number) := by
    rw [hcontent]
    intro part hpart
    obtain ⟨x, hx⟩ := Literal.readFloat_of_isDecimal (h.isDecimal part hpart)
    rw [hx]
    exact trivial
  rw [readFloat, hcut]
  show EndsIn _ _ (readUnsignedFloat own (plainForm (Tag.unsigned content)) >>= _)
  refine EndsIn.bind ((readUnsignedFloat_spec own hread).weaken ?_) fun _ _ => trivial
  rintro _ (hfalse | ⟨rfl, hmany⟩)
  · exact hfalse.elim
  · rw [splitAt_plainForm, List.length_map] at hmany
    exact ⟨rfl, hmany⟩

/-- A number that is named is read. -/
theorem readFloat_of_name (own : Nat) {content : Text} {negative : Bool} {name : String}
    (hcut : cutSign (dropUnderscores content).lower = .ok (negative, Text.ofString name))
    (hname : name = ".inf" ∨ name = ".nan") {E : Fault → Prop} :
    EndsIn E (fun _ => True) (readFloat own content) := by
  rw [readFloat, hcut]
  rcases hname with rfl | rfl
  · exact trivial
  · exact trivial

/-- A text that spells a floating-point number is read unless it has too many places. -/
theorem readFloat_of_isFloat (own : Nat) {content : Text} (h : Tag.isFloat content = true) :
    EndsIn (fun fault => fault = .placeOverflow ∧ HasManyPlaces content) (fun _ => True)
      (readFloat own content) := by
  unfold Tag.isFloat at h
  simp only [Bool.or_eq_true] at h
  rcases h with ((hdecimal | hpoint) | hinfinite) | hnan
  · obtain ⟨whole, places, exponent, heq, hpointed⟩ :=
      exists_isPointed_of_isUnsignedDecimal hdecimal
    exact readFloat_of_isPointed own heq hpointed
  · cases content with
    | nil => cases hpoint
    | cons c rest =>
      simp only [Bool.and_eq_true, decide_eq_true_eq] at hpoint
      obtain ⟨⟨rfl, hdigit⟩, hexponent⟩ := hpoint
      obtain ⟨whole, places, exponent, heq, hpointed⟩ := exists_isPointed_of_point hdigit hexponent
      exact readFloat_of_isPointed own heq hpointed
  · -- an infinity, with a sign in front of it or without
    obtain ⟨word, hword, heq⟩ := Tag.exists_of_isOneOf hinfinite
    have hwords : ∀ word ∈ [".inf", ".Inf", ".INF"], ∀ front ∈ ["", "-", "+"], ∃ negative,
        cutSign (dropUnderscores (Text.ofString front ++ Text.ofString word)).lower =
          .ok (negative, Text.ofString ".inf") := by
      decide
    have hread : ∀ front ∈ ["", "-", "+"], content = Text.ofString front ++ Text.ofString word →
        EndsIn (fun fault => fault = .placeOverflow ∧ HasManyPlaces content) (fun _ => True)
          (readFloat own content) := by
      rintro front hfront rfl
      obtain ⟨negative, hcut⟩ := hwords word hword front hfront
      exact readFloat_of_name own hcut (.inl rfl)
    rcases Tag.eq_of_unsigned content with hcontent | hcontent | hcontent
    · exact hread "" (by decide) (hcontent.trans heq)
    · exact hread "-" (by decide) (hcontent.trans (congrArg _ heq))
    · exact hread "+" (by decide) (hcontent.trans (congrArg _ heq))
  · obtain ⟨word, hword, rfl⟩ := Tag.exists_of_isOneOf hnan
    have hwords : ∀ word ∈ [".nan", ".NaN", ".NAN"],
        cutSign (dropUnderscores (Text.ofString word)).lower =
          .ok (false, Text.ofString ".nan") := by
      decide
    exact readFloat_of_name own (hwords word hword) (.inr rfl)

/-! ## Every kind -/

/-- How a scalar of the kind that its spelling gives has no value. -/
inductive Lapse (content : Text) : Fault → Prop
  | integer {fault : Fault} (kind : Tag.ofPlain content = .int)
      (h : IntegerLapse (Tag.unsigned content) fault) : Lapse content fault
  | places (kind : Tag.ofPlain content = .float) (h : HasManyPlaces content) :
      Lapse content .placeOverflow
  | time {spelled : SpelledTime} {e : CalendarError} (kind : Tag.ofPlain content = .timestamp)
      (hread : SpelledTime.read? content = some spelled) (h : spelled.toTime = .error e) :
      Lapse content (.calendar e)

/-- A scalar of the kind that its spelling gives is read, or its kind has no scalars, or it has no
value in one of a few ways. -/
theorem read_ofPlain {content : Text} (hend : ∀ c ∈ content.getLast?, c ≠ CodePoint.ofChar '\n')
    (number : Nat) :
    EndsIn (fun fault => fault = .malformed ∨ Lapse content fault) (fun _ => True)
      (read (Tag.ofPlain content) number content) := by
  -- the kind is told without the line end that a text can have at its end
  have hwhole : Tag.withoutFinalBreak content = content :=
    if_neg fun hbreak => hend _ hbreak rfl
  have hspelled := Tag.isSpelled_ofPlain content
  rw [hwhole] at hspelled
  cases hkind : Tag.ofPlain content with
  | null => exact trivial
  | str => exact trivial
  | bool =>
    rw [hkind] at hspelled
    obtain ⟨b, hb⟩ := Option.isSome_iff_exists.1 (Tag.isSome_lookup_of_isBoolean hspelled)
    show EndsIn _ _ (readBoolean content)
    rw [readBoolean, hb]
    exact trivial
  | int =>
    rw [hkind] at hspelled
    exact (readInteger_of_isInteger hspelled).weaken fun _ h => .inr (.integer hkind h)
  | float =>
    rw [hkind] at hspelled
    refine (readFloat_of_isFloat _ hspelled).weaken ?_
    rintro _ ⟨rfl, hmany⟩
    exact .inr (.places hkind hmany)
  | timestamp =>
    rw [hkind] at hspelled
    obtain ⟨spelled, hread, -⟩ := (Option.any_eq_true _ _).1 hspelled
    show EndsIn _ _ (readTime content)
    rw [readTime, hwhole, hread]
    dsimp only
    cases htime : spelled.toTime with
    | error e => exact .inr (.time hkind hread htime)
    | ok time => cases time <;> exact trivial
  | binary =>
    rw [hkind] at hspelled
    exact hspelled.elim
  | _ => exact .inl rfl

end Scalar

end SiteRules.Yaml
