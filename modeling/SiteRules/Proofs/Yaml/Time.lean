import Mathlib.Algebra.Group.Nat.Defs
import SiteRules.Proofs.Number.Decimal
import SiteRules.Yaml.Scalar

/-!
# Points in time that are read as what they were written for

The text of a date or a moment is read field by field, each field having all its digits.
-/

namespace SiteRules

/-- The fields of a date are in range. -/
structure Date.IsValid (d : Date) : Prop where
  year : 1 ≤ d.year ∧ d.year ≤ 9999
  month : 1 ≤ d.month ∧ d.month ≤ 12
  day : 1 ≤ d.day ∧ d.day ≤ daysIn d.year d.month

/-- The fields of a moment are in range. -/
structure Moment.IsValid (m : Moment) : Prop where
  date : m.date.IsValid
  hour : m.hour ≤ 23
  minute : m.minute ≤ 59
  second : m.second ≤ 59
  microsecond : m.microsecond < 10 ^ 6
  offset : ∀ minutes ∈ m.offset, minutes.natAbs < 1440

theorem not_outside {least n greatest : Nat} (h : least ≤ n ∧ n ≤ greatest) :
    ¬(decide (n < least) || decide (greatest < n)) = true := by
  rw [Bool.or_eq_true, decide_eq_true_iff, decide_eq_true_iff]
  omega

theorem Date.IsValid.ofFields {d : Date} (h : d.IsValid) :
    Date.ofFields d.year d.month d.day = .ok d := by
  rw [Date.ofFields, if_neg (not_outside h.year), if_neg (not_outside h.month),
    if_neg (not_outside h.day)]

theorem Date.daysIn_le (year month : Nat) : daysIn year month ≤ 31 := by
  unfold daysIn
  split
  · split <;> decide
  all_goals decide

theorem Moment.IsValid.ofFields {m : Moment} (h : m.IsValid) :
    Moment.ofFields m.date.year m.date.month m.date.day m.hour m.minute m.second m.microsecond
      m.offset = .ok m := by
  have hhour := Nat.not_lt.2 h.hour
  have hminute := Nat.not_lt.2 h.minute
  have hsecond := Nat.not_lt.2 h.second
  unfold Moment.ofFields
  rw [h.date.ofFields]
  dsimp only [bind, Except.bind]
  rw [if_neg hhour, if_neg hminute, if_neg hsecond]
  split
  · next minutes hoffset =>
    rw [if_neg (Nat.not_le.2 (h.offset minutes hoffset))]
    rfl
  · rfl

namespace Yaml.SpelledTime

/-! ## Digits -/

/-- A number with all its digits. -/
def field (width n : Nat) : Text :=
  Text.ofString (padded width n)

theorem field_eq (width n : Nat) : field width n = Text.ofChars
    (List.replicate (width - (Nat.toDigits 10 n).length) '0' ++ Nat.toDigits 10 n) := by
  rw [field, padded, Text.ofString, String.toList_ofList]

theorem isDigit_of_mem_padded (width n : Nat) :
    ∀ c ∈ List.replicate (width - (Nat.toDigits 10 n).length) '0' ++ Nat.toDigits 10 n,
      c.isDigit = true := by
  refine List.forall_mem_append.2 ⟨fun c hc => ?_, fun c hc =>
    Nat.isDigit_of_mem_toDigits (by decide) (by decide) hc⟩
  rw [List.eq_of_mem_replicate hc]
  rfl

theorem isBasicDigit_of_mem_field (width n : Nat) : ∀ c ∈ field width n, c.isBasicDigit = true := by
  rw [field_eq]
  exact List.forall_mem_map.2 fun c hc =>
    CodePoint.isBasicDigit_ofChar (isDigit_of_mem_padded width n c hc)

theorem decimal_field (width n : Nat) : (field width n).decimal = n := by
  rw [field_eq, Text.decimal_ofChars (isDigit_of_mem_padded width n), Nat.ofDigitChars_append,
    Nat.ofDigitChars_replicate_zero, Nat.mul_zero, Nat.ofDigitChars_ten_toDigits]

theorem length_field {width n : Nat} (hwidth : 0 < width) (h : n < 10 ^ width) :
    (field width n).length = width := by
  have hlength : (Nat.toDigits 10 n).length ≤ width :=
    (Nat.length_toDigits_le_iff (by decide) hwidth).2 h
  rw [field_eq, Text.ofChars, List.length_map, List.length_append, List.length_replicate]
  omega

/-- As many digits as there may be are cut off. -/
theorem cutDigits?_field (least width : Nat) {n : Nat} (hleast : least ≤ width) (hwidth : 0 < width)
    (h : n < 10 ^ width) (rest : Text) :
    cutDigits? least width (field width n ++ rest) = some (field width n, rest) := by
  have hlength := length_field hwidth h
  have htake : (field width n ++ rest).take width = field width n := List.take_left' hlength
  have hdrop : (field width n ++ rest).drop width = rest := List.drop_left' hlength
  have hrun : (field width n).takeWhile CodePoint.isBasicDigit = field width n :=
    List.takeWhile_eq_self_iff.2 (isBasicDigit_of_mem_field width n)
  unfold cutDigits?
  dsimp only
  rw [htake, hrun, hlength, if_neg (Nat.not_lt.2 hleast), hdrop]

theorem notMem_field (width n : Nat) : CodePoint.ofChar '\n' ∉ field width n := fun hmem =>
  absurd (isBasicDigit_of_mem_field width n _ hmem) (by decide)

/-! ## Dates -/

theorem ofString_append (a b : String) :
    Text.ofString (a ++ b) = Text.ofString a ++ Text.ofString b := by
  rw [Text.ofString, String.toList_append, Text.ofChars, List.map_append]
  rfl

/-- The fields of a date, and what follows them. -/
def dateFields (d : Date) (rest : Text) : Text :=
  field 4 d.year ++ CodePoint.ofChar '-' ::
    (field 2 d.month ++ CodePoint.ofChar '-' :: (field 2 d.day ++ rest))

theorem ofString_padded (width n : Nat) : Text.ofString (padded width n) = field width n := rfl

theorem ofString_dateText (d : Date) : Text.ofString d.text = dateFields d [] := by
  have hhyphen : Text.ofString "-" = [CodePoint.ofChar '-'] := rfl
  simp only [Date.text, ofString_append, ofString_padded, hhyphen, dateFields, List.append_assoc,
    List.cons_append, List.nil_append, List.append_nil]

/-- A date is read field by field. -/
theorem read?_dateFields {d : Date} (h : d.IsValid) (rest : Text) :
    read? (dateFields d rest) =
      if rest.isEmpty then some ⟨field 4 d.year, field 2 d.month, field 2 d.day, none⟩
      else do
        let t ← cutGap? rest
        let clock ← readClock? t
        return ⟨field 4 d.year, field 2 d.month, field 2 d.day, some clock⟩ := by
  have hyear : d.year < 10 ^ 4 := Nat.lt_succ_of_le h.year.2
  have hmonth : d.month < 10 ^ 2 := Nat.lt_of_le_of_lt h.month.2 (by decide)
  have hday : d.day < 10 ^ 2 :=
    Nat.lt_of_le_of_lt (h.day.2.trans (Date.daysIn_le _ _)) (by decide)
  have hhyphen (t : Text) : cutChar? '-' (CodePoint.ofChar '-' :: t) = some t := rfl
  rw [read?, dateFields, cutDigits?_field _ _ (by decide) (by decide) hyear]
  dsimp only [bind, Option.bind]
  rw [hhyphen]
  dsimp only
  rw [cutDigits?_field _ _ (by decide) (by decide) hmonth]
  dsimp only
  rw [hhyphen]
  dsimp only
  rw [cutDigits?_field _ _ (by decide) (by decide) hday]
  rfl

/-- What a scalar of digits and marks ends in is no line feed. -/
theorem withoutFinalBreak_eq_self {t : Text} (h : CodePoint.ofChar '\n' ∉ t) :
    Tag.withoutFinalBreak t = t := by
  refine if_neg fun hlast => h (List.mem_of_getLast? hlast)

theorem notMem_dateFields (d : Date) {rest : Text} (h : CodePoint.ofChar '\n' ∉ rest) :
    CodePoint.ofChar '\n' ∉ dateFields d rest :=
  List.not_mem_append (notMem_field _ _) (List.not_mem_cons_of_ne_of_not_mem (by decide)
    (List.not_mem_append (notMem_field _ _) (List.not_mem_cons_of_ne_of_not_mem (by decide)
      (List.not_mem_append (notMem_field _ _) h))))

/-- A date is read from its text. -/
theorem readTime_date {d : Date} (h : d.IsValid) :
    Scalar.readTime (Text.ofString d.text) = .ok (.date d) := by
  rw [Scalar.readTime, ofString_dateText,
    withoutFinalBreak_eq_self (notMem_dateFields d List.not_mem_nil), read?_dateFields h,
    List.isEmpty_nil, if_pos rfl]
  dsimp only
  rw [toTime]
  dsimp only
  rw [decimal_field, decimal_field, decimal_field, h.ofFields]
  rfl

/-! ## Moments -/

/-- The microseconds behind the seconds, if there are any. -/
def fractionText (microsecond : Nat) : Text :=
  if microsecond = 0 then [] else CodePoint.ofChar '.' :: field 6 microsecond

/-- The offset behind the time of day, if it is known. -/
def zoneText : Option Int → Text
  | none => []
  | some minutes => CodePoint.ofChar (if minutes < 0 then '-' else '+') ::
      (field 2 (minutes.natAbs / 60) ++ CodePoint.ofChar ':' :: field 2 (minutes.natAbs % 60))

/-- The fields of a time of day. -/
def clockFields (m : Moment) : Text :=
  field 2 m.hour ++ CodePoint.ofChar ':' :: (field 2 m.minute ++ CodePoint.ofChar ':' ::
    (field 2 m.second ++ (fractionText m.microsecond ++ zoneText m.offset)))

theorem ofString_fraction (microsecond : Nat) :
    Text.ofString (if microsecond = 0 then "" else "." ++ padded 6 microsecond) =
      fractionText microsecond := by
  unfold fractionText
  split
  · rfl
  · have hpoint : Text.ofString "." = [CodePoint.ofChar '.'] := rfl
    rw [ofString_append, ofString_padded, hpoint, List.singleton_append]

theorem ofString_zone (offset : Option Int) :
    Text.ofString ((offset.map Moment.offsetText).getD "") = zoneText offset := by
  cases offset with
  | none => rfl
  | some minutes =>
    show Text.ofString (Moment.offsetText minutes) = _
    have hsign : Text.ofString (if minutes < 0 then "-" else "+") =
        [CodePoint.ofChar (if minutes < 0 then '-' else '+')] := by
      split <;> rfl
    have hcolon : Text.ofString ":" = [CodePoint.ofChar ':'] := rfl
    simp only [Moment.offsetText, ofString_append, ofString_padded, hsign, hcolon, zoneText,
      List.append_assoc, List.cons_append, List.nil_append]

theorem ofString_momentText (m : Moment) :
    Text.ofString (m.text " ") = dateFields m.date (CodePoint.ofChar ' ' :: clockFields m) := by
  have hblank : Text.ofString " " = [CodePoint.ofChar ' '] := rfl
  have hcolon : Text.ofString ":" = [CodePoint.ofChar ':'] := rfl
  simp only [Moment.text, ofString_append, ofString_fraction, ofString_zone, ofString_dateText,
    ofString_padded, hblank, hcolon, dateFields, clockFields, List.append_assoc, List.append_nil,
    List.cons_append, List.nil_append]

/-- The zone is read to the end of the text. -/
theorem readZone?_zoneText {offset : Option Int} (h : ∀ minutes ∈ offset, minutes.natAbs < 1440) :
    readZone? (zoneText offset) = some (offset.map fun minutes =>
      .offset (minutes < 0) (field 2 (minutes.natAbs / 60)) (field 2 (minutes.natAbs % 60))) := by
  cases offset with
  | none => rfl
  | some minutes =>
    have hbound := h minutes rfl
    have hcolon (t : Text) : cutChar? ':' (CodePoint.ofChar ':' :: t) = some t := rfl
    have hminutes := cutDigits?_field 2 2 (by decide) (by decide)
      (show minutes.natAbs % 60 < 10 ^ 2 by omega) []
    rw [List.append_nil] at hminutes
    have hhours := cutDigits?_field 1 2 (by decide) (by decide)
      (show minutes.natAbs / 60 < 10 ^ 2 by omega)
      (CodePoint.ofChar ':' :: field 2 (minutes.natAbs % 60))
    have hread {sign : CodePoint} (hgap : isGap sign = false) (hletter : ¬sign = 'Z')
        (hsign : (decide (sign = '+') || decide (sign = '-')) = true) :
        readZone? (sign :: (field 2 (minutes.natAbs / 60) ++
          CodePoint.ofChar ':' :: field 2 (minutes.natAbs % 60))) = some (some
            (.offset (sign = '-') (field 2 (minutes.natAbs / 60))
              (field 2 (minutes.natAbs % 60)))) := by
      rw [readZone?, List.isEmpty_cons, if_neg Bool.false_ne_true,
        List.dropWhile_cons_of_neg (Bool.eq_false_iff.1 hgap)]
      dsimp only
      rw [if_neg hletter, if_pos hsign]
      dsimp only [bind, Option.bind]
      rw [hhours]
      dsimp only
      rw [List.isEmpty_cons, if_neg Bool.false_ne_true, hcolon]
      dsimp only
      rw [hminutes]
      rfl
    rw [zoneText, Option.map_some]
    split
    · next hneg =>
      rw [hread rfl (by decide) (by decide), decide_eq_true hneg]
      rfl
    · next hpos =>
      rw [hread rfl (by decide) (by decide), decide_eq_false hpos]
      rfl

theorem zone_minutes (offset : Option Int) :
    (offset.map fun minutes => SpelledZone.offset (minutes < 0) (field 2 (minutes.natAbs / 60))
      (field 2 (minutes.natAbs % 60))).map SpelledZone.minutes = offset := by
  cases offset with
  | none => rfl
  | some minutes =>
    show some (SpelledZone.minutes _) = _
    rw [SpelledZone.minutes, decimal_field, decimal_field]
    rcases Int.lt_or_le minutes 0 with hneg | hnonneg
    · rw [decide_eq_true hneg, if_pos rfl]
      exact congrArg some (by omega)
    · rw [decide_eq_false (Int.not_lt.2 hnonneg), if_neg Bool.false_ne_true]
      exact congrArg some (by omega)

/-- The digits of a fraction. -/
def fractionDigits (microsecond : Nat) : Text :=
  if microsecond = 0 then [] else field 6 microsecond

theorem microseconds_fractionDigits {microsecond : Nat} (h : microsecond < 10 ^ 6) :
    microseconds (fractionDigits microsecond) = microsecond := by
  unfold fractionDigits microseconds
  split
  · next hzero =>
    rw [hzero]
    rfl
  · rw [List.take_left' (length_field (by decide) h), decimal_field]

theorem noDigit_zoneText (offset : Option Int) :
    ∀ c ∈ (zoneText offset).head?, c.isBasicDigit = false ∧ c ≠ CodePoint.ofChar '.' := by
  cases offset with
  | none => exact fun c hc => by cases hc
  | some minutes =>
    rintro c ⟨rfl⟩
    split <;> decide

/-- The fields of a time of day are read. -/
theorem readClock?_clockFields {m : Moment} (h : m.IsValid) :
    readClock? (clockFields m) = some ⟨field 2 m.hour, field 2 m.minute, field 2 m.second,
      fractionDigits m.microsecond, m.offset.map fun minutes =>
        .offset (minutes < 0) (field 2 (minutes.natAbs / 60)) (field 2 (minutes.natAbs % 60))⟩ := by
  have hhour : m.hour < 10 ^ 2 := Nat.lt_of_le_of_lt h.hour (by decide)
  have hminute : m.minute < 10 ^ 2 := Nat.lt_of_le_of_lt h.minute (by decide)
  have hsecond : m.second < 10 ^ 2 := Nat.lt_of_le_of_lt h.second (by decide)
  have hcolon (t : Text) : cutChar? ':' (CodePoint.ofChar ':' :: t) = some t := rfl
  rw [clockFields, readClock?, cutDigits?_field _ _ (by decide) (by decide) hhour]
  dsimp only [bind, Option.bind]
  rw [hcolon]
  dsimp only
  rw [cutDigits?_field _ _ (by decide) (by decide) hminute]
  dsimp only
  rw [hcolon]
  dsimp only
  rw [cutDigits?_field _ _ (by decide) (by decide) hsecond]
  dsimp only
  have hzones := noDigit_zoneText m.offset
  by_cases hzero : m.microsecond = 0
  · have hnone : cutChar? '.' (zoneText m.offset) = none := by
      cases hz : zoneText m.offset with
      | nil => rfl
      | cons c rest => exact if_neg (hzones c (by rw [hz]; rfl)).2
    rw [fractionText, fractionDigits, if_pos hzero, if_pos hzero, List.nil_append, hnone]
    dsimp only
    rw [readZone?_zoneText h.offset]
    rfl
  · have hpoint (t : Text) : cutChar? '.' (CodePoint.ofChar '.' :: t) = some t := rfl
    have hrest : ∀ c ∈ (zoneText m.offset).head?, c.isBasicDigit = false :=
      fun c hc => (hzones c hc).1
    rw [fractionText, fractionDigits, if_neg hzero, if_neg hzero, List.cons_append, hpoint]
    dsimp only
    rw [Text.takeWhile_run (isBasicDigit_of_mem_field _ _) hrest,
      Text.dropWhile_run (isBasicDigit_of_mem_field _ _) hrest, readZone?_zoneText h.offset]
    rfl

theorem notMem_clockFields (m : Moment) : CodePoint.ofChar '\n' ∉ clockFields m := by
  have hfraction : CodePoint.ofChar '\n' ∉ fractionText m.microsecond := by
    unfold fractionText
    split
    · exact List.not_mem_nil
    · exact List.not_mem_cons_of_ne_of_not_mem (by decide) (notMem_field _ _)
  have hzone : CodePoint.ofChar '\n' ∉ zoneText m.offset := by
    cases m.offset with
    | none => exact List.not_mem_nil
    | some minutes =>
      refine List.not_mem_cons_of_ne_of_not_mem (by split <;> decide)
        (List.not_mem_append (notMem_field _ _)
          (List.not_mem_cons_of_ne_of_not_mem (by decide) (notMem_field _ _)))
  exact List.not_mem_append (notMem_field _ _) (List.not_mem_cons_of_ne_of_not_mem (by decide)
    (List.not_mem_append (notMem_field _ _) (List.not_mem_cons_of_ne_of_not_mem (by decide)
      (List.not_mem_append (notMem_field _ _) (List.not_mem_append hfraction hzone)))))

/-- A moment is read from its text. -/
theorem readTime_moment {m : Moment} (h : m.IsValid) :
    Scalar.readTime (Text.ofString (m.text " ")) = .ok (.moment m) := by
  have hgap : cutGap? (CodePoint.ofChar ' ' :: clockFields m) = some (clockFields m) := by
    have hhead : ∀ c ∈ (clockFields m).head?, isGap c = false := by
      intro c hc
      have hlength : (field 2 m.hour).length = 2 :=
        length_field (by decide) (Nat.lt_of_le_of_lt h.hour (by decide))
      obtain ⟨digit, rest, hcons⟩ := List.exists_cons_of_ne_nil
        (List.ne_nil_of_length_pos (hlength ▸ Nat.zero_lt_two))
      rw [clockFields, hcons] at hc
      cases hc
      have hdigit := isBasicDigit_of_mem_field 2 m.hour c (by rw [hcons]; exact List.mem_cons_self)
      rw [isGap, decide_eq_false (CodePoint.ne_of_kind hdigit rfl),
        decide_eq_false (CodePoint.ne_of_kind hdigit rfl)]
      rfl
    show some ((clockFields m).dropWhile isGap) = _
    rw [Text.dropWhile_eq_self hhead]
  rw [Scalar.readTime, ofString_momentText, withoutFinalBreak_eq_self (notMem_dateFields m.date
    (List.not_mem_cons_of_ne_of_not_mem (by decide) (notMem_clockFields m))),
    read?_dateFields h.date, List.isEmpty_cons, if_neg Bool.false_ne_true, hgap]
  dsimp only [bind, Option.bind]
  rw [readClock?_clockFields h]
  dsimp only [pure]
  rw [toTime]
  dsimp only
  simp only [decimal_field, microseconds_fractionDigits h.microsecond, zone_minutes]
  rw [h.ofFields]
  rfl

end Yaml.SpelledTime

end SiteRules
