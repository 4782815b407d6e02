import SiteRules.Proofs.Except
import SiteRules.Proofs.Number.Binary64
import SiteRules.Proofs.Text.Lower
import SiteRules.Yaml.Scalar

/-!
# Scalars that do not fit their kind

A scalar whose kind is given by a tag need not be of that kind at all (`Misfit`). Apart from these,
a scalar is read, or it breaks a rule of its kind (`read_spec`).
-/

namespace SiteRules.Yaml

/-- A fault that names the rule which a text breaks. -/
def Fault.IsRule : Fault → Prop
  | .malformed | .number _ | .calendar _ => True
  | _ => False

/-- A reader breaks a rule or ends in one of some other faults, or it gives a value. -/
abbrev Reads (P : Fault → Prop) {α : Type} : Except Fault α → Prop :=
  EndsIn (fun fault => fault.IsRule ∨ P fault) fun _ => True

namespace Reads

variable {P Q : Fault → Prop} {α β : Type} {x : Except Fault α}

theorem of_rule (h : EndsIn Fault.IsRule (fun _ => True) x) : Reads P x :=
  h.weaken fun _ => .inl

theorem imp (h : Reads P x) (hPQ : ∀ fault, P fault → Q fault) : Reads Q x :=
  h.weaken fun fault => .imp_right (hPQ fault)

theorem bind {f : α → Except Fault β} (h : Reads P x) (hf : ∀ a, Reads P (f a)) :
    Reads P (x >>= f) :=
  EndsIn.bind h fun a _ => hf a

end Reads

namespace Scalar

/-- How many places in sixtieths a floating-point number can have. -/
def maxPlaces : Nat := 174

/-- A scalar is not of the kind that it is marked as: no truth value, no digits for a number, more
places than a floating-point number can have, no point in time. -/
inductive Misfit : Tag → Text → Fault → Prop
  | boolean {t : Text} (h : booleans.lookup t.lower = none) : Misfit .bool t (.notABoolean t.lower)
  | integer {t : Text} (h : Tag.unsigned (dropUnderscores t) = []) : Misfit .int t .noDigits
  | float {t : Text} (h : dropUnderscores t = []) : Misfit .float t .noDigits
  | places {t : Text}
      (h : maxPlaces < ((Tag.unsigned (dropUnderscores t).lower).splitAt ':').length) :
      Misfit .float t .placeOverflow
  | time {t : Text} (h : SpelledTime.read? (Tag.withoutFinalBreak t) = none) :
      Misfit .timestamp t .notATime

/-! ## Integers -/

theorem cutSign_spec (t : Text) : EndsIn (fun fault => fault = .noDigits ∧ t = [])
    (fun signed => signed.2 = Tag.unsigned t) (cutSign t) := by
  cases t with
  | nil => exact ⟨rfl, rfl⟩
  | cons c rest =>
    rw [cutSign, Tag.unsigned]
    by_cases hminus : c = '-'
    · rw [if_pos hminus, if_pos (Bool.or_eq_true_iff.2 (.inl (decide_eq_true hminus)))]
      exact rfl
    · rw [if_neg hminus, decide_eq_false hminus, Bool.false_or]
      by_cases hplus : c = '+'
      · rw [if_pos hplus, if_pos (decide_eq_true hplus)]
        exact rfl
      · rw [if_neg hplus, if_neg (Bool.not_eq_true _ ▸ decide_eq_false hplus)]
        exact rfl

theorem integer_spec (base : Nat) (t : Text) :
    EndsIn Fault.IsRule (fun _ => True) (integer base t) := by
  rw [integer]
  cases Literal.readInt base t <;> exact trivial

theorem readSixtieths_spec (t : Text) :
    EndsIn Fault.IsRule (fun _ => True) (readSixtieths t) :=
  (EndsIn.mapM fun part _ => integer_spec 10 part).bind fun _ _ => trivial

theorem readUnsigned_spec (t : Text) :
    Reads (fun fault => fault = .noDigits ∧ t = []) (readUnsigned t) := by
  have hinteger := fun base part => Reads.of_rule (P := fun fault => fault = .noDigits ∧ t = [])
    (integer_spec base part)
  unfold readUnsigned
  split
  · exact .inr ⟨rfl, rfl⟩
  · refine .ite (fun _ => ?_) fun _ =>
      .ite (fun _ => Reads.of_rule (readSixtieths_spec _)) fun _ => hinteger 10 _
    split
    · exact trivial
    · exact .ite (fun _ => hinteger 2 _) fun _ => .ite (fun _ => hinteger 16 _) fun _ =>
        hinteger 8 _

theorem readInteger_spec (content : Text) :
    Reads (Misfit .int content) (readInteger content) := by
  refine EndsIn.bind (V := fun signed => signed.2 = Tag.unsigned (dropUnderscores content))
    ((cutSign_spec _).weaken ?_) fun signed hsigned => ?_
  · rintro _ ⟨rfl, hempty⟩
    exact .inr (.integer (by rw [hempty]; rfl))
  · refine ((readUnsigned_spec signed.2).imp ?_).bind fun _ => trivial
    rintro _ ⟨rfl, hempty⟩
    exact .integer (hsigned ▸ hempty)

/-! ## Floating-point numbers -/

/-- Parts in sixtieths are added up unless the place of one of them is past the format. -/
theorem addSixtieths_spec (place : Nat) (parts : List Binary64) (sum : Binary64) :
    EndsIn (fun fault => fault = .placeOverflow ∧ 2 ^ 1023 * 60 ≤ place * 60 ^ parts.length)
      (fun _ => True) (addSixtieths place parts sum) := by
  induction parts generalizing place sum with
  | nil => exact trivial
  | cons x rest ih =>
    rw [addSixtieths]
    split
    · next hscale =>
      refine ⟨rfl, ?_⟩
      have hplace := Binary64.le_of_scale?_eq_none hscale
      calc 2 ^ 1023 * 60 ≤ place * 60 := Nat.mul_le_mul_right 60 hplace
        _ ≤ place * 60 * 60 ^ rest.length := Nat.le_mul_of_pos_right _ (Nat.pow_pos (by decide))
        _ = place * 60 ^ (x :: rest).length := by
          rw [List.length_cons, Nat.pow_succ', Nat.mul_assoc]
    · refine (ih (60 * place) _).weaken ?_
      rintro _ ⟨rfl, hle⟩
      refine ⟨rfl, hle.trans_eq ?_⟩
      rw [List.length_cons, Nat.pow_succ', Nat.mul_comm 60, Nat.mul_assoc]

theorem maxPlaces_lt {k : Nat} (h : 2 ^ 1023 * 60 ≤ 60 ^ k) : maxPlaces < k := by
  by_contra hle
  have hpow : 60 ^ k ≤ 60 ^ maxPlaces := Nat.pow_le_pow_right (by decide) (Nat.not_lt.1 hle)
  have hlt : 60 ^ maxPlaces < 2 ^ 1023 * 60 := by decide +kernel
  exact absurd (h.trans hpow) (Nat.not_le.2 hlt)

/-- A number is read if its parts are, unless it has too many of them. -/
theorem readUnsignedFloat_spec {E : Fault → Prop} (own : Nat) {t : Text}
    (hread : ∀ part ∈ t.splitAt ':',
      EndsIn E (fun _ => True) ((Literal.readFloat part).mapError Fault.number)) :
    EndsIn (fun fault => E fault ∨ fault = .placeOverflow ∧ maxPlaces < (t.splitAt ':').length)
      (fun _ => True) (readUnsignedFloat own t) := by
  rw [readUnsignedFloat]
  refine .ite (fun _ => trivial) fun _ => .ite (fun _ => trivial) fun _ => .ite (fun _ => ?_)
    fun hwhole => ?_
  · refine ((EndsIn.mapM hread).weaken fun _ => .inl).bind fun parts hlength => EndsIn.bind
      ((addSixtieths_spec 1 _ _).weaken ?_) fun _ _ => trivial
    rintro _ ⟨rfl, hle⟩
    rw [Nat.one_mul, List.length_reverse, hlength] at hle
    exact .inr ⟨rfl, maxPlaces_lt hle⟩
  · have hself : t.splitAt ':' = [t] :=
      Text.splitAt_eq_self (Text.any_eq_false_iff.1 (Bool.not_eq_true _ ▸ hwhole))
    rw [hself, List.forall_mem_singleton] at hread
    exact (hread.weaken fun _ => .inl).bind fun _ _ => trivial

theorem readFloat_spec (own : Nat) (content : Text) :
    Reads (Misfit .float content) (readFloat own content) := by
  refine EndsIn.bind (V := fun signed => signed.2 = Tag.unsigned (dropUnderscores content).lower)
    ((cutSign_spec _).weaken ?_) fun signed hsigned => ?_
  · rintro _ ⟨rfl, hempty⟩
    exact .inr (.float (by_contra fun hne => Text.lower_ne_nil hne hempty))
  · have hread : ∀ part : Text,
        EndsIn Fault.IsRule (fun _ => True) ((Literal.readFloat part).mapError Fault.number) := by
      intro part
      cases Literal.readFloat part <;> exact trivial
    refine Reads.bind (Reads.imp (readUnsignedFloat_spec own fun part _ => hread part) ?_)
      fun _ => trivial
    rintro _ ⟨rfl, hmany⟩
    exact .places (hsigned ▸ hmany)

/-! ## Every kind -/

/-- A scalar is read, or it breaks a rule of its kind, or it is not of its kind at all. -/
theorem read_spec (tag : Tag) (number : Nat) (content : Text) :
    Reads (Misfit tag content) (read tag number content) := by
  cases tag with
  | null => exact trivial
  | str => exact trivial
  | int => exact readInteger_spec content
  | float => exact readFloat_spec _ content
  | bool =>
    show Reads _ (readBoolean content)
    rw [readBoolean]
    split
    · exact trivial
    · next hlookup => exact .inr (.boolean hlookup)
  | binary =>
    show Reads _ (readBytes content)
    rw [readBytes]
    refine .ite (fun _ => ?_) fun _ => .inl trivial
    split
    · exact trivial
    · exact .inl trivial
  | timestamp =>
    show Reads _ (readTime content)
    rw [readTime]
    split
    · next hread => exact .inr (.time hread)
    · split
      · exact .inl trivial
      · exact trivial
      · exact trivial
  | _ => exact .inl trivial

end Scalar

end SiteRules.Yaml
