import Mathlib.Data.List.Forall2
import SiteRules.Proofs.Number.Binary64
import SiteRules.Value.Equality

/-!
# Theory of equality of values

Marks do not count (`Value.same_content`), and the comparison is an equivalence: every value is
equal to itself (`Value.same_self`), whatever is in it, and equality is symmetric
(`Value.same_symm`) and transitive (`Value.same_trans`). The proofs go down to the parts of a value
(`Value.induct_parts`): a collection is compared part by part, where each member of a mapping or a
set looks for an equal one among the others.
-/

namespace SiteRules

/-! ## Numbers and times -/

theorem Binary64.same_self (x : Binary64) : x.same x = true := by
  cases x <;> simp [same]

theorem Binary64.same_comm (x y : Binary64) : x.same y = y.same x := by
  cases x <;> cases y <;> simp [same, eq_comm]

/-- Numbers that are equal as numbers have the same units, if they have any. -/
theorem Binary64.units?_eq_of_same {x y : Binary64} (h : x.same y = true) :
    x.units? = y.units? := by
  cases x <;> cases y
  case finite.finite => exact of_decide_eq_true h
  all_goals first | rfl | cases h

theorem Binary64.same_of_units? {x y : Binary64} {n : Int} (hx : x.units? = some n)
    (hy : y.units? = some n) : x.same y = true := by
  cases x <;> cases y
  case finite.finite => exact decide_eq_true (hx.trans hy.symm)
  all_goals first | cases hx | cases hy

theorem Binary64.same_trans {x y z : Binary64} (hxy : x.same y = true) (hyz : y.same z = true) :
    x.same z = true := by
  cases x <;> cases y <;> cases z <;> simp_all [same]

theorem Moment.same_self (m : Moment) : m.same m = true := by
  cases h : m.offset <;> simp [same, h]

theorem Moment.same_comm (m n : Moment) : m.same n = n.same m := by
  cases hm : m.offset <;> cases hn : n.offset <;> simp [same, hm, hn, eq_comm]

theorem Moment.same_trans {k m n : Moment} (hkm : k.same m = true) (hmn : m.same n = true) :
    k.same n = true := by
  cases hk : k.offset <;> cases hm : m.offset <;> cases hn : n.offset <;>
    simp_all [same]

namespace Value

/-! ## Parts -/

/-- The values that stand directly in a value. -/
def parts : Value → List Value
  | list items => items
  | tuple items => items
  | set items => items
  | map entries => entries.flatMap fun entry => [entry.1, entry.2]
  | shared _ v => [v]
  | _ => []

mutual

/-- What holds of a value whenever it holds of its parts holds of every value. -/
@[elab_as_elim]
theorem induct_parts {P : Value → Prop} (h : ∀ v, (∀ part ∈ v.parts, P part) → P v) :
    (v : Value) → P v
  | .list items => h _ (forall_mem_of_parts h items)
  | .tuple items => h _ (forall_mem_of_parts h items)
  | .set items => h _ (forall_mem_of_parts h items)
  | .map entries => h _ (forall_entries_of_parts h entries)
  | .shared _ v => h _ fun _ hpart => List.mem_singleton.1 hpart ▸ induct_parts h v
  | .null | .bool _ | .int _ | .float _ | .text _ | .bytes _ | .date _ | .moment _ | .cycle _ =>
    h _ fun _ hpart => absurd hpart List.not_mem_nil

theorem forall_mem_of_parts {P : Value → Prop} (h : ∀ v, (∀ part ∈ v.parts, P part) → P v) :
    (vs : List Value) → ∀ v ∈ vs, P v
  | [] => fun _ hv => absurd hv List.not_mem_nil
  | v :: rest => List.forall_mem_cons.2 ⟨induct_parts h v, forall_mem_of_parts h rest⟩

theorem forall_entries_of_parts {P : Value → Prop} (h : ∀ v, (∀ part ∈ v.parts, P part) → P v) :
    (entries : List (Value × Value)) → ∀ v ∈ entries.flatMap fun entry => [entry.1, entry.2], P v
  | [] => fun _ hv => absurd hv List.not_mem_nil
  | (k, v) :: rest => List.forall_mem_cons.2 ⟨induct_parts h k,
      List.forall_mem_cons.2 ⟨induct_parts h v, forall_entries_of_parts h rest⟩⟩

end

theorem key_mem_parts {entries : List (Value × Value)} {entry : Value × Value}
    (h : entry ∈ entries) : entry.1 ∈ (map entries).parts :=
  List.mem_flatMap.2 ⟨entry, h, List.mem_cons_self⟩

theorem value_mem_parts {entries : List (Value × Value)} {entry : Value × Value}
    (h : entry ∈ entries) : entry.2 ∈ (map entries).parts :=
  List.mem_flatMap.2 ⟨entry, h, List.mem_cons_of_mem _ List.mem_cons_self⟩

/-! ## Marks -/

theorem content_content (v : Value) : v.content.content = v.content := by
  induction v using content.induct with
  | case1 mark v ih => exact ih
  | case2 v h =>
    have hv : v.content = v := by
      cases v with
      | shared mark v => exact absurd rfl (h mark v)
      | _ => rfl
    rw [hv, hv]

theorem content_ne_shared (v : Value) (mark : Mark) (w : Value) : v.content ≠ shared mark w := by
  induction v using content.induct with
  | case1 mark v ih => exact ih
  | case2 v h =>
    cases v with
    | shared mark v => exact absurd rfl (h mark v)
    | _ => exact nofun

/-- Only what is under the marks of the second value counts. -/
theorem same_content (a b : Value) : same a b.content = same a b := by
  induction a using content.induct with
  | case1 mark a ih => exact ih
  | case2 a h =>
    cases a with
    | shared mark a => exact absurd rfl (h mark a)
    | _ => simp only [same, content_content]

/-- Only what is under the marks of the first value counts. -/
theorem content_same (a b : Value) : same a.content b = same a b := by
  induction a using content.induct with
  | case1 mark a ih => exact ih
  | case2 a h =>
    cases a with
    | shared mark a => exact absurd rfl (h mark a)
    | _ => rfl

/-! ## Members -/

theorem sameAll_cons (a b : Value) (as bs : List Value) :
    sameAll (a :: as) (b :: bs) = (same a b && sameAll as bs) :=
  rfl

theorem sameAll_iff {as bs : List Value} :
    sameAll as bs = true ↔ List.Forall₂ (fun a b => same a b = true) as bs := by
  induction as generalizing bs with
  | nil =>
    cases bs with
    | nil => exact iff_of_true rfl .nil
    | cons b bs => exact iff_of_false Bool.false_ne_true nofun
  | cons a as ih =>
    cases bs with
    | nil => exact iff_of_false Bool.false_ne_true nofun
    | cons b bs => rw [sameAll_cons, Bool.and_eq_true, ih, List.forall₂_cons]

theorem allAmong_cons (a : Value) (as bs : List Value) :
    allAmong (a :: as) bs = (bs.any (fun b => same a b) && allAmong as bs) :=
  rfl

theorem allAmong_iff {as bs : List Value} :
    allAmong as bs = true ↔ ∀ a ∈ as, ∃ b ∈ bs, same a b = true := by
  induction as with
  | nil => exact iff_of_true rfl (List.forall_mem_nil _)
  | cons a as ih => simp [allAmong_cons, ih]

theorem among_cons (a : Value) (as : List Value) (b : Value) :
    among (a :: as) b = (same a b || among as b) :=
  rfl

theorem among_iff {as : List Value} {b : Value} :
    among as b = true ↔ ∃ a ∈ as, same a b = true := by
  induction as with
  | nil => exact iff_of_false Bool.false_ne_true (by simp)
  | cons a as ih => simp [among_cons, ih]

/-- Whether two entries of mappings are equal. -/
def SameEntry (a b : Value × Value) : Prop :=
  same a.1 b.1 = true ∧ same a.2 b.2 = true

theorem allEntriesAmong_cons (k v : Value) (as bs : List (Value × Value)) :
    allEntriesAmong ((k, v) :: as) bs =
      (bs.any (fun entry => same k entry.1 && same v entry.2) && allEntriesAmong as bs) :=
  rfl

theorem allEntriesAmong_iff {as bs : List (Value × Value)} :
    allEntriesAmong as bs = true ↔ ∀ a ∈ as, ∃ b ∈ bs, SameEntry a b := by
  induction as with
  | nil => exact iff_of_true rfl (List.forall_mem_nil _)
  | cons a as ih =>
    obtain ⟨k, v⟩ := a
    simp [allEntriesAmong_cons, ih, SameEntry]

theorem entryAmong_cons (k v : Value) (as : List (Value × Value)) (b : Value × Value) :
    entryAmong ((k, v) :: as) b = (same k b.1 && same v b.2 || entryAmong as b) :=
  rfl

theorem entryAmong_iff {as : List (Value × Value)} {b : Value × Value} :
    entryAmong as b = true ↔ ∃ a ∈ as, SameEntry a b := by
  induction as with
  | nil => exact iff_of_false Bool.false_ne_true (by simp)
  | cons a as ih =>
    obtain ⟨k, v⟩ := a
    simp [entryAmong_cons, ih, SameEntry]

/-! ## Kinds of values -/

/-- Values that are equal to themselves only, marks aside. -/
def isPlain : Value → Bool
  | null | text _ | bytes _ | date _ | cycle _ => true
  | _ => false

/-- Values that count as numbers. -/
def isNumber : Value → Bool
  | bool _ | int _ | float _ => true
  | _ => false

theorem same_plain_iff {a b : Value} (ha : a.isPlain = true) :
    same a b = true ↔ b.content = a := by
  cases a
  case null | text | bytes | date | cycle =>
    cases hb : b.content <;> simp [same, hb, eq_comm]
  all_goals cases ha

theorem same_number {a : Value} (ha : a.isNumber = true) (b : Value) :
    same a b = sameNumber a.numeric b.content.numeric := by
  cases a
  case bool | int | float => rfl
  all_goals cases ha

theorem same_moment_iff {m : Moment} {b : Value} : same (.moment m) b = true ↔
    ∃ n, b.content = .moment n ∧ m.same n = true := by
  rw [← same_content]
  cases hb : b.content with
  | moment n =>
    show m.same n = true ↔ _
    simp
  | shared mark v => exact absurd hb (content_ne_shared b mark v)
  | _ => exact iff_of_false Bool.false_ne_true nofun

theorem same_list_iff {as : List Value} {b : Value} : same (.list as) b = true ↔
    ∃ bs, b.content = .list bs ∧ List.Forall₂ (fun x y => same x y = true) as bs := by
  rw [← same_content]
  cases hb : b.content with
  | list bs =>
    show sameAll as bs = true ↔ _
    simp [sameAll_iff]
  | shared mark v => exact absurd hb (content_ne_shared b mark v)
  | _ => exact iff_of_false Bool.false_ne_true nofun

theorem same_tuple_iff {as : List Value} {b : Value} : same (.tuple as) b = true ↔
    ∃ bs, b.content = .tuple bs ∧ List.Forall₂ (fun x y => same x y = true) as bs := by
  rw [← same_content]
  cases hb : b.content with
  | tuple bs =>
    show sameAll as bs = true ↔ _
    simp [sameAll_iff]
  | shared mark v => exact absurd hb (content_ne_shared b mark v)
  | _ => exact iff_of_false Bool.false_ne_true nofun

/-- Each member of either list has an equal one in the other list, which is as long. -/
def SameMembers {α : Type} (R : α → α → Prop) (as bs : List α) : Prop :=
  as.length = bs.length ∧ (∀ a ∈ as, ∃ b ∈ bs, R a b) ∧ ∀ b ∈ bs, ∃ a ∈ as, R a b

theorem same_set_iff {as : List Value} {b : Value} : same (.set as) b = true ↔
    ∃ bs, b.content = .set bs ∧ SameMembers (fun x y => same x y = true) as bs := by
  rw [← same_content]
  cases hb : b.content with
  | set bs =>
    show (as.length = bs.length && allAmong as bs && bs.all fun b => among as b) = true ↔ _
    simp [SameMembers, allAmong_iff, among_iff, and_assoc]
  | shared mark v => exact absurd hb (content_ne_shared b mark v)
  | _ => exact iff_of_false Bool.false_ne_true nofun

theorem same_map_iff {as : List (Value × Value)} {b : Value} : same (.map as) b = true ↔
    ∃ bs, b.content = .map bs ∧ SameMembers SameEntry as bs := by
  rw [← same_content]
  cases hb : b.content with
  | map bs =>
    show (as.length = bs.length && allEntriesAmong as bs &&
      bs.all fun b => entryAmong as b) = true ↔ _
    simp [SameMembers, allEntriesAmong_iff, entryAmong_iff, and_assoc]
  | shared mark v => exact absurd hb (content_ne_shared b mark v)
  | _ => exact iff_of_false Bool.false_ne_true nofun

/-! ## Numbers -/

theorem sameNumber_comm (a b : Value) : sameNumber a b = sameNumber b a := by
  cases a <;> cases b
  case float.float => exact Binary64.same_comm _ _
  case int.int => exact decide_eq_decide.2 eq_comm
  all_goals rfl

/-- A value that is equal to a number counts as one. -/
theorem isNumber_of_sameNumber {a b : Value} (h : sameNumber a b.numeric = true) :
    b.isNumber = true := by
  cases b <;> first | rfl | (cases a <;> cases h)

theorem sameNumber_trans {a b c : Value} (hab : sameNumber a b = true)
    (hbc : sameNumber b c = true) : sameNumber a c = true := by
  have hone : (Binary64.one : Int) ≠ 0 := Int.natCast_ne_zero.2 (Nat.ne_of_gt Binary64.one_pos)
  cases b with
  | int n =>
    cases a <;> cases c <;> simp only [sameNumber, decide_eq_true_eq, Bool.false_eq_true] at *
    · exact hab.trans hbc
    · rw [hab, hbc]
    · rw [← hbc, hab]
    · exact Binary64.same_of_units? hab hbc
  | float x =>
    cases a <;> cases c <;> simp only [sameNumber, decide_eq_true_eq, Bool.false_eq_true] at *
    · exact Int.eq_of_mul_eq_mul_right hone (Option.some.inj (hab.symm.trans hbc))
    · rw [← Binary64.units?_eq_of_same hbc, hab]
    · rw [Binary64.units?_eq_of_same hab, hbc]
    · exact Binary64.same_trans hab hbc
  | _ => cases a <;> cases hab

/-! ## Equivalence -/

/-- A relation that is reflexive for each member of a list is so for the list. -/
theorem SameMembers.refl {α : Type} {R : α → α → Prop} {as : List α} (h : ∀ a ∈ as, R a a) :
    SameMembers R as as :=
  ⟨rfl, fun a ha => ⟨a, ha, h a ha⟩, fun a ha => ⟨a, ha, h a ha⟩⟩

theorem SameMembers.symm {α : Type} {R : α → α → Prop} {as bs : List α} (h : SameMembers R as bs)
    (symm : ∀ a ∈ as, ∀ b, R a b → R b a) : SameMembers R bs as := by
  obtain ⟨hlength, hforth, hback⟩ := h
  refine ⟨hlength.symm, fun b hb => ?_, fun a ha => ?_⟩
  · obtain ⟨a, ha, hab⟩ := hback b hb
    exact ⟨a, ha, symm a ha b hab⟩
  · obtain ⟨b, hb, hab⟩ := hforth a ha
    exact ⟨b, hb, symm a ha b hab⟩

theorem SameMembers.trans {α : Type} {R : α → α → Prop} {as bs cs : List α}
    (hab : SameMembers R as bs) (hbc : SameMembers R bs cs)
    (trans : ∀ a ∈ as, ∀ b c, R a b → R b c → R a c) : SameMembers R as cs := by
  obtain ⟨hlength, hforth, hback⟩ := hab
  obtain ⟨hlength', hforth', hback'⟩ := hbc
  refine ⟨hlength.trans hlength', fun a ha => ?_, fun c hc => ?_⟩
  · obtain ⟨b, hb, hab⟩ := hforth a ha
    obtain ⟨c, hc, hbc⟩ := hforth' b hb
    exact ⟨c, hc, trans a ha b c hab hbc⟩
  · obtain ⟨b, hb, hbc⟩ := hback' c hc
    obtain ⟨a, ha, hab⟩ := hback b hb
    exact ⟨a, ha, trans a ha b c hab hbc⟩

theorem forall₂_symm {α : Type} {R : α → α → Prop} {as bs : List α} (h : List.Forall₂ R as bs)
    (symm : ∀ a ∈ as, ∀ b, R a b → R b a) : List.Forall₂ R bs as := by
  induction h with
  | nil => exact .nil
  | cons hab _ ih =>
    obtain ⟨ha, has⟩ := List.forall_mem_cons.1 symm
    exact .cons (ha _ hab) (ih has)

theorem forall₂_trans {α : Type} {R : α → α → Prop} {as bs cs : List α}
    (hab : List.Forall₂ R as bs) (hbc : List.Forall₂ R bs cs)
    (trans : ∀ a ∈ as, ∀ b c, R a b → R b c → R a c) : List.Forall₂ R as cs := by
  induction hab generalizing cs with
  | nil => exact hbc
  | cons hab _ ih =>
    obtain ⟨ha, has⟩ := List.forall_mem_cons.1 trans
    cases hbc with
    | cons hbc hrest => exact .cons (ha _ _ hab hbc) (ih hrest has)

/-- A value is equal to itself. -/
theorem same_self (v : Value) : same v v = true := by
  induction v using induct_parts with | _ v ih
  cases v with
  | shared mark v =>
    rw [← same_content]
    exact (same_content v v).trans (ih v List.mem_cons_self)
  | list items => exact same_list_iff.2 ⟨items, rfl, List.forall₂_same.2 ih⟩
  | tuple items => exact same_tuple_iff.2 ⟨items, rfl, List.forall₂_same.2 ih⟩
  | set items => exact same_set_iff.2 ⟨items, rfl, .refl ih⟩
  | map entries =>
    exact same_map_iff.2 ⟨entries, rfl, .refl fun entry h =>
      ⟨ih _ (key_mem_parts h), ih _ (value_mem_parts h)⟩⟩
  | float x => exact Binary64.same_self x
  | moment m => exact Moment.same_self m
  | bool _ | int _ => exact decide_eq_true rfl
  | null | text _ | bytes _ | date _ | cycle _ => exact (same_plain_iff rfl).2 rfl

/-- Equality does not depend on which value comes first. -/
theorem same_symm {a b : Value} (h : same a b = true) : same b a = true := by
  induction a using induct_parts generalizing b with | _ a ih
  rw [← content_same]
  cases a with
  | shared mark a =>
    rw [content_same, ← same_content]
    exact (same_content b a).trans (ih a List.mem_cons_self h)
  | list as =>
    obtain ⟨bs, hb, hall⟩ := same_list_iff.1 h
    rw [hb]
    exact same_list_iff.2 ⟨as, rfl, forall₂_symm hall fun a ha b => ih a ha⟩
  | tuple as =>
    obtain ⟨bs, hb, hall⟩ := same_tuple_iff.1 h
    rw [hb]
    exact same_tuple_iff.2 ⟨as, rfl, forall₂_symm hall fun a ha b => ih a ha⟩
  | set as =>
    obtain ⟨bs, hb, hall⟩ := same_set_iff.1 h
    rw [hb]
    exact same_set_iff.2 ⟨as, rfl, hall.symm fun a ha b => ih a ha⟩
  | map as =>
    obtain ⟨bs, hb, hall⟩ := same_map_iff.1 h
    rw [hb]
    exact same_map_iff.2 ⟨as, rfl, hall.symm fun a ha b hab =>
      ⟨ih _ (key_mem_parts ha) hab.1, ih _ (value_mem_parts ha) hab.2⟩⟩
  | moment m =>
    obtain ⟨n, hb, hmn⟩ := same_moment_iff.1 h
    rw [hb]
    exact same_moment_iff.2 ⟨m, rfl, (Moment.same_comm n m).trans hmn⟩
  | bool _ | int _ | float _ =>
    rw [same_number rfl] at h
    rw [same_number (isNumber_of_sameNumber h), sameNumber_comm]
    exact h
  | null | text _ | bytes _ | date _ | cycle _ =>
    rw [(same_plain_iff rfl).1 h]
    exact same_self _

/-- Values that are equal to the same value are equal. -/
theorem same_trans {a b c : Value} (hab : same a b = true) (hbc : same b c = true) :
    same a c = true := by
  induction a using induct_parts generalizing b c with | _ a ih
  rw [← content_same] at hbc
  cases a with
  | shared mark a => exact ih a List.mem_cons_self hab ((content_same b c).symm.trans hbc)
  | list as =>
    obtain ⟨bs, hb, hall⟩ := same_list_iff.1 hab
    rw [hb] at hbc
    obtain ⟨cs, hc, hall'⟩ := same_list_iff.1 hbc
    exact same_list_iff.2 ⟨cs, hc, forall₂_trans hall hall' fun a ha b c => ih a ha⟩
  | tuple as =>
    obtain ⟨bs, hb, hall⟩ := same_tuple_iff.1 hab
    rw [hb] at hbc
    obtain ⟨cs, hc, hall'⟩ := same_tuple_iff.1 hbc
    exact same_tuple_iff.2 ⟨cs, hc, forall₂_trans hall hall' fun a ha b c => ih a ha⟩
  | set as =>
    obtain ⟨bs, hb, hall⟩ := same_set_iff.1 hab
    rw [hb] at hbc
    obtain ⟨cs, hc, hall'⟩ := same_set_iff.1 hbc
    exact same_set_iff.2 ⟨cs, hc, hall.trans hall' fun a ha b c => ih a ha⟩
  | map as =>
    obtain ⟨bs, hb, hall⟩ := same_map_iff.1 hab
    rw [hb] at hbc
    obtain ⟨cs, hc, hall'⟩ := same_map_iff.1 hbc
    exact same_map_iff.2 ⟨cs, hc, hall.trans hall' fun a ha b c hab hbc =>
      ⟨ih _ (key_mem_parts ha) hab.1 hbc.1, ih _ (value_mem_parts ha) hab.2 hbc.2⟩⟩
  | moment m =>
    obtain ⟨n, hb, hmn⟩ := same_moment_iff.1 hab
    rw [hb] at hbc
    obtain ⟨k, hc, hnk⟩ := same_moment_iff.1 hbc
    exact same_moment_iff.2 ⟨k, hc, Moment.same_trans hmn hnk⟩
  | bool _ | int _ | float _ =>
    rw [same_number rfl] at hab ⊢
    rw [same_number (isNumber_of_sameNumber hab)] at hbc
    exact sameNumber_trans hab hbc
  | null | text _ | bytes _ | date _ | cycle _ =>
    rwa [(same_plain_iff rfl).1 hab] at hbc

instance : EquivBEq Value where
  rfl := same_self _
  symm := same_symm
  trans := same_trans

end Value

end SiteRules
