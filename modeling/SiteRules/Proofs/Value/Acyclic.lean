import SiteRules.Proofs.Value.Spellable
import SiteRules.Proofs.Value.Unmarked

/-!
# Values without cycles

A value has no cycle if none of its parts stands inside itself (`Value.isAcyclic`). There is no
place then at which a collection around it is filled in, so that rebuilding the value takes marks
away and does nothing else (`Value.unmarked_rebuild`). It brings no cycle about
(`Value.isAcyclic_rebuild`), and what does not depend on marks is the same before and after.
-/

namespace SiteRules.Value

/-! ## Cycles -/

mutual

/-- Whether no part of a value stands inside itself; `around` are the marks of the parts that the
value is in. -/
def isAcyclicIn (around : List Mark) : Value → Bool
  | .shared mark v => !around.contains mark && isAcyclicIn (mark :: around) v
  | .cycle _ => false
  | .list items => areAcyclicIn around items
  | .tuple items => areAcyclicIn around items
  | .set items => areAcyclicIn around items
  | .map entries => haveAcyclicIn around entries
  | _ => true

/-- Whether the values of a list have no cycles. -/
def areAcyclicIn (around : List Mark) : List Value → Bool
  | [] => true
  | v :: rest => isAcyclicIn around v && areAcyclicIn around rest

/-- Whether the values of the entries of a list have no cycles. -/
def haveAcyclicIn (around : List Mark) : List (Value × Value) → Bool
  | [] => true
  | (_, v) :: rest => isAcyclicIn around v && haveAcyclicIn around rest

end

/-- Whether no part of a value stands inside itself. -/
def isAcyclic (v : Value) : Bool :=
  v.isAcyclicIn []

section Parts

variable {around : List Mark}

theorem areAcyclicIn_iff {vs : List Value} :
    areAcyclicIn around vs = true ↔ ∀ v ∈ vs, v.isAcyclicIn around = true := by
  induction vs with
  | nil => simp [areAcyclicIn]
  | cons v rest ih => simp [areAcyclicIn, ih]

theorem haveAcyclicIn_iff {entries : List (Value × Value)} :
    haveAcyclicIn around entries = true ↔ ∀ e ∈ entries, e.2.isAcyclicIn around = true := by
  induction entries with
  | nil => simp [haveAcyclicIn]
  | cons e rest ih => simp [haveAcyclicIn, ih]

theorem isAcyclicIn_shared {mark : Mark} {v : Value} :
    (shared mark v).isAcyclicIn around = true ↔
      mark ∉ around ∧ v.isAcyclicIn (mark :: around) = true := by
  rw [isAcyclicIn, Bool.and_eq_true, Bool.not_eq_true', ← Bool.not_eq_true, List.contains_iff_mem]

/-- With fewer parts around it there is no cycle either. -/
theorem isAcyclicIn_mono {v : Value} (h : v.isAcyclicIn around = true) {fewer : List Mark}
    (hsub : fewer ⊆ around) : v.isAcyclicIn fewer = true := by
  -- by the parts of the value, for all lists of marks: below a mark both lists have it in front
  induction v using induct_parts generalizing around fewer with | _ v ih
  cases v with
  | shared mark v =>
    obtain ⟨hmark, hv⟩ := isAcyclicIn_shared.1 h
    exact isAcyclicIn_shared.2 ⟨fun hmem => hmark (hsub hmem),
      ih v List.mem_cons_self hv (List.cons_subset_cons mark hsub)⟩
  | cycle mark => cases h
  | list items | tuple items | set items =>
    exact areAcyclicIn_iff.2 fun v hv => ih v hv (areAcyclicIn_iff.1 h v hv) hsub
  | map entries =>
    exact haveAcyclicIn_iff.2 fun e he =>
      ih e.2 (value_mem_parts he) (haveAcyclicIn_iff.1 h e he) hsub
  | _ => rfl

end Parts

/-! ## Values without marks -/

theorem unmarkedAll_map {f : Value → Value} {vs : List Value}
    (h : ∀ v ∈ vs, (f v).unmarked = v.unmarked) : unmarkedAll (vs.map f) = unmarkedAll vs := by
  induction vs with
  | nil => rfl
  | cons v rest ih =>
    obtain ⟨hv, hrest⟩ := List.forall_mem_cons.1 h
    rw [List.map_cons, unmarkedAll, unmarkedAll, hv, ih hrest]

theorem unmarkedEntries_map {f : Value → Value} {entries : List (Value × Value)}
    (h : ∀ e ∈ entries, (f e.2).unmarked = e.2.unmarked) :
    unmarkedEntries (entries.map fun e => (e.1, f e.2)) = unmarkedEntries entries := by
  induction entries with
  | nil => rfl
  | cons e rest ih =>
    obtain ⟨he, hrest⟩ := List.forall_mem_cons.1 h
    rw [List.map_cons, unmarkedEntries, unmarkedEntries, he, ih hrest]

mutual

/-- Marks do not count for how integers are spelled. -/
theorem isSpellable_unmarked : (v : Value) → v.unmarked.isSpellable = v.isSpellable
  | .shared _ v => isSpellable_unmarked v
  | .list items | .tuple items | .set items => areSpellable_unmarkedAll items
  | .map entries => areSpellableEntries_unmarkedEntries entries
  | .null | .bool _ | .int _ | .float _ | .text _ | .bytes _ | .date _ | .moment _ | .cycle _ => rfl

theorem areSpellable_unmarkedAll : (vs : List Value) →
    areSpellable (unmarkedAll vs) = areSpellable vs
  | [] => rfl
  | v :: rest => by
    rw [unmarkedAll, areSpellable, isSpellable_unmarked v, areSpellable_unmarkedAll rest,
      areSpellable]

theorem areSpellableEntries_unmarkedEntries : (entries : List (Value × Value)) →
    areSpellableEntries (unmarkedEntries entries) = areSpellableEntries entries
  | [] => rfl
  | (k, v) :: rest => by
    rw [unmarkedEntries, areSpellableEntries, isSpellable_unmarked k, isSpellable_unmarked v,
      areSpellableEntries_unmarkedEntries rest, areSpellableEntries]

end

/-! ## Rebuilding -/

/-- Nothing is filled in where no place stands for a collection around it. -/
theorem fill_of_isAcyclicIn {marks : List Mark} {v : Value} (h : v.isAcyclicIn marks = true)
    (around : Mark → Value) (inside : List Mark) : fill around inside v = v := by
  induction v using induct_parts generalizing marks inside with | _ v ih
  cases v with
  | shared mark v =>
    exact congrArg (shared mark) (ih v List.mem_cons_self (isAcyclicIn_shared.1 h).2 _)
  | cycle mark => cases h
  | list items | tuple items =>
    have hitems : ∀ v ∈ items, fill around inside v = v :=
      fun v hv => ih v hv (areAcyclicIn_iff.1 h v hv) inside
    rw [fill, fillAll_eq_map, List.map_congr_left hitems, List.map_id']
  | map entries =>
    have hentries : ∀ e ∈ entries, (e.1, fill around inside e.2) = e := fun e he =>
      congrArg (Prod.mk e.1) (ih e.2 (value_mem_parts he) (haveAcyclicIn_iff.1 h e he) inside)
    rw [fill, fillEntries_eq_map, List.map_congr_left hentries, List.map_id']
  | _ => rfl

/-- A value without cycles loses nothing but marks. -/
theorem unmarked_rebuildIn {marks : List Mark} {v : Value} (h : v.isAcyclicIn marks = true)
    (around : List (Mark × Value)) (depth : Nat) :
    (rebuildIn around depth v).unmarked = v.unmarked := by
  induction v using induct_parts generalizing marks around depth with | _ v ih
  -- at the greatest depth a value is not made anew but filled in, which changes nothing
  have hfill := fill_of_isAcyclicIn h (enclosing around) []
  cases v with
  | shared mark v =>
    rw [rebuildIn]
    split
    · rw [hfill]
    · exact ih v List.mem_cons_self (isAcyclicIn_shared.1 h).2 _ depth
  | cycle mark => cases h
  | list items =>
    rw [rebuildIn, rebuildAll_eq_map]
    split
    · rw [hfill]
    · exact congrArg list (unmarkedAll_map fun v hv => ih v hv (areAcyclicIn_iff.1 h v hv) _ _)
  | tuple items =>
    rw [rebuildIn, rebuildAll_eq_map]
    split
    · rw [hfill]
    · exact congrArg tuple (unmarkedAll_map fun v hv => ih v hv (areAcyclicIn_iff.1 h v hv) _ _)
  | set items =>
    rw [rebuildIn, rebuildAll_eq_map]
    split
    · rfl
    · exact congrArg set (unmarkedAll_map fun v hv => ih v hv (areAcyclicIn_iff.1 h v hv) _ _)
  | map entries =>
    rw [rebuildIn, rebuildEntries_eq_map]
    split
    · rw [hfill]
    · exact congrArg map (unmarkedEntries_map fun e he =>
        ih e.2 (value_mem_parts he) (haveAcyclicIn_iff.1 h e he) _ _)
  | _ => rfl

/-- Making containers anew puts none into itself. -/
theorem isAcyclicIn_rebuildIn {marks : List Mark} {v : Value} (h : v.isAcyclicIn marks = true)
    (around : List (Mark × Value)) (depth : Nat) :
    (rebuildIn around depth v).isAcyclicIn [] = true := by
  induction v using induct_parts generalizing marks around depth with | _ v ih
  -- the marks above are gone, so a value that is kept has to be without cycles on its own
  have hwhole : (fill (enclosing around) [] v).isAcyclicIn [] = true := by
    rw [fill_of_isAcyclicIn h]
    exact isAcyclicIn_mono h (List.nil_subset marks)
  cases v with
  | shared mark v =>
    rw [rebuildIn]
    split
    · exact hwhole
    · exact ih v List.mem_cons_self (isAcyclicIn_shared.1 h).2 _ depth
  | cycle mark => cases h
  | list items | tuple items | set items =>
    rw [rebuildIn, rebuildAll_eq_map]
    split
    · exact hwhole
    · exact areAcyclicIn_iff.2 (List.forall_mem_map.2 fun v hv =>
        ih v hv (areAcyclicIn_iff.1 h v hv) _ _)
  | map entries =>
    rw [rebuildIn, rebuildEntries_eq_map]
    split
    · exact hwhole
    · exact haveAcyclicIn_iff.2 (List.forall_mem_map.2 fun e he =>
        ih e.2 (value_mem_parts he) (haveAcyclicIn_iff.1 h e he) _ _)
  | _ => rfl

section Rebuild

variable {v : Value} (h : v.isAcyclic = true)

include h

theorem unmarked_rebuild : v.rebuild.unmarked = v.unmarked :=
  unmarked_rebuildIn h [] maxRebuilt

theorem isAcyclic_rebuild : v.rebuild.isAcyclic = true :=
  isAcyclicIn_rebuildIn h [] maxRebuilt

theorem isSpellable_rebuild : v.rebuild.isSpellable = v.isSpellable := by
  rw [← isSpellable_unmarked v.rebuild, unmarked_rebuild h, isSpellable_unmarked v]

end Rebuild

end SiteRules.Value
