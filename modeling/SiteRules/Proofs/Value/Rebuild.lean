import SiteRules.Value.Rebuild

/-!
# Theory of rebuilding

Rebuilding takes the marks of containers away and fills in what stands for a collection inside
itself. It has nothing to do where there is neither: a value without such marks stays as it is,
however deep it is (`Value.rebuild_of_isTree`).
-/

namespace SiteRules.Value

mutual

/-- Whether a value has no marks but those of points in time. -/
def isTree : Value → Bool
  | .shared _ v => v.isTime
  | .cycle _ => false
  | .list items => areTrees items
  | .tuple items => areTrees items
  | .set items => areTrees items
  | .map entries => haveTrees entries
  | _ => true

/-- Whether the values of a list are trees. -/
def areTrees : List Value → Bool
  | [] => true
  | v :: rest => isTree v && areTrees rest

/-- Whether the values of the entries of a list are trees. -/
def haveTrees : List (Value × Value) → Bool
  | [] => true
  | (_, v) :: rest => isTree v && haveTrees rest

end

theorem areTrees_iff {vs : List Value} : areTrees vs = true ↔ ∀ v ∈ vs, v.isTree = true := by
  induction vs with
  | nil => simp [areTrees]
  | cons v rest ih => simp [areTrees, ih]

theorem haveTrees_iff {entries : List (Value × Value)} :
    haveTrees entries = true ↔ ∀ e ∈ entries, e.2.isTree = true := by
  induction entries with
  | nil => simp [haveTrees]
  | cons e rest ih => simp [haveTrees, ih]

theorem fill_of_isTime {v : Value} (h : v.isTime = true) (around : Mark → Value)
    (inside : List Mark) : fill around inside v = v := by
  cases v <;> first | rfl | cases h

section Fill

variable (around : Mark → Value) (inside : List Mark)

mutual

theorem fill_of_isTree : (v : Value) → v.isTree = true → fill around inside v = v
  | .shared mark v, h => congrArg (shared mark) (fill_of_isTime h around (mark :: inside))
  | .cycle _, h => by cases h
  | .list items, h => congrArg list (fillAll_of_areTrees items h)
  | .tuple items, h => congrArg tuple (fillAll_of_areTrees items h)
  | .map entries, h => congrArg map (fillEntries_of_haveTrees entries h)
  | .set _, _ => rfl
  | .null, _ => rfl
  | .bool _, _ | .int _, _ | .float _, _ | .text _, _ | .bytes _, _ => rfl
  | .date _, _ | .moment _, _ => rfl

theorem fillAll_of_areTrees : (vs : List Value) → areTrees vs = true → fillAll around inside vs = vs
  | [], _ => rfl
  | v :: rest, h => by
    rw [areTrees, Bool.and_eq_true] at h
    rw [fillAll, fill_of_isTree v h.1, fillAll_of_areTrees rest h.2]

theorem fillEntries_of_haveTrees : (entries : List (Value × Value)) → haveTrees entries = true →
    fillEntries around inside entries = entries
  | [], _ => rfl
  | (k, v) :: rest, h => by
    rw [haveTrees, Bool.and_eq_true] at h
    rw [fillEntries, fill_of_isTree v h.1, fillEntries_of_haveTrees rest h.2]

end

end Fill

section Rebuild

variable (around : List (Mark × Value))

mutual

theorem rebuildIn_of_isTree : (v : Value) → (depth : Nat) → v.isTree = true →
    rebuildIn around depth v = v
  | .shared mark v, depth, h => by
    have htime : v.isTime = true := h
    rw [rebuildIn, htime, Bool.or_true, if_pos rfl]
    exact fill_of_isTree _ _ (.shared mark v) h
  | .cycle _, _, h => by cases h
  | .list items, depth, h => by
    -- too deep, the collection is filled in as a whole, otherwise member by member
    rw [rebuildIn, fill_of_isTree _ _ (.list items) h, rebuildAll_of_areTrees items (depth - 1) h,
      ite_self]
  | .tuple items, depth, h => by
    rw [rebuildIn, fill_of_isTree _ _ (.tuple items) h, rebuildAll_of_areTrees items (depth - 1) h,
      ite_self]
  | .set items, depth, h => by rw [rebuildIn, rebuildAll_of_areTrees items (depth - 1) h, ite_self]
  | .map entries, depth, h => by
    rw [rebuildIn, fill_of_isTree _ _ (.map entries) h,
      rebuildEntries_of_haveTrees entries (depth - 1) h, ite_self]
  | .null, _, _ => rfl
  | .bool _, _, _ | .int _, _, _ | .float _, _, _ | .text _, _, _ | .bytes _, _, _ => rfl
  | .date _, _, _ | .moment _, _, _ => rfl

theorem rebuildAll_of_areTrees : (vs : List Value) → (depth : Nat) → areTrees vs = true →
    rebuildAll around depth vs = vs
  | [], _, _ => rfl
  | v :: rest, depth, h => by
    rw [areTrees, Bool.and_eq_true] at h
    rw [rebuildAll, rebuildIn_of_isTree v depth h.1, rebuildAll_of_areTrees rest depth h.2]

theorem rebuildEntries_of_haveTrees : (entries : List (Value × Value)) → (depth : Nat) →
    haveTrees entries = true → rebuildEntries around depth entries = entries
  | [], _, _ => rfl
  | (k, v) :: rest, depth, h => by
    rw [haveTrees, Bool.and_eq_true] at h
    rw [rebuildEntries, rebuildIn_of_isTree v depth h.1,
      rebuildEntries_of_haveTrees rest depth h.2]

end

end Rebuild

/-- A tree stays as it is. -/
theorem rebuild_of_isTree {v : Value} (h : v.isTree = true) : v.rebuild = v :=
  rebuildIn_of_isTree [] v maxRebuilt h

end SiteRules.Value
