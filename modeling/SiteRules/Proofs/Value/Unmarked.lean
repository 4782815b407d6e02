import SiteRules.Proofs.OrderedMap
import SiteRules.Proofs.Value.Equality
import SiteRules.Value.Entries

/-!
# Values without marks

What a value says without telling which of its parts are one and the same (`Value.unmarked`). It is
equal to the value (`Value.same_unmarked`), so that it can stand for the value in a comparison. To
take the marks away from a mapping is the same before and after its entries have been put together
(`Value.unmarked_ofEntries`).
-/

namespace SiteRules.Value

mutual

/-- A value without the marks of its parts. -/
def unmarked : Value → Value
  | .shared _ v => unmarked v
  | .list items => .list (unmarkedAll items)
  | .tuple items => .tuple (unmarkedAll items)
  | .set items => .set (unmarkedAll items)
  | .map entries => .map (unmarkedEntries entries)
  | v => v

/-- The values of a list, without marks. -/
def unmarkedAll : List Value → List Value
  | [] => []
  | v :: rest => unmarked v :: unmarkedAll rest

/-- The entries of a list, without marks. -/
def unmarkedEntries : List (Value × Value) → List (Value × Value)
  | [] => []
  | (k, v) :: rest => (unmarked k, unmarked v) :: unmarkedEntries rest

end

theorem unmarkedAll_eq_map (vs : List Value) : unmarkedAll vs = vs.map unmarked := by
  induction vs with
  | nil => rfl
  | cons v rest ih => rw [unmarkedAll, ih, List.map_cons]

theorem unmarkedEntries_eq_map (entries : List (Value × Value)) :
    unmarkedEntries entries = entries.map (Prod.map unmarked unmarked) := by
  induction entries with
  | nil => rfl
  | cons e rest ih =>
    rw [unmarkedEntries, ih]
    rfl

/-! ## Equality -/

theorem SameMembers.of_map {α : Type} {R : α → α → Prop} {f : α → α} {as : List α}
    (h : ∀ a ∈ as, R (f a) a) : SameMembers R (as.map f) as := by
  refine ⟨List.length_map f, List.forall_mem_map.2 fun a ha => ⟨a, ha, h a ha⟩, fun a ha => ?_⟩
  exact ⟨f a, List.mem_map_of_mem ha, h a ha⟩

/-- A value is equal to what is left of it without marks. -/
theorem same_unmarked (v : Value) : same v.unmarked v = true := by
  induction v using induct_parts with | _ v ih
  cases v with
  | shared mark v =>
    rw [← same_content]
    exact (same_content v.unmarked v).trans (ih v List.mem_cons_self)
  | list items =>
    rw [unmarked, unmarkedAll_eq_map]
    exact same_list_iff.2 ⟨items, rfl, List.forall₂_map_left_iff.2 (List.forall₂_same.2 ih)⟩
  | tuple items =>
    rw [unmarked, unmarkedAll_eq_map]
    exact same_tuple_iff.2 ⟨items, rfl, List.forall₂_map_left_iff.2 (List.forall₂_same.2 ih)⟩
  | set items =>
    rw [unmarked, unmarkedAll_eq_map]
    exact same_set_iff.2 ⟨items, rfl, .of_map ih⟩
  | map entries =>
    rw [unmarked, unmarkedEntries_eq_map]
    exact same_map_iff.2 ⟨entries, rfl, .of_map fun entry h =>
      ⟨ih _ (key_mem_parts h), ih _ (value_mem_parts h)⟩⟩
  | _ => exact same_self _

theorem unmarked_beq (a b : Value) : (a.unmarked == b) = (a == b) :=
  BEq.congr_left (same_unmarked a)

theorem beq_unmarked (a b : Value) : (a == b.unmarked) = (a == b) :=
  BEq.congr_right (same_unmarked b)

/-! ## Mappings and sets from entries -/

theorem unmarked_beq_unmarked (a b : Value) : (a.unmarked == b.unmarked) = (a == b) := by
  rw [unmarked_beq, beq_unmarked]

theorem unmarked_ofEntries (entries : List (Value × Value)) :
    (ofEntries entries).unmarked = ofEntries (entries.map (Prod.map unmarked unmarked)) := by
  rw [ofEntries, unmarked, unmarkedEntries_eq_map,
    OrderedMap.map_entries_ofList unmarked_beq_unmarked, ofEntries]

theorem unmarked_ofMembers (members : List Value) :
    (ofMembers members).unmarked = ofMembers (members.map unmarked) := by
  rw [ofMembers, unmarked, unmarkedAll_eq_map,
    OrderedMap.map_keys_ofList unmarked_beq_unmarked id, List.map_map, ofMembers, List.map_map]
  rfl

end SiteRules.Value
