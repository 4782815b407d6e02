import SiteRules.Json.Writer
import SiteRules.Proofs.Except
import SiteRules.Proofs.Value.Equality
import SiteRules.Value.Rebuild
import SiteRules.Value.Show
import SiteRules.Yaml.Writer

/-!
# Values that can be spelled

An integer with too many digits is not spelled, and neither is a value that has one in it. Both
writers refuse such values (`Json.isSpellable_of_write`, `Yaml.isSpellable_of_write`), and a value
that has been rebuilt has all the integers of the value before (`Value.isSpellable_of_rebuild`). So
what has been saved can also be shown.
-/

namespace SiteRules

namespace Value

/-! ## Parts -/

theorem areSpellable_iff {vs : List Value} :
    areSpellable vs = true ↔ ∀ v ∈ vs, v.isSpellable = true := by
  induction vs with
  | nil => simp [areSpellable]
  | cons v rest ih => simp [areSpellable, ih]

theorem areSpellableEntries_iff {entries : List (Value × Value)} :
    areSpellableEntries entries = true ↔
      ∀ e ∈ entries, e.1.isSpellable = true ∧ e.2.isSpellable = true := by
  induction entries with
  | nil => simp [areSpellableEntries]
  | cons e rest ih =>
    obtain ⟨k, v⟩ := e
    simp [areSpellableEntries, ih, and_assoc]

theorem isSpellable_content (v : Value) : v.content.isSpellable = v.isSpellable := by
  induction v using content.induct with
  | case1 mark v ih => exact ih
  | case2 v h =>
    cases v with
    | shared mark v => exact absurd rfl (h mark v)
    | _ => rfl

/-! ## Rebuilding -/

theorem fillAll_eq_map (around : Mark → Value) (inside : List Mark) (vs : List Value) :
    fillAll around inside vs = vs.map (fill around inside) := by
  induction vs with
  | nil => rfl
  | cons v rest ih => rw [fillAll, ih, List.map_cons]

theorem fillEntries_eq_map (around : Mark → Value) (inside : List Mark)
    (entries : List (Value × Value)) :
    fillEntries around inside entries = entries.map fun e => (e.1, fill around inside e.2) := by
  induction entries with
  | nil => rfl
  | cons e rest ih => rw [fillEntries, ih, List.map_cons]

theorem rebuildAll_eq_map (around : List (Mark × Value)) (depth : Nat) (vs : List Value) :
    rebuildAll around depth vs = vs.map (rebuildIn around depth) := by
  induction vs with
  | nil => rfl
  | cons v rest ih => rw [rebuildAll, ih, List.map_cons]

theorem rebuildEntries_eq_map (around : List (Mark × Value)) (depth : Nat)
    (entries : List (Value × Value)) :
    rebuildEntries around depth entries =
      entries.map fun e => (e.1, rebuildIn around depth e.2) := by
  induction entries with
  | nil => rfl
  | cons e rest ih => rw [rebuildEntries, ih, List.map_cons]

theorem areSpellable_of_map {f : Value → Value} {vs : List Value}
    (hf : ∀ v ∈ vs, (f v).isSpellable = true → v.isSpellable = true)
    (h : areSpellable (vs.map f) = true) : areSpellable vs = true := by
  rw [areSpellable_iff] at h ⊢
  intro v hv
  exact hf v hv (h _ (List.mem_map_of_mem hv))

theorem areSpellableEntries_of_map {f : Value → Value} {entries : List (Value × Value)}
    (hf : ∀ e ∈ entries, (f e.2).isSpellable = true → e.2.isSpellable = true)
    (h : areSpellableEntries (entries.map fun e => (e.1, f e.2)) = true) :
    areSpellableEntries entries = true := by
  rw [areSpellableEntries_iff] at h ⊢
  intro e he
  obtain ⟨hkey, hvalue⟩ := h _ (List.mem_map_of_mem he)
  exact ⟨hkey, hf e he hvalue⟩

/-- What is filled in stands only where there was no integer. -/
theorem isSpellable_of_fill {around : Mark → Value} {inside : List Mark} {v : Value}
    (h : (fill around inside v).isSpellable = true) : v.isSpellable = true := by
  induction v using induct_parts generalizing inside with | _ v ih
  cases v with
  | shared mark v => exact ih v List.mem_cons_self h
  | list items =>
    rw [fill, fillAll_eq_map] at h
    exact areSpellable_of_map (fun v hv => ih v hv) h
  | tuple items =>
    rw [fill, fillAll_eq_map] at h
    exact areSpellable_of_map (fun v hv => ih v hv) h
  | map entries =>
    rw [fill, fillEntries_eq_map] at h
    exact areSpellableEntries_of_map (fun e he => ih _ (value_mem_parts he)) h
  | cycle mark => rfl
  | _ => exact h

theorem isSpellable_of_rebuildIn {around : List (Mark × Value)} {depth : Nat} {v : Value}
    (h : (rebuildIn around depth v).isSpellable = true) : v.isSpellable = true := by
  induction v using induct_parts generalizing around depth with | _ v ih
  cases v with
  | shared mark v =>
    rw [rebuildIn] at h
    split at h
    · exact isSpellable_of_fill h
    · exact ih v List.mem_cons_self h
  | list items =>
    rw [rebuildIn, rebuildAll_eq_map] at h
    split at h
    · exact isSpellable_of_fill h
    · exact areSpellable_of_map (fun v hv => ih v hv) h
  | tuple items =>
    rw [rebuildIn, rebuildAll_eq_map] at h
    split at h
    · exact isSpellable_of_fill h
    · exact areSpellable_of_map (fun v hv => ih v hv) h
  | set items =>
    rw [rebuildIn, rebuildAll_eq_map] at h
    split at h
    · exact h
    · exact areSpellable_of_map (fun v hv => ih v hv) h
  | map entries =>
    rw [rebuildIn, rebuildEntries_eq_map] at h
    split at h
    · exact isSpellable_of_fill h
    · exact areSpellableEntries_of_map (fun e he => ih _ (value_mem_parts he)) h
  | cycle mark => rfl
  | _ => exact h

theorem isSpellable_of_rebuild {v : Value} (h : v.rebuild.isSpellable = true) :
    v.isSpellable = true :=
  isSpellable_of_rebuildIn h

end Value

/-! ## Writers -/

namespace Json

/-- Of two lists that correspond, each member of the second one has its counterpart. -/
theorem exists_left_of_forall₂ {α β : Type} {R : α → β → Prop} {as : List α} {bs : List β}
    (h : List.Forall₂ R as bs) : ∀ b ∈ bs, ∃ a ∈ as, R a b := by
  induction h with
  | nil => exact fun _ hb => absurd hb List.not_mem_nil
  | cons hab _ ih =>
    refine List.forall_mem_cons.2 ⟨⟨_, List.mem_cons_self, hab⟩, fun b hb => ?_⟩
    obtain ⟨a, ha, hr⟩ := ih b hb
    exact ⟨a, List.mem_cons_of_mem _ ha, hr⟩

theorem isSpellable_of_integerText {n : Int} {text : String} (h : integerText n = .ok text) :
    Literal.isSpellable n = true := by
  unfold integerText at h
  split at h
  · next hn => exact hn
  · cases h

theorem isSpellable_of_writeName {key : Value} {text : Text} (h : writeName key = .ok text) :
    key.isSpellable = true := by
  rw [← Value.isSpellable_content]
  unfold writeName at h
  split at h
  · next heq => rw [heq]; rfl
  · next heq => rw [heq]; rfl
  · next heq => rw [heq]; rfl
  · next n heq =>
    obtain ⟨name, hname, -⟩ := bind_eq_ok_iff.1 h
    rw [heq]
    exact isSpellable_of_integerText hname
  · next heq => rw [heq]; rfl
  · cases h

/-- The items of a list are written one by one. -/
theorem forall₂_of_writeItems {around : List Mark} {level : Nat} {vs : List Value}
    {lines : List Text} (h : writeItems around level vs = .ok lines) :
    List.Forall₂ (fun line v => writeAt around level v = .ok line) lines vs := by
  induction vs generalizing lines with
  | nil =>
    cases h
    exact .nil
  | cons v rest ih =>
    rw [writeItems] at h
    obtain ⟨line, hline, h⟩ := bind_eq_ok_iff.1 h
    obtain ⟨others, hothers, h⟩ := bind_eq_ok_iff.1 h
    cases h
    exact .cons hline (ih hothers)

/-- The entries of a mapping are written one by one, each with its name in front. -/
theorem forall₂_of_writeEntries {around : List Mark} {level : Nat} {entries : List (Value × Value)}
    {lines : List Text} (h : writeEntries around level entries = .ok lines) :
    List.Forall₂ (fun line e => ∃ name value, writeName e.1 = .ok name ∧
      writeAt around level e.2 = .ok value ∧ line = name ++ Text.ofChars [':', ' '] ++ value)
      lines entries := by
  induction entries generalizing lines with
  | nil =>
    cases h
    exact .nil
  | cons e rest ih =>
    rw [writeEntries] at h
    obtain ⟨name, hname, h⟩ := bind_eq_ok_iff.1 h
    obtain ⟨value, hvalue, h⟩ := bind_eq_ok_iff.1 h
    obtain ⟨others, hothers, h⟩ := bind_eq_ok_iff.1 h
    cases h
    exact .cons ⟨name, value, hname, hvalue, rfl⟩ (ih hothers)

theorem isSpellable_of_writeAt {around : List Mark} {level : Nat} {v : Value} {text : Text}
    (h : writeAt around level v = .ok text) : v.isSpellable = true := by
  induction v using Value.induct_parts generalizing around level text with | _ v ih
  cases v with
  | shared mark v =>
    rw [writeAt] at h
    split at h
    · cases h
    · exact ih v List.mem_cons_self h
  | list items =>
    obtain ⟨lines, hlines, -⟩ := bind_eq_ok_iff.1 h
    refine Value.areSpellable_iff.2 fun v hv => ?_
    obtain ⟨line, -, hline⟩ := exists_left_of_forall₂ (forall₂_of_writeItems hlines) v hv
    exact ih v hv hline
  | tuple items =>
    obtain ⟨lines, hlines, -⟩ := bind_eq_ok_iff.1 h
    refine Value.areSpellable_iff.2 fun v hv => ?_
    obtain ⟨line, -, hline⟩ := exists_left_of_forall₂ (forall₂_of_writeItems hlines) v hv
    exact ih v hv hline
  | map entries =>
    obtain ⟨lines, hlines, -⟩ := bind_eq_ok_iff.1 h
    refine Value.areSpellableEntries_iff.2 fun e he => ?_
    obtain ⟨_, -, name, value, hname, hvalue, -⟩ :=
      exists_left_of_forall₂ (forall₂_of_writeEntries hlines) e he
    exact ⟨isSpellable_of_writeName hname, ih _ (Value.value_mem_parts he) hvalue⟩
  | int n =>
    obtain ⟨digits, hdigits, -⟩ := bind_eq_ok_iff.1 h
    exact isSpellable_of_integerText hdigits
  | set items => cases h
  | cycle mark => cases h
  | _ => rfl

/-- What JSON can hold can be spelled. -/
theorem isSpellable_of_write {v : Value} {text : Text} (h : write v = .ok text) :
    v.isSpellable = true := by
  unfold write at h
  cases hat : writeAt [] 0 v with
  | error e =>
    rw [hat] at h
    cases h
  | ok line => exact isSpellable_of_writeAt hat

end Json

/-- What YAML can hold can be spelled. -/
theorem Yaml.isSpellable_of_write {v : Value} {cs : List Char} (h : write v = .ok cs) :
    v.isSpellable = true := by
  unfold write at h
  split at h
  · next hv => exact hv
  · cases h

/-- YAML can hold exactly the values that can be spelled. -/
theorem Yaml.exists_write_iff {v : Value} : (∃ cs, write v = .ok cs) ↔ v.isSpellable = true :=
  ⟨fun ⟨_, h⟩ => isSpellable_of_write h, fun h => ⟨_, if_pos h⟩⟩

end SiteRules
