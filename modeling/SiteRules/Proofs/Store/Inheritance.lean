import SiteRules.Proofs.Store.Resolution

/-!
# Inheritance

The record of a stored pattern contributes to what a pattern gets if the stored one covers it and is
no more specific. A stored pattern contributes to itself, as coverage is reflexive
(`contributes_self`), and whatever contributes to a pattern contributes to all that this one covers
and does not outrank, as coverage is transitive (`Contributes.trans`). What a pattern gets has the
keys of the contributing records, in whatever order they lie over one another
(`resolvePattern_contributors`). So inheritance is transitive (`resolvePattern_inherits`). Nothing
of this depends on how the store has come about.
-/

namespace SiteRules.Store

variable {κ ν : Type} [BEq κ]

/-! ## What contributes to a pattern -/

/-- The stored pattern of a site covers the pattern `target` and is no more specific. -/
def Contributes (s : Store κ ν) (target : Pattern) (site : Text × Record κ ν) : Prop :=
  s.get? site.1 = some site.2 ∧ ∃ p, Pattern.parse? site.1 = some p ∧
    p.specificity ≤ target.specificity ∧ p.covers target = true

/-- A stored pattern contributes to itself. -/
theorem contributes_self {s : Store κ ν} {source : Text} {target : Pattern} {own : Record κ ν}
    (parsed : Pattern.parse? source = some target) (stored : s.get? source = some own) :
    s.Contributes target (source, own) :=
  ⟨stored, target, parsed, Nat.le_refl _, target.covers_refl⟩

/-- What contributes to a pattern contributes to a narrower one, too. -/
theorem Contributes.trans {s : Store κ ν} {p q : Pattern} {site : Text × Record κ ν}
    (h : s.Contributes p site) (hcovers : p.covers q = true)
    (hle : p.specificity ≤ q.specificity) : s.Contributes q site := by
  obtain ⟨stored, x, hx, hxle, hxcovers⟩ := h
  exact ⟨stored, x, hx, Nat.le_trans hxle hle, Pattern.covers_trans hxcovers hcovers⟩

/-- The layers of the ancestors are those of the contributing patterns other than the pattern
itself. -/
theorem exists_mem_ancestors_iff {s : Store κ ν} {source : Text} {target : Pattern}
    {P : Record κ ν → Prop} :
    (∃ layer ∈ s.ancestors source target, P layer.record) ↔
      ∃ site, site.1 ≠ source ∧ s.Contributes target site ∧ P site.2 := by
  simp only [ancestors, List.mem_filterMap, List.mem_filter, layer?_eq_some_iff, decide_eq_true_eq,
    Bool.and_eq_true, Contributes, ← mem_site_iff]
  constructor
  · rintro ⟨_, ⟨e, ⟨he, hne⟩, p, hp, hcondition, rfl⟩, hP⟩
    exact ⟨(e.1, e.2.record), hne, ⟨⟨e, he, rfl⟩, p, hp, hcondition⟩, hP⟩
  · rintro ⟨_, hne, ⟨⟨e, he, rfl⟩, p, hp, hcondition⟩, hP⟩
    exact ⟨_, ⟨e, ⟨he, hne⟩, p, hp, hcondition, rfl⟩, hP⟩

/-! ## Keys of stacked layers -/

theorem stack_isSome_iff {layers : List (Layer κ ν)} :
    (stack layers).isSome = true ↔ ∃ layer, layer ∈ layers := by
  rw [Option.isSome_iff_ne_none, ne_eq, stack_eq, overlaid_eq_none_iff, List.map_eq_nil_iff,
    List.eq_nil_iff_forall_not_mem]
  simp only [List.mem_mergeSort, Classical.not_forall_not]

/-- Whatever the order of the layers, their keys are there. -/
theorem contains_stack_iff [PartialEquivBEq κ] {layers : List (Layer κ ν)} {k : κ} :
    ((stack layers).getD .empty).contains k = true ↔
      ∃ layer ∈ layers, layer.record.contains k = true := by
  rw [stack_eq, getD_overlaid, OrderedMap.contains_overlayAll]
  constructor
  · rintro ⟨record, hrecord, hk⟩
    obtain ⟨layer, hlayer, rfl⟩ := List.mem_map.1 hrecord
    exact ⟨layer, List.mem_mergeSort.1 hlayer, hk⟩
  · rintro ⟨layer, hlayer, hk⟩
    exact ⟨_, List.mem_map_of_mem (List.mem_mergeSort.2 hlayer), hk⟩

/-! ## What patterns get -/

/-- A pattern gets something exactly if some stored pattern contributes to it, and then it has the
keys of all that do. -/
theorem resolvePattern_contributors [PartialEquivBEq κ] {s : Store κ ν} {source : Text}
    {target : Pattern} (parsed : Pattern.parse? source = some target) :
    ((s.resolvePattern source).isSome = true ↔ ∃ site, s.Contributes target site) ∧
    ∀ r, s.resolvePattern source = some r → ∀ k, r.contains k = true ↔
      ∃ site, s.Contributes target site ∧ site.2.contains k = true := by
  simp only [resolvePattern, parsed]
  cases hown : s.get? source with
  | none =>
    -- whatever contributes is another pattern
    have hne : ∀ site, s.Contributes target site → site.1 ≠ source := by
      intro site hsite heq
      rw [← heq, hsite.1] at hown
      cases hown
    constructor
    · have hlayers : (∃ layer, layer ∈ s.ancestors source target) ↔
          ∃ site, site.1 ≠ source ∧ s.Contributes target site := by
        simpa only [and_true] using exists_mem_ancestors_iff (P := fun _ => True)
      rw [stack_isSome_iff, hlayers]
      exact exists_congr fun site => and_iff_right_of_imp (hne site)
    · intro r hr k
      rw [← Option.getD_some (a := r) (b := .empty), ← hr, contains_stack_iff,
        exists_mem_ancestors_iff (P := fun record => record.contains k = true)]
      refine exists_congr fun site => ?_
      exact and_iff_right_of_imp fun h => hne site h.1
  | some own =>
    have hself := contributes_self parsed hown
    refine ⟨iff_of_true rfl ⟨_, hself⟩, fun r hr k => ?_⟩
    cases hr
    rw [OrderedMap.contains_overlay, Bool.or_eq_true, contains_stack_iff,
      exists_mem_ancestors_iff (P := fun record => record.contains k = true)]
    constructor
    · rintro (hk | ⟨site, -, hsite, hk⟩)
      · exact ⟨_, hself, hk⟩
      · exact ⟨site, hsite, hk⟩
    · rintro ⟨site, hsite, hk⟩
      by_cases heq : site.1 = source
      · have hrecord := hsite.1
        rw [heq, hown, Option.some.injEq] at hrecord
        rw [hrecord]
        exact .inl hk
      · exact .inr ⟨site, heq, hsite, hk⟩

/-- Coverage is reflexive and transitive. So a pattern that is covered by another one and is no less
specific gets something whenever that one does, with all its keys. -/
theorem resolvePattern_inherits [PartialEquivBEq κ] :
    (∀ p : Pattern, p.covers p = true) ∧
    (∀ p q r : Pattern, p.covers q = true → q.covers r = true → p.covers r = true) ∧
    ∀ (s : Store κ ν) (broad narrow : Text) (p q : Pattern), Pattern.parse? broad = some p →
      Pattern.parse? narrow = some q → p.covers q = true → p.specificity ≤ q.specificity →
      ∀ r, s.resolvePattern broad = some r → ∃ r', s.resolvePattern narrow = some r' ∧
        ∀ k, r.contains k = true → r'.contains k = true := by
  refine ⟨Pattern.covers_refl, fun _ _ _ => Pattern.covers_trans, ?_⟩
  intro s broad narrow p q hp hq hcovers hle r hr
  obtain ⟨hsome, hkeys⟩ := resolvePattern_contributors (s := s) hp
  obtain ⟨hsome', hkeys'⟩ := resolvePattern_contributors (s := s) hq
  obtain ⟨site, hsite⟩ := hsome.1 (Option.isSome_of_eq_some hr)
  obtain ⟨r', hr'⟩ := Option.isSome_iff_exists.1 (hsome'.2 ⟨site, hsite.trans hcovers hle⟩)
  refine ⟨r', hr', fun k hk => ?_⟩
  obtain ⟨other, hother, hk⟩ := (hkeys r hr k).1 hk
  exact (hkeys' r' hr' k).2 ⟨other, hother.trans hcovers hle, hk⟩

/-- In `nested`, all that the domain inherits and has, the site below it inherits. -/
theorem resolvePattern_inherits_nested :
    ∃ p q, Pattern.parse? (Text.ofString "https://*.b.c") = some p ∧
      Pattern.parse? (Text.ofString "https://a.b.c") = some q ∧ p.covers q = true ∧
      p.specificity ≤ q.specificity ∧
      ∃ r r', nested.resolvePattern (Text.ofString "https://*.b.c") = some r ∧
        nested.resolvePattern (Text.ofString "https://a.b.c") = some r' ∧
        r.contains 2 = true ∧ r'.contains 2 = true := by
  have hpatterns : ∃ p q, Pattern.parse? (Text.ofString "https://*.b.c") = some p ∧
      Pattern.parse? (Text.ofString "https://a.b.c") = some q ∧ p.covers q = true ∧
      p.specificity ≤ q.specificity := ⟨_, _, rfl, rfl, by decide, by decide⟩
  obtain ⟨p, q, hp, hq, hcovers, hle⟩ := hpatterns
  -- the second key comes from the record of `*`
  have hstar : ∃ record, nested.get? (Text.ofString "*") = some record ∧ record.contains 2 = true :=
    ⟨_, rfl, rfl⟩
  obtain ⟨record, hrecord, htwo⟩ := hstar
  have hsite : nested.Contributes p (Text.ofString "*", record) :=
    ⟨hrecord, .everything, rfl, Nat.zero_le _, rfl⟩
  obtain ⟨hsome, hkeys⟩ := resolvePattern_contributors (s := nested) hp
  obtain ⟨r, hr⟩ := Option.isSome_iff_exists.1 (hsome.2 ⟨_, hsite⟩)
  have hkey := (hkeys r hr 2).2 ⟨_, hsite, htwo⟩
  obtain ⟨r', hr', hall⟩ := resolvePattern_inherits.2.2 nested _ _ p q hp hq hcovers hle r hr
  exact ⟨p, q, hp, hq, hcovers, hle, r, r', hr, hr', hkey, hall 2 hkey⟩

end SiteRules.Store
