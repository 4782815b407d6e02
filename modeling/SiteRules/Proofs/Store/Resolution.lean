import SiteRules.Proofs.Pattern.Coverage
import SiteRules.Proofs.Pattern.Specificity
import SiteRules.Proofs.Store.Ranking

/-!
# What resolution gives

A resolution is read off the records of the store and its history. For a URL, the patterns that
apply to it are laid over one another, from the least to the most specific and, among equals, from
the one last written earlier to the one last written later (`resolveUrl_isOverlay`). For a pattern,
the same is done with its ancestors, that is with the stored patterns that are no more specific and
apply to every URL to which it applies itself, and its own record lies on top
(`resolvePattern_own_over_ancestors`).
-/

namespace SiteRules.Store

variable {κ ν : Type} [BEq κ]

/-! ## Records laid over one another -/

/-- The pattern `a` gives way to `b`: it is less specific, or as specific and was last written
before it. -/
def GivesWay (writes : List Text) (a b : Text) : Prop :=
  ∃ p q, Pattern.parse? a = some p ∧ Pattern.parse? b = some q ∧
    (p.specificity.Lower q.specificity ∨
      p.specificity = q.specificity ∧ lastWrite writes a < lastWrite writes b)

theorem givesWay_iff {writes : List Text} {a b : Text} {p q : Pattern}
    (hp : Pattern.parse? a = some p) (hq : Pattern.parse? b = some q) :
    GivesWay writes a b ↔ Precedes writes a b := by
  simp only [GivesWay, hp, hq, Option.some.injEq, exists_and_left, exists_eq_left',
    Specificity.lower_iff, Precedes, rank_eq hp, rank_eq hq]
  have hweight : p.specificity = q.specificity ↔ p.specificity.weight = q.specificity.weight :=
    ⟨congrArg _, Specificity.weight_inj⟩
  rw [hweight]
  omega

theorem GivesWay.asymm {writes : List Text} {a b : Text} (h : GivesWay writes a b) :
    ¬GivesWay writes b a := by
  obtain ⟨p, q, hp, hq, -⟩ := id h
  rw [givesWay_iff hq hp]
  exact ((givesWay_iff hp hq).1 h).asymm

/-- The value `v` is what the uppermost of the chosen records that have the key `k` has for it. -/
def Decides (below : Text → Text → Prop) (Chosen : Text × Record κ ν → Prop) (k : κ) (v : ν) :
    Prop :=
  ∃ site, Chosen site ∧ site.2.get? k = some v ∧
    ∀ other, Chosen other → other.2.contains k = true → other.1 ≠ site.1 → below other.1 site.1

/-- A record is made of the chosen ones, laid over one another in the order of their patterns. -/
structure IsOverlay (below : Text → Text → Prop) (Chosen : Text × Record κ ν → Prop)
    (r : Record κ ν) : Prop where
  /-- It has the keys that some chosen record has. -/
  contains_iff : ∀ k, r.contains k = true ↔ ∃ site, Chosen site ∧ site.2.contains k = true
  /-- Each key has the value from the uppermost record that has the key. -/
  get?_iff : ∀ k v, r.get? k = some v ↔ Decides below Chosen k v
  /-- The keys come as they first appear when the records are read from the lowest one up. -/
  keys_eq : ∃ sites : List (Text × Record κ ν), (∀ site, site ∈ sites ↔ Chosen site) ∧
    sites.Pairwise (fun a b => below a.1 b.1) ∧
    r.keys = (sites.flatMap fun site => site.2.keys).eraseDups

section Overlay

variable [PartialEquivBEq κ] {below : Text → Text → Prop} {sites : List (Text × Record κ ν)}

theorem overlayAll_get?_iff (asymm : ∀ {a b}, below a b → ¬below b a)
    (sorted : sites.Pairwise fun a b => below a.1 b.1) (k : κ) (v : ν) :
    (OrderedMap.overlayAll (sites.map Prod.snd)).get? k = some v ↔
      Decides below (· ∈ sites) k v := by
  rw [OrderedMap.get?_overlayAll, ← List.map_reverse, List.findSome?_map,
    List.findSome?_eq_some_iff]
  constructor
  · rintro ⟨above, site, under, hsplit, hv, habove⟩
    have hsites : sites = under.reverse ++ site :: above.reverse := by
      rw [← List.reverse_reverse sites, hsplit]
      simp
    refine ⟨site, by simp [hsites], hv, fun other hother hk hne => ?_⟩
    rw [hsites, List.mem_append, List.mem_cons] at hother
    rcases hother with hunder | rfl | hup
    · -- below the site the list is sorted
      rw [hsites] at sorted
      exact (List.pairwise_append.1 sorted).2.2 other hunder site List.mem_cons_self
    · exact absurd rfl hne
    · -- above the site no record has the key
      have hnone := habove other (List.mem_reverse.1 hup)
      obtain ⟨w, hw⟩ := OrderedMap.contains_eq_true_iff.1 hk
      simp [hw] at hnone
  · rintro ⟨site, hsite, hv, hbelow⟩
    obtain ⟨under, above, rfl⟩ := List.append_of_mem hsite
    refine ⟨above.reverse, site, under.reverse, by simp, hv, fun other hother => ?_⟩
    have hrel : below site.1 other.1 :=
      List.rel_of_pairwise_cons (List.pairwise_append.1 sorted).2.1 (List.mem_reverse.1 hother)
    rw [Function.comp, ← OrderedMap.contains_eq_false_iff, ← Bool.not_eq_true]
    -- if a record above had the key, it would be below the site as well
    intro hk
    have hne : other.1 ≠ site.1 := fun heq => asymm hrel (by rw [heq] at hrel ⊢; exact hrel)
    refine asymm hrel (hbelow other ?_ hk hne)
    simp only [List.mem_append, List.mem_cons]
    exact .inr (.inr (List.mem_reverse.1 hother))

/-- The records of a sorted list, laid over one another. -/
theorem isOverlay_overlayAll {Chosen : Text × Record κ ν → Prop}
    (asymm : ∀ {a b}, below a b → ¬below b a) (hmem : ∀ site, site ∈ sites ↔ Chosen site)
    (sorted : sites.Pairwise fun a b => below a.1 b.1) :
    IsOverlay below Chosen (OrderedMap.overlayAll (sites.map Prod.snd)) := by
  obtain rfl : (· ∈ sites) = Chosen := funext fun site => propext (hmem site)
  refine ⟨fun k => ?_, overlayAll_get?_iff asymm sorted, sites, fun _ => Iff.rfl, sorted, ?_⟩
  · simp only [OrderedMap.contains_overlayAll, List.mem_map]
    constructor
    · rintro ⟨r, ⟨site, hsite, rfl⟩, hk⟩
      exact ⟨site, hsite, hk⟩
    · rintro ⟨site, hsite, hk⟩
      exact ⟨site.2, ⟨site, hsite, rfl⟩, hk⟩
  · rw [OrderedMap.keys_overlayAll, List.flatMap_map]

end Overlay

theorem overlaid_eq_none_iff {records : List (Record κ ν)} :
    overlaid records = none ↔ records = [] := by
  cases records <;> simp [overlaid]

theorem eq_of_overlaid_eq_some {records : List (Record κ ν)} {r : Record κ ν}
    (h : overlaid records = some r) : OrderedMap.overlayAll records = r := by
  cases records with
  | nil => cases h
  | cons record rest => exact Option.some.inj h

theorem getD_overlaid (records : List (Record κ ν)) :
    (overlaid records).getD .empty = OrderedMap.overlayAll records := by
  cases records <;> rfl

/-! ## Selections from the ranked list -/

/-- The sites of the ranked list whose texts are patterns that satisfy a condition are sorted. -/
theorem Tracks.pairwise_givesWay {s : Store κ ν} {writes : List Text} (h : s.Tracks writes)
    {keep : Text × Record κ ν → Bool}
    (hkeep : ∀ site, keep site = true → ∃ p, Pattern.parse? site.1 = some p) :
    (s.ranked.filter keep).Pairwise fun a b => GivesWay writes a.1 b.1 := by
  refine (h.pairwise_ranked.filter keep).imp_of_mem fun ha hb hab => ?_
  obtain ⟨p, hp⟩ := hkeep _ (List.mem_filter.1 ha).2
  obtain ⟨q, hq⟩ := hkeep _ (List.mem_filter.1 hb).2
  exact (givesWay_iff hp hq).2 hab

theorem isPatternWith_iff {condition : Pattern → Bool} {text : Text} :
    isPatternWith condition text = true ↔
      ∃ p, Pattern.parse? text = some p ∧ condition p = true := by
  rw [isPatternWith, Option.any_eq_true]

/-! ## URLs -/

/-- A text is a pattern that applies to a URL. -/
def IsFor (url : Url) (text : Text) : Prop :=
  ∃ p, Pattern.parse? text = some p ∧ p.accepts url = true

/-- The stored pattern of a site, which has the record of the site, applies to a URL. -/
def Applies (s : Store κ ν) (url : Url) (site : Text × Record κ ν) : Prop :=
  s.get? site.1 = some site.2 ∧ IsFor url site.1

/-- For a URL, the patterns that apply to it are selected from the ranked list. -/
theorem mem_applying_iff {s : Store κ ν} {url : Url} {site : Text × Record κ ν} :
    site ∈ s.ranked.filter (fun site => isPatternWith (fun p => p.accepts url) site.1) ↔
      s.Applies url site := by
  rw [List.mem_filter, mem_ranked, isPatternWith_iff, Applies, IsFor]

/-- The patterns that apply to a URL are sorted in the ranked list. -/
theorem Tracks.pairwise_applying {s : Store κ ν} {writes : List Text} (h : s.Tracks writes)
    (url : Url) :
    (s.ranked.filter fun site => isPatternWith (fun p => p.accepts url) site.1).Pairwise
      fun a b => GivesWay writes a.1 b.1 := by
  refine h.pairwise_givesWay fun site hs => ?_
  obtain ⟨p, hp, -⟩ := isPatternWith_iff.1 hs
  exact ⟨p, hp⟩

/-- The records of the patterns that apply to a URL, laid over one another, if there are any. -/
theorem Tracks.exists_stack_layersFor [PartialEquivBEq κ] {s : Store κ ν} {writes : List Text}
    (h : s.Tracks writes) (url : Url) :
    ∃ records : List (Record κ ν), stack (s.layersFor url) = overlaid records ∧
      (records = [] ↔ ∀ site, ¬s.Applies url site) ∧
      IsOverlay (GivesWay writes) (s.Applies url) (OrderedMap.overlayAll records) := by
  refine ⟨_, h.stack_layersFor url, ?_, ?_⟩
  · rw [List.map_eq_nil_iff, List.eq_nil_iff_forall_not_mem]
    simp only [mem_applying_iff]
  · exact isOverlay_overlayAll GivesWay.asymm (fun _ => mem_applying_iff) (h.pairwise_applying url)

/-- A URL gets nothing if its text is no URL or no stored pattern applies to it. Otherwise it gets
the records of the patterns that apply to it, laid over one another by specificity and history. -/
theorem resolveUrl_isOverlay [PartialEquivBEq κ] {s : Store κ ν} {writes : List Text}
    (built : Built s writes) (source : Text) :
    (s.resolveUrl source = none ↔ Url.parse? source = none ∨
      ∃ url, Url.parse? source = some url ∧ ∀ site, ¬s.Applies url site) ∧
    ∀ r, s.resolveUrl source = some r → ∃ url, Url.parse? source = some url ∧
      IsOverlay (GivesWay writes) (s.Applies url) r := by
  unfold resolveUrl
  cases Url.parse? source with
  | none => simp
  | some url =>
    obtain ⟨records, hstack, hnil, hoverlay⟩ := built.tracks.exists_stack_layersFor url
    dsimp only
    rw [hstack]
    refine ⟨by simp [overlaid_eq_none_iff, hnil], fun r hr => ?_⟩
    rw [eq_of_overlaid_eq_some hr] at hoverlay
    exact ⟨url, rfl, hoverlay⟩

/-- A site below its domain and `*`, which has been written to once more in the end. -/
def nested : Store Nat Nat :=
  let everything := empty.merge (Text.ofString "*") 1 10
  let domain := everything.merge (Text.ofString "https://*.b.c") 1 20
  let site := domain.merge (Text.ofString "https://a.b.c") 1 30
  site.merge (Text.ofString "*") 2 40

/-- The history of `nested`. -/
def nestedWrites : List Text :=
  [Text.ofString "*", Text.ofString "https://*.b.c", Text.ofString "https://a.b.c",
    Text.ofString "*"]

theorem built_nested : Built nested nestedWrites :=
  .merge (.merge (.merge (.merge .empty _ _ _) _ _ _) _ _ _) _ _ _

/-- The record of the site lies on top, although it was not written last. -/
theorem resolveUrl_isOverlay_nested : Built nested nestedWrites ∧
    ∃ r, nested.resolveUrl (Text.ofString "https://a.b.c/") = some r ∧
      r.entries = [(1, 30), (2, 40)] ∧
      ∃ url, Url.parse? (Text.ofString "https://a.b.c/") = some url ∧
        IsOverlay (GivesWay nestedWrites) (nested.Applies url) r := by
  have hlayers : ∃ url, Url.parse? (Text.ofString "https://a.b.c/") = some url ∧
      (nested.layersFor url).Pairwise (fun a b => a.under b = true) ∧
      ∃ r, overlaid ((nested.layersFor url).map Layer.record) = some r ∧
        r.entries = [(1, 30), (2, 40)] := ⟨_, rfl, by decide, _, rfl, rfl⟩
  obtain ⟨url, hurl, hsorted, r, hr, hentries⟩ := hlayers
  rw [← resolveUrl_of_pairwise hurl hsorted] at hr
  exact ⟨built_nested, r, hr, hentries, (resolveUrl_isOverlay built_nested _).2 r hr⟩

/-! ## Patterns -/

/-- A text is a pattern from which the pattern `target`, which is spelled `source`, inherits: it is
spelled in another way, is no more specific, and applies to every URL to which the target applies.
-/
def IsAbove (source : Text) (target : Pattern) (text : Text) : Prop :=
  text ≠ source ∧ ∃ p, Pattern.parse? text = some p ∧
    ¬target.specificity.Lower p.specificity ∧
    ∀ url, target.accepts url = true → p.accepts url = true

/-- The stored pattern of a site, which has the record of the site, is an ancestor of a pattern. -/
def IsAncestor (s : Store κ ν) (source : Text) (target : Pattern) (site : Text × Record κ ν) :
    Prop :=
  s.get? site.1 = some site.2 ∧ IsAbove source target site.1

/-- The records of the ancestors of a pattern, laid over one another, if there are any. -/
theorem Tracks.exists_stack_ancestors [PartialEquivBEq κ] {s : Store κ ν} {writes : List Text}
    (h : s.Tracks writes) (source : Text) (target : Pattern) :
    ∃ records : List (Record κ ν), stack (s.ancestors source target) = overlaid records ∧
      (records = [] ↔ ∀ site, ¬s.IsAncestor source target site) ∧
      IsOverlay (GivesWay writes) (s.IsAncestor source target)
        (OrderedMap.overlayAll records) := by
  have hmem : ∀ site, site ∈ s.ranked.filter (fun site => decide (site.1 ≠ source) &&
      isPatternWith (fun p => decide (p.specificity ≤ target.specificity) && p.covers target)
        site.1) ↔ s.IsAncestor source target site := by
    intro site
    rw [List.mem_filter, mem_ranked, Bool.and_eq_true, decide_eq_true_eq, isPatternWith_iff,
      IsAncestor, IsAbove]
    refine and_congr_right fun _ => and_congr_right fun _ => exists_congr fun p =>
      and_congr_right fun _ => ?_
    -- among patterns that are no more specific, coverage is inclusion
    rw [Bool.and_eq_true, decide_eq_true_eq, ← Specificity.le_iff_not_lower]
    exact and_congr_right fun hle => Pattern.covers_iff_of_le hle
  refine ⟨_, h.stack_ancestors source target, ?_, ?_⟩
  · rw [List.map_eq_nil_iff, List.eq_nil_iff_forall_not_mem]
    simp only [hmem]
  · refine isOverlay_overlayAll GivesWay.asymm hmem (h.pairwise_givesWay fun site hs => ?_)
    obtain ⟨p, hp, -⟩ := isPatternWith_iff.1 (Bool.and_eq_true _ _ ▸ hs).2
    exact ⟨p, hp⟩

/-- A pattern gets nothing if it is not stored and has no ancestor. Otherwise it gets its own record
over those of its ancestors, which are laid over one another by specificity and history. -/
theorem resolvePattern_own_over_ancestors [PartialEquivBEq κ] {s : Store κ ν} {writes : List Text}
    (built : Built s writes) {source : Text} {target : Pattern}
    (parsed : Pattern.parse? source = some target) :
    (s.resolvePattern source = none ↔
      s.get? source = none ∧ ∀ site, ¬s.IsAncestor source target site) ∧
    ∀ r, s.resolvePattern source = some r →
      (∀ k, r.contains k = true ↔
        (∃ own, s.get? source = some own ∧ own.contains k = true) ∨
        ∃ site, s.IsAncestor source target site ∧ site.2.contains k = true) ∧
      ∀ k v, r.get? k = some v ↔
        (∃ own, s.get? source = some own ∧ own.get? k = some v) ∨
        (∀ own, s.get? source = some own → own.contains k = false) ∧
          Decides (GivesWay writes) (s.IsAncestor source target) k v := by
  obtain ⟨records, hstack, hnil, hoverlay⟩ := built.tracks.exists_stack_ancestors source target
  simp only [resolvePattern, parsed, hstack]
  cases hown : s.get? source with
  | none =>
    refine ⟨by simp [overlaid_eq_none_iff, hnil], fun r hr => ?_⟩
    rw [eq_of_overlaid_eq_some hr] at hoverlay
    exact ⟨fun k => by simp [hoverlay.contains_iff], fun k v => by simp [hoverlay.get?_iff]⟩
  | some own =>
    refine ⟨by simp, fun r hr => ?_⟩
    rw [getD_overlaid, Option.some.injEq] at hr
    subst hr
    constructor
    · intro k
      simp [OrderedMap.contains_overlay, hoverlay.contains_iff]
    · intro k v
      rw [OrderedMap.get?_overlay, Option.or_eq_some_iff, hoverlay.get?_iff,
        ← OrderedMap.contains_eq_false_iff]
      simp

/-- The site has its own value for `1` and inherits the one for `2` from `*`. -/
theorem resolvePattern_own_over_ancestors_nested : Built nested nestedWrites ∧
    ∃ target, Pattern.parse? (Text.ofString "https://a.b.c") = some target ∧
      ∃ r, nested.resolvePattern (Text.ofString "https://a.b.c") = some r ∧
        r.get? 1 = some 30 ∧ Decides (GivesWay nestedWrites)
          (nested.IsAncestor (Text.ofString "https://a.b.c") target) 2 40 := by
  have hlayers : ∃ target, Pattern.parse? (Text.ofString "https://a.b.c") = some target ∧
      (nested.ancestors (Text.ofString "https://a.b.c") target).Pairwise
        (fun a b => a.under b = true) ∧
      ∃ inherited, overlaid ((nested.ancestors (Text.ofString "https://a.b.c") target).map
        Layer.record) = some inherited ∧ inherited.entries = [(1, 20), (2, 40)] :=
    ⟨_, rfl, by decide, _, rfl, rfl⟩
  have hsite : ∃ own, nested.get? (Text.ofString "https://a.b.c") = some own ∧
      own.entries = [(1, 30)] := ⟨_, rfl, rfl⟩
  obtain ⟨target, htarget, hsorted, inherited, hinherited, hentries⟩ := hlayers
  obtain ⟨own, hown, hentries'⟩ := hsite
  have hr : nested.resolvePattern (Text.ofString "https://a.b.c") =
      some (inherited.overlay own) := by
    simp only [resolvePattern, htarget, stack_of_pairwise hsorted, hinherited, hown,
      Option.getD_some]
  have hvalues := ((resolvePattern_own_over_ancestors built_nested htarget).2 _ hr).2
  have hone : own.get? 1 = some 30 := by rw [OrderedMap.get?, hentries']; rfl
  have htwo : own.get? 2 = none := by rw [OrderedMap.get?, hentries']; rfl
  have hthere : inherited.get? 2 = some 40 := by rw [OrderedMap.get?, hentries]; rfl
  refine ⟨built_nested, target, htarget, _, hr, (hvalues 1 30).2 (.inl ⟨own, hown, hone⟩), ?_⟩
  have hboth : (inherited.overlay own).get? 2 = some 40 := by
    rw [OrderedMap.get?_overlay, htwo, hthere]
    rfl
  rcases (hvalues 2 40).1 hboth with ⟨own', hget, hforty⟩ | ⟨-, hdecides⟩
  · cases hown.symm.trans hget
    rw [htwo] at hforty
    cases hforty
  · exact hdecides

end SiteRules.Store
