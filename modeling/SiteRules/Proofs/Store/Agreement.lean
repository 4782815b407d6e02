import SiteRules.Proofs.Store.Resolution

/-!
# What a pattern gets and what its URLs get

Both look-ups select from the ranked list of the store: for a URL the patterns that apply to it, for
a pattern those that cover it, with its own record on top. A pattern that leaves nothing open is
covered by what applies to its URL and is more specific than anything else, so the two look-ups
agree on it (`resolvePattern_eq_resolveUrl`). Any other pattern shows what its URLs get as long as
nothing prevails over it there (`resolvePattern_within_resolveUrl`).
-/

namespace SiteRules.Store

variable {κ ν : Type} [BEq κ]

/-! ## Patterns that leave nothing open -/

theorem overlaid_append_singleton (records : List (Record κ ν)) (r : Record κ ν) :
    overlaid (records ++ [r]) = some (((overlaid records).getD .empty).overlay r) := by
  have hne : records ++ [r] ≠ [] := by simp
  have hsome : overlaid (records ++ [r]) = some (OrderedMap.overlayAll (records ++ [r])) := by
    cases h : records ++ [r] with
    | nil => exact absurd h hne
    | cons => rfl
  rw [hsome, getD_overlaid, OrderedMap.overlayAll, List.foldl_append]
  rfl

theorem isPatternWith_congr {condition condition' : Pattern → Bool}
    (h : ∀ p, condition p = condition' p) (text : Text) :
    isPatternWith condition text = isPatternWith condition' text := by
  rw [show condition = condition' from funext h]

theorem rank_le_pinned {pattern protocol host path : Text} {port : Nat}
    (parsed : Pattern.parse? pattern = some (.site (.pinned protocol host port path)))
    (other : Text) : rank other ≤ rank pattern := by
  rw [rank_eq parsed]
  cases hother : Pattern.parse? other with
  | none =>
    rw [rank, hother]
    exact Nat.zero_le _
  | some p =>
    rw [rank_eq hother]
    exact Nat.succ_le_succ (p.specificity_le_pinned protocol host port path)

/-- A pattern that leaves nothing open and was written last comes after all others. -/
theorem precedes_pinned {writes : List Text} {pattern protocol host path : Text} {port : Nat}
    (parsed : Pattern.parse? pattern = some (.site (.pinned protocol host port path)))
    (last : writes.getLast? = some pattern) {other : Text} (hne : other ≠ pattern) :
    Precedes writes other pattern := by
  obtain ⟨front, rfl⟩ := List.getLast?_eq_some_iff.1 last
  have hrank := rank_le_pinned parsed other
  have hlast : lastWrite (front ++ [pattern]) other < lastWrite (front ++ [pattern]) pattern := by
    rw [lastWrite_append_of_ne (Ne.symm hne), lastWrite_append_self]
    exact Nat.lt_succ_of_le (lastWrite_le_length front other)
  unfold Precedes
  omega

/-- Selecting from the ranked list with a pattern that comes after all others puts that pattern
last. -/
theorem Tracks.filter_ranked_of_last {s : Store κ ν} {writes : List Text} (h : s.Tracks writes)
    {pattern : Text} {own : Record κ ν} (hown : s.get? pattern = some own)
    (hlast : ∀ other, other ≠ pattern → Precedes writes other pattern)
    {keep : Text → Bool} (hkeep : keep pattern = true) :
    s.ranked.filter (fun site => keep site.1) =
      s.ranked.filter (fun site => decide (site.1 ≠ pattern) && keep site.1) ++
        [(pattern, own)] := by
  refine Sorted.eq_of_pairwise (R := fun a b => Precedes writes a.1 b.1) Precedes.asymm
    (h.pairwise_ranked.filter _) ?_ ?_
  · refine List.pairwise_append.2 ⟨h.pairwise_ranked.filter _, List.pairwise_singleton _ _, ?_⟩
    intro a ha b hb
    rw [List.mem_singleton.1 hb]
    have hne := (Bool.and_eq_true _ _ ▸ (List.mem_filter.1 ha).2).1
    exact hlast a.1 (of_decide_eq_true hne)
  · intro site
    rw [List.mem_filter, List.mem_append, List.mem_filter, List.mem_singleton, mem_ranked,
      Bool.and_eq_true, decide_eq_true_eq]
    constructor
    · rintro ⟨hsite, hk⟩
      by_cases heq : site.1 = pattern
      · rw [heq, hown, Option.some.injEq] at hsite
        exact .inr (Prod.ext heq hsite.symm)
      · exact .inl ⟨hsite, heq, hk⟩
    · rintro (⟨hsite, -, hk⟩ | rfl)
      · exact ⟨hsite, hk⟩
      · exact ⟨hown, hkeep⟩

/-- A pattern that leaves nothing open inherits the same as its URL gets from other patterns. -/
theorem Tracks.stack_ancestors_pinned {s : Store κ ν} {writes : List Text} (h : s.Tracks writes)
    (pattern : Text) {protocol host path : Text} {port : Nat} {url : Url}
    (applies : (SiteRule.pinned protocol host port path).accepts url = true) :
    stack (s.ancestors pattern (.site (.pinned protocol host port path))) =
      overlaid ((s.ranked.filter fun site => decide (site.1 ≠ pattern) &&
        isPatternWith (fun p => p.accepts url) site.1).map Prod.snd) := by
  have hcondition : ∀ p : Pattern,
      (decide (p.specificity ≤ (Pattern.site (.pinned protocol host port path)).specificity) &&
        p.covers (.site (.pinned protocol host port path))) = p.accepts url := by
    intro p
    rw [p.covers_pinned applies, decide_eq_true (p.specificity_le_pinned protocol host port path),
      Bool.true_and]
  rw [h.stack_ancestors]
  simp only [isPatternWith_congr hcondition]

/-- A pattern that leaves nothing open, and that is not stored or was written last, gets the same as
every URL to which it applies. -/
theorem resolvePattern_eq_resolveUrl {s : Store κ ν} {writes : List Text} (built : Built s writes)
    {pattern source protocol host path : Text} {port : Nat} {url : Url}
    (parsedPattern : Pattern.parse? pattern =
      some (.site ⟨.only protocol, .exactly host, .number port, some path⟩))
    (latest : s.get? pattern = none ∨ writes.getLast? = some pattern)
    (parsedUrl : Url.parse? source = some url)
    (same : url.protocol = protocol ∧ url.host = host ∧ url.port = some port ∧ url.path = path) :
    s.resolvePattern pattern = s.resolveUrl source := by
  have htracks := built.tracks
  have parsedPattern : Pattern.parse? pattern =
      some (.site (.pinned protocol host port path)) := parsedPattern
  have happlies : (SiteRule.pinned protocol host port path).accepts url = true :=
    SiteRule.pinned_accepts_iff.2 same
  simp only [resolveUrl, resolvePattern, parsedUrl, parsedPattern,
    htracks.stack_ancestors_pinned pattern happlies, htracks.stack_layersFor]
  cases hown : s.get? pattern with
  | none =>
    have hothers : ∀ site ∈ s.ranked, (decide (site.1 ≠ pattern) &&
        isPatternWith (fun p => p.accepts url) site.1) =
          isPatternWith (fun p => p.accepts url) site.1 := by
      intro site hsite
      have hne : site.1 ≠ pattern := by
        intro heq
        rw [mem_ranked, heq, hown] at hsite
        cases hsite
      rw [decide_eq_true hne, Bool.true_and]
    rw [List.filter_congr hothers]
  | some own =>
    have hlast := latest.resolve_left (by simp [hown])
    have hkeep : isPatternWith (fun p => p.accepts url) pattern = true :=
      isPatternWith_iff.2 ⟨_, parsedPattern, happlies⟩
    have hfilter := htracks.filter_ranked_of_last hown
      (fun other hne => precedes_pinned parsedPattern hlast hne) hkeep
    rw [hfilter, List.map_append, List.map_singleton, overlaid_append_singleton]

/-- The store `nested` with a page of the site, whose port is written out. -/
def paged : Store Nat Nat :=
  nested.merge (Text.ofString "https://a.b.c:443/x") 2 50

/-- The history of `paged`. -/
def pagedWrites : List Text :=
  nestedWrites ++ [Text.ofString "https://a.b.c:443/x"]

theorem built_paged : Built paged pagedWrites :=
  .merge built_nested _ _ _

/-- The URL of the page does not name its port, and gets what the pattern of the page gets. -/
theorem resolvePattern_eq_resolveUrl_paged : Built paged pagedWrites ∧
    (∃ protocol host path, Pattern.parse? (Text.ofString "https://a.b.c:443/x") =
        some (.site ⟨.only protocol, .exactly host, .number 443, some path⟩) ∧
      ∃ url, Url.parse? (Text.ofString "https://A.b.c/x") = some url ∧ url.protocol = protocol ∧
        url.host = host ∧ url.port = some 443 ∧ url.path = path) ∧
    pagedWrites.getLast? = some (Text.ofString "https://a.b.c:443/x") ∧
    paged.resolvePattern (Text.ofString "https://a.b.c:443/x") =
      paged.resolveUrl (Text.ofString "https://A.b.c/x") := by
  have hparsed : ∃ protocol host path, Pattern.parse? (Text.ofString "https://a.b.c:443/x") =
        some (.site ⟨.only protocol, .exactly host, .number 443, some path⟩) ∧
      ∃ url, Url.parse? (Text.ofString "https://A.b.c/x") = some url ∧ url.protocol = protocol ∧
        url.host = host ∧ url.port = some 443 ∧ url.path = path :=
    ⟨_, _, _, rfl, _, rfl, by decide, by decide, rfl, by decide⟩
  have hlast : pagedWrites.getLast? = some (Text.ofString "https://a.b.c:443/x") := rfl
  obtain ⟨protocol, host, path, hpattern, url, hurl, hsame⟩ := id hparsed
  exact ⟨built_paged, hparsed, hlast,
    resolvePattern_eq_resolveUrl built_paged hpattern (.inr hlast) hurl hsame⟩

/-! ## Where a key comes from -/

/-- The record of the site is the uppermost of the chosen ones that have the key `k`. -/
structure Supplies (below : Text → Text → Prop) (Chosen : Text × Record κ ν → Prop) (k : κ)
    (site : Text × Record κ ν) : Prop where
  chosen : Chosen site
  contains : site.2.contains k = true
  uppermost : ∀ other, Chosen other → other.2.contains k = true → other.1 ≠ site.1 →
    below other.1 site.1

/-- The record of the site gives a URL its value for the key `k`. -/
def SuppliesUrl (s : Store κ ν) (writes : List Text) (url : Url) (k : κ)
    (site : Text × Record κ ν) : Prop :=
  Supplies (GivesWay writes) (s.Applies url) k site

/-- The record of the site gives the pattern `target`, which is spelled `source`, its value for the
key `k`: it is its own record, or its own record does not have the key and the site is an
ancestor. -/
def SuppliesPattern (s : Store κ ν) (writes : List Text) (source : Text) (target : Pattern) (k : κ)
    (site : Text × Record κ ν) : Prop :=
  (site.1 = source ∧ s.get? source = some site.2 ∧ site.2.contains k = true) ∨
    (∀ own, s.get? source = some own → own.contains k = false) ∧
      Supplies (GivesWay writes) (s.IsAncestor source target) k site

/-- The stored pattern `text` prevails over what the pattern `target`, which is spelled `source`,
has or inherits: it is more specific, or does not cover the target, or is as specific as the target
and was written after it. -/
def Outranks (s : Store κ ν) (writes : List Text) (source : Text) (target : Pattern) (text : Text) :
    Prop :=
  ∃ p, Pattern.parse? text = some p ∧
    (target.specificity.Lower p.specificity ∨ p.covers target = false ∨
      text ≠ source ∧ p.specificity = target.specificity ∧ (s.get? source).isSome = true ∧
        lastWrite writes source < lastWrite writes text)

theorem decides_iff_supplies {below : Text → Text → Prop} {Chosen : Text × Record κ ν → Prop}
    {k : κ} {v : ν} :
    Decides below Chosen k v ↔ ∃ site, Supplies below Chosen k site ∧ site.2.get? k = some v := by
  constructor
  · rintro ⟨site, hchosen, hv, habove⟩
    exact ⟨site, ⟨hchosen, OrderedMap.contains_eq_true_iff.2 ⟨v, hv⟩, habove⟩, hv⟩
  · rintro ⟨site, h, hv⟩
    exact ⟨site, h.chosen, hv, h.uppermost⟩

/-- An overlay takes each of its keys from the record that supplies it. -/
theorem IsOverlay.exists_supplies {below : Text → Text → Prop}
    {Chosen : Text × Record κ ν → Prop} {r : Record κ ν} (h : IsOverlay below Chosen r) {k : κ}
    (hk : r.contains k = true) :
    ∃ site, Supplies below Chosen k site ∧ r.get? k = site.2.get? k := by
  obtain ⟨v, hv⟩ := OrderedMap.contains_eq_true_iff.1 hk
  obtain ⟨site, hsite, hget⟩ := decides_iff_supplies.1 ((h.get?_iff k v).1 hv)
  exact ⟨site, hsite, hv.trans hget.symm⟩

/-! ## Why a URL has a key from another pattern -/

section Url

variable {s : Store κ ν} {writes : List Text} {source : Text} {target : Pattern} {url : Url}
  (parsed : Pattern.parse? source = some target) (hu : target.accepts url = true)

include hu in
/-- The ancestors of a pattern apply to its URLs. -/
theorem IsAncestor.applies {site : Text × Record κ ν} (h : s.IsAncestor source target site) :
    s.Applies url site := by
  obtain ⟨hget, -, p, hp, -, hinclusion⟩ := h
  exact ⟨hget, p, hp, hinclusion url hu⟩

include parsed hu in
/-- What supplies a key to a pattern applies to its URLs. -/
theorem SuppliesPattern.applies {k : κ} {site : Text × Record κ ν}
    (h : s.SuppliesPattern writes source target k site) : s.Applies url site := by
  rcases h with ⟨heq, hget, -⟩ | ⟨-, hsupplies⟩
  · rw [Applies, heq]
    exact ⟨hget, target, parsed, hu⟩
  · exact hsupplies.chosen.applies hu

theorem SuppliesPattern.contains {k : κ} {site : Text × Record κ ν}
    (h : s.SuppliesPattern writes source target k site) : site.2.contains k = true := by
  rcases h with ⟨-, -, hk⟩ | ⟨-, hsupplies⟩
  · exact hk
  · exact hsupplies.contains

include parsed hu in
/-- Where a URL has a key from another record than the pattern has, there is a reason for it. -/
theorem SuppliesUrl.outranks {k : κ} {a b : Text × Record κ ν}
    (ha : s.SuppliesPattern writes source target k a) (hb : s.SuppliesUrl writes url k b)
    (hne : a ≠ b) : s.Outranks writes source target b.1 := by
  have happlies := ha.applies parsed hu
  have hpattern : a.1 ≠ b.1 := by
    intro heq
    have hrecord := happlies.1.symm.trans ((congrArg s.get? heq).trans hb.chosen.1)
    exact hne (Prod.ext heq (Option.some.inj hrecord))
  have hbelow : GivesWay writes a.1 b.1 := hb.uppermost a happlies ha.contains hpattern
  obtain ⟨hget, q, hq, -⟩ := hb.chosen
  rcases ha with ⟨hsource, hown, -⟩ | ⟨hlacks, hsupplies⟩
  · -- the pattern's own record gave way, so the other pattern is above it
    rw [hsource] at hbelow hpattern
    obtain ⟨p', q', hp', hq', hrel⟩ := hbelow
    obtain rfl : p' = target := Option.some.inj (hp'.symm.trans parsed)
    obtain rfl : q' = q := Option.some.inj (hq'.symm.trans hq)
    refine ⟨q', hq, ?_⟩
    rcases hrel with hlower | ⟨hspecificity, hlater⟩
    · exact .inl hlower
    · exact .inr (.inr ⟨Ne.symm hpattern, hspecificity.symm, Option.isSome_of_eq_some hown, hlater⟩)
  · refine ⟨q, hq, ?_⟩
    by_cases hlower : target.specificity.Lower q.specificity
    · exact .inl hlower
    by_cases hcovers : q.covers target = true
    · -- it would be an ancestor, and the uppermost one is below it
      exfalso
      have hother : b.1 ≠ source := by
        intro heq
        have hk := hlacks b.2 (heq ▸ hget)
        rw [hb.contains] at hk
        cases hk
      have hle := Specificity.le_iff_not_lower.2 hlower
      have hancestor : s.IsAncestor source target b :=
        ⟨hget, hother, q, hq, hlower, (Pattern.covers_iff_of_le hle).1 hcovers⟩
      exact hbelow.asymm (hsupplies.uppermost b hancestor hb.contains (Ne.symm hpattern))
    · exact .inr (.inl (by simpa using hcovers))

end Url

/-- A pattern takes each of its keys from the record that supplies it. -/
theorem Tracks.exists_suppliesPattern [PartialEquivBEq κ] {s : Store κ ν} {writes : List Text}
    (h : s.Tracks writes) {source : Text} {target : Pattern}
    (parsed : Pattern.parse? source = some target) {r : Record κ ν}
    (hr : s.resolvePattern source = some r) {k : κ} (hk : r.contains k = true) :
    ∃ a, s.SuppliesPattern writes source target k a ∧ r.get? k = a.2.get? k := by
  obtain ⟨records, hstack, -, hoverlay⟩ := h.exists_stack_ancestors source target
  simp only [resolvePattern, parsed, hstack] at hr
  cases hown : s.get? source with
  | none =>
    simp only [hown] at hr
    rw [eq_of_overlaid_eq_some hr] at hoverlay
    obtain ⟨a, ha, hget⟩ := hoverlay.exists_supplies hk
    exact ⟨a, .inr ⟨by simp [hown], ha⟩, hget⟩
  | some own =>
    simp only [hown, getD_overlaid, Option.some.injEq] at hr
    subst hr
    cases hmine : own.contains k with
    | true =>
      obtain ⟨v, hv⟩ := OrderedMap.contains_eq_true_iff.1 hmine
      refine ⟨(source, own), .inl ⟨rfl, hown, hmine⟩, ?_⟩
      rw [OrderedMap.get?_overlay, hv]
      rfl
    | false =>
      rw [OrderedMap.contains_overlay, hmine, Bool.false_or] at hk
      obtain ⟨a, ha, hget⟩ := hoverlay.exists_supplies hk
      refine ⟨a, .inr ⟨by simp [hown, hmine], ha⟩, ?_⟩
      rw [OrderedMap.get?_overlay, OrderedMap.contains_eq_false_iff.1 hmine, Option.none_or, hget]

/-- If a pattern gets something, a stored pattern applies to its URLs. -/
theorem Tracks.exists_applies [PartialEquivBEq κ] {s : Store κ ν} {writes : List Text}
    (h : s.Tracks writes) {source : Text} {target : Pattern} {url : Url}
    (parsed : Pattern.parse? source = some target) (hu : target.accepts url = true)
    {r : Record κ ν} (hr : s.resolvePattern source = some r) : ∃ site, s.Applies url site := by
  obtain ⟨records, hstack, hnil, -⟩ := h.exists_stack_ancestors source target
  simp only [resolvePattern, parsed, hstack] at hr
  cases hown : s.get? source with
  | some own => exact ⟨(source, own), hown, target, parsed, hu⟩
  | none =>
    simp only [hown] at hr
    have hne : records ≠ [] := by
      rintro rfl
      cases hr
    have hexists : ∃ site, s.IsAncestor source target site :=
      Classical.byContradiction fun hnone => hne (hnil.2 (not_exists.1 hnone))
    obtain ⟨site, hsite⟩ := hexists
    exact ⟨site, hsite.applies hu⟩

/-- Every key of a pattern is one of each URL to which it applies. The URL has it from the same
record as the pattern, unless it has it from a pattern that prevails. -/
theorem resolvePattern_within_resolveUrl [PartialEquivBEq κ] {s : Store κ ν} {writes : List Text}
    (built : Built s writes) {source text : Text} {target : Pattern} {url : Url}
    (parsedPattern : Pattern.parse? source = some target) (parsedUrl : Url.parse? text = some url)
    (applies : target.accepts url = true) {r : Record κ ν}
    (hr : s.resolvePattern source = some r) :
    ∃ r', s.resolveUrl text = some r' ∧ ∀ k, r.contains k = true → r'.contains k = true ∧
      ∃ a b, s.SuppliesPattern writes source target k a ∧ r.get? k = a.2.get? k ∧
        s.SuppliesUrl writes url k b ∧ r'.get? k = b.2.get? k ∧
        (a ≠ b → s.Outranks writes source target b.1) := by
  have htracks := built.tracks
  obtain ⟨records, hstack, hnil, hoverlay⟩ := htracks.exists_stack_layersFor url
  have hsome : overlaid records = some (OrderedMap.overlayAll records) := by
    have hne : records ≠ [] := by
      intro heq
      obtain ⟨site, hsite⟩ := htracks.exists_applies parsedPattern applies hr
      exact hnil.1 heq site hsite
    cases hrecords : records with
    | nil => exact absurd hrecords hne
    | cons => rfl
  refine ⟨OrderedMap.overlayAll records, ?_, fun k hk => ?_⟩
  · rw [resolveUrl, parsedUrl, ← hsome]
    exact hstack
  · obtain ⟨a, ha, hgeta⟩ := htracks.exists_suppliesPattern parsedPattern hr hk
    have hk' : (OrderedMap.overlayAll records).contains k = true :=
      (hoverlay.contains_iff k).2 ⟨a, ha.applies parsedPattern applies, ha.contains⟩
    obtain ⟨b, hb, hgetb⟩ := hoverlay.exists_supplies hk'
    exact ⟨hk', a, b, ha, hgeta, hb, hgetb, SuppliesUrl.outranks parsedPattern applies ha hb⟩

/-- The domain has `20` for the first key; a site in it, which is more specific, has `30`. -/
theorem resolvePattern_within_resolveUrl_nested : Built nested nestedWrites ∧
    ∃ target url r, Pattern.parse? (Text.ofString "https://*.b.c") = some target ∧
      Url.parse? (Text.ofString "https://a.b.c/") = some url ∧ target.accepts url = true ∧
      nested.resolvePattern (Text.ofString "https://*.b.c") = some r ∧ r.get? 1 = some 20 ∧
      ∃ r', nested.resolveUrl (Text.ofString "https://a.b.c/") = some r' ∧ r'.get? 1 = some 30 ∧
        ∃ b, nested.SuppliesUrl nestedWrites url 1 b ∧
          nested.Outranks nestedWrites (Text.ofString "https://*.b.c") target b.1 := by
  have hlayers : ∃ target url own inherited r',
      Pattern.parse? (Text.ofString "https://*.b.c") = some target ∧
      Url.parse? (Text.ofString "https://a.b.c/") = some url ∧ target.accepts url = true ∧
      nested.get? (Text.ofString "https://*.b.c") = some own ∧ own.entries = [(1, 20)] ∧
      (nested.ancestors (Text.ofString "https://*.b.c") target).Pairwise
        (fun a b => a.under b = true) ∧
      overlaid ((nested.ancestors (Text.ofString "https://*.b.c") target).map Layer.record) =
        some inherited ∧
      (nested.layersFor url).Pairwise (fun a b => a.under b = true) ∧
      overlaid ((nested.layersFor url).map Layer.record) = some r' ∧
      r'.entries = [(1, 30), (2, 40)] :=
    ⟨_, _, _, _, _, rfl, rfl, by decide, rfl, rfl, by decide, rfl, by decide, rfl, rfl⟩
  obtain ⟨target, url, own, inherited, r', htarget, hurl, happlies, hown, hentries, hsorted,
    hinherited, hsorted', hr', hentries'⟩ := hlayers
  rw [← resolveUrl_of_pairwise hurl hsorted'] at hr'
  have hr : nested.resolvePattern (Text.ofString "https://*.b.c") =
      some (inherited.overlay own) := by
    simp only [resolvePattern, htarget, stack_of_pairwise hsorted, hinherited, hown,
      Option.getD_some]
  have hmine : (inherited.overlay own).get? 1 = some 20 := by
    rw [OrderedMap.get?_overlay, OrderedMap.get?, hentries]
    rfl
  have hthere : r'.get? 1 = some 30 := by
    rw [OrderedMap.get?, hentries']
    rfl
  obtain ⟨r'', hr'', hwithin⟩ :=
    resolvePattern_within_resolveUrl built_nested htarget hurl happlies hr
  cases hr'.symm.trans hr''
  obtain ⟨-, a, b, -, hgeta, hb, hgetb, houtranks⟩ :=
    hwithin 1 (OrderedMap.contains_eq_true_iff.2 ⟨20, hmine⟩)
  refine ⟨built_nested, target, url, _, htarget, hurl, happlies, hr, hmine, r', hr', hthere, b, hb,
    houtranks ?_⟩
  -- the two records have different values for the key
  rintro rfl
  rw [← hgeta, hmine, hthere] at hgetb
  cases hgetb

end SiteRules.Store
