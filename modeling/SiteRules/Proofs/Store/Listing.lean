import SiteRules.Proofs.Store.Resolution

/-!
# The listing of a store

The patterns of a store are listed in strictly descending order, the most specific one first and,
among equals, the one last written first (`Tracks.pairwise_patterns`). Resolution lays records over
one another in ascending order. As no two patterns tie, the two orders mirror each other on whatever
patterns apply to a URL, and so a URL has each key from the first listed pattern that applies to it
and has the key (`patterns_explain_resolveUrl`).
-/

namespace SiteRules.Store

variable {κ ν : Type} [BEq κ]

/-! ## Values for a URL -/

/-- The value that a URL text gets for a key, if it gets one. -/
def valueFor (s : Store κ ν) (source : Text) (k : κ) : Option ν :=
  (s.resolveUrl source).bind fun r => r.get? k

/-- A stored pattern applies to a URL, and its record has a key. -/
def Has (s : Store κ ν) (url : Url) (k : κ) (p : Text) : Prop :=
  ∃ record, s.Applies url (p, record) ∧ record.contains k = true

/-- A stored pattern applies to a URL, and its record has a value for a key. -/
def Gives (s : Store κ ν) (url : Url) (k : κ) (v : ν) (p : Text) : Prop :=
  ∃ record, s.Applies url (p, record) ∧ record.get? k = some v

theorem has_iff_gives {s : Store κ ν} {url : Url} {k : κ} {p : Text} :
    s.Has url k p ↔ ∃ v, s.Gives url k v p := by
  unfold Has Gives
  simp only [OrderedMap.contains_eq_true_iff, ← exists_and_left]
  exact exists_comm

/-- Patterns that apply give way to each other as they are ranked. -/
theorem Has.givesWay_iff {s : Store κ ν} {writes : List Text} {url : Url} {k : κ} {a b : Text}
    (ha : s.Has url k a) (hb : s.Has url k b) : GivesWay writes a b ↔ Precedes writes a b := by
  obtain ⟨_, ⟨-, p, hp, -⟩, -⟩ := ha
  obtain ⟨_, ⟨-, q, hq, -⟩, -⟩ := hb
  exact Store.givesWay_iff hp hq

theorem decides_iff_gives {s : Store κ ν} {below : Text → Text → Prop} {url : Url} {k : κ} {v : ν} :
    Decides below (s.Applies url) k v ↔
      ∃ p, s.Gives url k v p ∧ ∀ q, s.Has url k q → q ≠ p → below q p := by
  constructor
  · intro ⟨site, happlies, hv, hbelow⟩
    refine ⟨site.1, ⟨site.2, happlies, hv⟩, ?_⟩
    intro q ⟨record, hq, hk⟩ hne
    exact hbelow (q, record) hq hk hne
  · intro ⟨p, ⟨record, happlies, hv⟩, hbelow⟩
    refine ⟨(p, record), happlies, hv, ?_⟩
    intro other hother hk hne
    exact hbelow other.1 ⟨other.2, hother, hk⟩ hne

section Values

variable [PartialEquivBEq κ] {s : Store κ ν} {writes : List Text} (h : s.Tracks writes)
  {source : Text} {url : Url} (parsed : Url.parse? source = some url)

include h parsed

/-- The value for a key is the one that the uppermost of the patterns that have the key gives. -/
theorem Tracks.valueFor_eq_some_iff {k : κ} {v : ν} : s.valueFor source k = some v ↔
    ∃ p, s.Gives url k v p ∧ ∀ q, s.Has url k q → q ≠ p → GivesWay writes q p := by
  obtain ⟨records, hstack, -, hoverlay⟩ := h.exists_stack_layersFor url
  have hvalue : s.valueFor source k = (OrderedMap.overlayAll records).get? k := by
    simp only [valueFor, resolveUrl, parsed, hstack]
    cases records <;> rfl
  rw [hvalue, hoverlay.get?_iff]
  exact decides_iff_gives

theorem Tracks.valueFor_isSome_iff {k : κ} :
    (s.valueFor source k).isSome = true ↔ ∃ p, s.Has url k p := by
  obtain ⟨records, hstack, -, hoverlay⟩ := h.exists_stack_layersFor url
  have hvalue : (s.valueFor source k).isSome = (OrderedMap.overlayAll records).contains k := by
    simp only [valueFor, resolveUrl, parsed, hstack]
    cases records <;> rfl
  rw [hvalue, hoverlay.contains_iff]
  exact Prod.exists

end Values

/-! ## The order of the listing -/

/-- The first text of a list with a property. -/
def IsFirst (Q : Text → Prop) (texts : List Text) (p : Text) : Prop :=
  ∃ above below, texts = above ++ p :: below ∧ Q p ∧ ∀ q ∈ above, ¬Q q

/-- Whatever pattern `b` is, `a` is one, too, and no less specific. -/
def NoLower (a b : Text) : Prop :=
  ∀ q, Pattern.parse? b = some q →
    ∃ p, Pattern.parse? a = some p ∧ ¬p.specificity.Lower q.specificity

theorem Precedes.noLower {writes : List Text} {a b : Text} (h : Precedes writes b a) :
    NoLower a b := by
  intro q hq
  have hrank : rank b ≤ rank a := by
    unfold Precedes at h
    omega
  rw [rank_eq hq] at hrank
  cases hp : Pattern.parse? a with
  | none =>
    -- a text that is no pattern has the rank zero
    have hzero : rank a = 0 := by rw [rank, hp]
    omega
  | some p =>
    refine ⟨p, rfl, ?_⟩
    rw [rank_eq hp] at hrank
    rw [Specificity.lower_iff]
    omega

namespace Tracks

variable {s : Store κ ν} {writes : List Text} (h : s.Tracks writes)

include h

theorem mem_patterns_iff {p : Text} : p ∈ s.patterns ↔ (s.get? p).isSome = true := by
  rw [h.patterns_eq, List.mem_reverse, List.mem_map, Option.isSome_iff_exists]
  simp only [mem_ranked]
  constructor
  · intro ⟨site, hsite, heq⟩
    exact ⟨site.2, heq ▸ hsite⟩
  · intro ⟨record, hp⟩
    exact ⟨(p, record), hp, rfl⟩

/-- The listing is in strictly descending order. -/
theorem pairwise_patterns : s.patterns.Pairwise fun a b => Precedes writes b a := by
  rw [h.patterns_eq, List.pairwise_reverse, List.pairwise_map]
  exact h.pairwise_ranked

theorem nodup_patterns : s.patterns.Nodup := by
  refine h.pairwise_patterns.imp fun {a b} hab heq => ?_
  rw [heq] at hab
  exact hab.asymm hab

theorem mem_patterns_of_has {url : Url} {k : κ} {p : Text} (hp : s.Has url k p) :
    p ∈ s.patterns := by
  obtain ⟨record, happlies, -⟩ := hp
  rw [h.mem_patterns_iff, show s.get? p = some record from happlies.1]
  rfl

/-- The uppermost of the patterns that have a key is the first listed one of them. -/
theorem isFirst_iff {url : Url} {k : κ} {p : Text} :
    IsFirst (s.Has url k) s.patterns p ↔
      s.Has url k p ∧ ∀ q, s.Has url k q → q ≠ p → GivesWay writes q p := by
  have hsorted := h.pairwise_patterns
  constructor
  · intro ⟨above, below, hsplit, hp, habove⟩
    refine ⟨hp, fun q hq hne => ?_⟩
    have hmem := h.mem_patterns_of_has hq
    rw [hsplit, List.mem_append, List.mem_cons] at hmem
    have hunder : q ∈ below := by
      refine (hmem.resolve_left fun hup => ?_).resolve_left hne
      exact habove q hup hq
    rw [hsplit] at hsorted
    apply (hq.givesWay_iff hp).2
    exact List.rel_of_pairwise_cons (List.pairwise_append.1 hsorted).2.1 hunder
  · intro ⟨hp, hbelow⟩
    obtain ⟨above, below, hsplit⟩ := List.append_of_mem (h.mem_patterns_of_has hp)
    refine ⟨above, below, hsplit, hp, fun q hup hq => ?_⟩
    rw [hsplit] at hsorted
    -- a pattern above that has the key would be below as well
    have hprecedes : Precedes writes p q :=
      (List.pairwise_append.1 hsorted).2.2 q hup p List.mem_cons_self
    have hne : q ≠ p := by
      intro heq
      rw [heq] at hprecedes
      exact hprecedes.asymm hprecedes
    exact hprecedes.asymm ((hq.givesWay_iff hp).1 (hbelow q hq hne))

end Tracks

/-- The listing names every stored pattern once, in the reverse order of the ranked list and with no
pattern below a less specific one or below a text that is no pattern. A URL has the keys that a
listed pattern has that applies to it, each with the value from the first such pattern. -/
theorem patterns_explain_resolveUrl [PartialEquivBEq κ] {s : Store κ ν} {writes : List Text}
    (built : Built s writes) :
    (s.patterns.Nodup ∧ ∀ p, p ∈ s.patterns ↔ (s.get? p).isSome = true) ∧
    s.patterns = (s.ranked.map Prod.fst).reverse ∧
    s.patterns.Pairwise NoLower ∧
    ∀ source url, Url.parse? source = some url → ∀ k,
      ((s.valueFor source k).isSome = true ↔ ∃ p ∈ s.patterns, s.Has url k p) ∧
      ∀ v, s.valueFor source k = some v ↔
        ∃ p, IsFirst (s.Has url k) s.patterns p ∧ s.Gives url k v p := by
  have htracks := built.tracks
  refine ⟨⟨htracks.nodup_patterns, fun p => htracks.mem_patterns_iff⟩, htracks.patterns_eq,
    htracks.pairwise_patterns.imp Precedes.noLower, fun source url parsed k => ⟨?_, fun v => ?_⟩⟩
  · rw [htracks.valueFor_isSome_iff parsed]
    refine exists_congr fun p => ?_
    exact (and_iff_right_of_imp htracks.mem_patterns_of_has).symm
  · rw [htracks.valueFor_eq_some_iff parsed]
    refine exists_congr fun p => ?_
    rw [htracks.isFirst_iff, and_right_comm, and_iff_right_of_imp fun hv => has_iff_gives.2 ⟨v, hv⟩]

/-- The second key of the site comes from the pattern that is listed last, the only one to have
it. -/
theorem patterns_explain_resolveUrl_nested : Built nested nestedWrites ∧
    nested.patterns = [Text.ofString "https://a.b.c", Text.ofString "https://*.b.c",
      Text.ofString "*"] ∧
    ∃ url, Url.parse? (Text.ofString "https://a.b.c/") = some url ∧
      nested.valueFor (Text.ofString "https://a.b.c/") 2 = some 40 ∧
      ∃ p, IsFirst (nested.Has url 2) nested.patterns p ∧ nested.Gives url 2 40 p := by
  have hlayers : ∃ url, Url.parse? (Text.ofString "https://a.b.c/") = some url ∧
      (nested.layersFor url).Pairwise (fun a b => a.under b = true) ∧
      ∃ r, overlaid ((nested.layersFor url).map Layer.record) = some r ∧ r.get? 2 = some 40 :=
    ⟨_, rfl, by decide, _, rfl, rfl⟩
  obtain ⟨url, hurl, hsorted, r, hr, hvalue⟩ := hlayers
  have hforty : nested.valueFor (Text.ofString "https://a.b.c/") 2 = some 40 := by
    rw [valueFor, resolveUrl_of_pairwise hurl hsorted, hr]
    exact hvalue
  -- the patterns first appeared in ascending order
  have hranked : nested.rankedEntries = nested.entries.entries :=
    List.mergeSort_of_pairwise (by decide)
  obtain ⟨-, hreverse, -, hvalues⟩ := patterns_explain_resolveUrl built_nested
  rw [ranked_eq, hranked] at hreverse
  exact ⟨built_nested, hreverse, url, hurl, hforty, ((hvalues _ url hurl 2).2 40).1 hforty⟩

end SiteRules.Store
