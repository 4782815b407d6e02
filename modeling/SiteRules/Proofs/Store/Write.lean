import SiteRules.Proofs.Store.Listing

/-!
# What a write changes

A write changes one value of one record, and makes its pattern the latest written one. The first
matters only where no more specific pattern has the key. The second can change other keys, too:
among equally specific patterns that apply to a URL, the latest written one prevails with all that
its record has (`merge_changes`).
-/

namespace SiteRules.Store

variable {κ ν : Type} [BEq κ]

/-! ## Values in records -/

/-- The value that the record of a pattern text has for a key. -/
def valueIn (s : Store κ ν) (p : Text) (k : κ) : Option ν :=
  (s.get? p).bind fun record => record.get? k

theorem gives_iff {s : Store κ ν} {url : Url} {k : κ} {v : ν} {p : Text} :
    s.Gives url k v p ↔ IsFor url p ∧ s.valueIn p k = some v := by
  simp only [Gives, Applies, valueIn, Option.bind_eq_some_iff]
  constructor
  · rintro ⟨record, ⟨hp, hfor⟩, hv⟩
    exact ⟨hfor, record, hp, hv⟩
  · rintro ⟨hfor, record, hp, hv⟩
    exact ⟨record, ⟨hp, hfor⟩, hv⟩

section Merge

variable [PartialEquivBEq κ] (s : Store κ ν) (p : Text) (k : κ) (v : ν)

/-- A write changes the value of its key in the record of its pattern only. -/
theorem valueIn_merge (q : Text) (j : κ) : (s.merge p k v).valueIn q j =
    if p = q ∧ (k == j) = true then some v else s.valueIn q j := by
  unfold valueIn
  rw [get?_merge]
  by_cases hq : p = q
  · subst hq
    rw [if_pos rfl, Option.bind_some, OrderedMap.get?_insert]
    -- a pattern that is not stored begins with the empty record
    cases s.get? p <;> simp
  · rw [if_neg hq, if_neg fun hboth => hq hboth.1]

theorem gives_merge_iff {url : Url} {q : Text} {j : κ} {w : ν} (hne : ¬(p = q ∧ (k == j) = true)) :
    (s.merge p k v).Gives url j w q ↔ s.Gives url j w q := by
  rw [gives_iff, gives_iff, valueIn_merge, if_neg hne]

theorem has_merge_iff {url : Url} {q : Text} {j : κ} (hne : ¬(p = q ∧ (k == j) = true)) :
    (s.merge p k v).Has url j q ↔ s.Has url j q := by
  simp only [has_iff_gives, gives_merge_iff s p k v hne]

end Merge

/-- A key that a pattern has is not lost by a write. -/
theorem Has.merge [PartialEquivBEq κ] {s : Store κ ν} {url : Url} {q : Text} {j : κ}
    (h : s.Has url j q) (p : Text) (k : κ) (v : ν) : (s.merge p k v).Has url j q := by
  by_cases hboth : p = q ∧ (k == j) = true
  · obtain ⟨w, hw⟩ := has_iff_gives.1 h
    rw [gives_iff] at hw
    rw [has_iff_gives]
    refine ⟨v, gives_iff.2 ⟨hw.1, ?_⟩⟩
    rw [valueIn_merge, if_pos hboth]
  · exact (has_merge_iff s p k v hboth).2 h

/-! ## The latest written pattern -/

/-- A further write moves its own pattern only, and this only among patterns of the same rank. -/
theorem givesWay_append_iff {writes : List Text} {p a b : Text}
    (h : rank a = rank b → p ≠ a ∧ p ≠ b) :
    GivesWay (writes ++ [p]) a b ↔ GivesWay writes a b := by
  unfold GivesWay
  refine exists_congr fun x => exists_congr fun y => and_congr_right fun hx =>
    and_congr_right fun hy => or_congr Iff.rfl (and_congr_right fun heq => ?_)
  obtain ⟨ha, hb⟩ := h (by rw [rank_eq hx, rank_eq hy, heq])
  rw [lastWrite_append_of_ne ha, lastWrite_append_of_ne hb]

/-- Whatever is not more specific gives way to the latest written pattern. -/
theorem givesWay_append_self {writes : List Text} {p q : Text} {x y : Pattern}
    (hx : Pattern.parse? p = some x) (hy : Pattern.parse? q = some y) (hne : q ≠ p)
    (h : ¬x.specificity.Lower y.specificity) : GivesWay (writes ++ [p]) q p := by
  have hlast : lastWrite (writes ++ [p]) q < lastWrite (writes ++ [p]) p := by
    rw [lastWrite_append_of_ne hne.symm, lastWrite_append_self]
    exact Nat.lt_succ_of_le (lastWrite_le_length writes q)
  rw [givesWay_iff hy hx, Precedes, rank_eq hx, rank_eq hy]
  rw [Specificity.lower_iff] at h
  omega

/-! ## What URLs get after a write -/

/-- A pattern that is more specific than `x` applies to a URL and has a key. -/
def HasAbove (s : Store κ ν) (url : Url) (k : κ) (x : Pattern) : Prop :=
  ∃ q y, Pattern.parse? q = some y ∧ x.specificity.Lower y.specificity ∧ s.Has url k q

/-- A pattern other than `p` that is as specific as `x` applies to a URL and has a key. -/
def HasBeside (s : Store κ ν) (url : Url) (k : κ) (p : Text) (x : Pattern) : Prop :=
  ∃ q y, q ≠ p ∧ Pattern.parse? q = some y ∧ y.specificity = x.specificity ∧ s.Has url k q

theorem Has.beside {s : Store κ ν} {url : Url} {k : κ} {p q : Text} {x : Pattern}
    (h : s.Has url k q) (hx : Pattern.parse? p = some x) (hne : q ≠ p) (hrank : rank q = rank p) :
    s.HasBeside url k p x := by
  obtain ⟨_, ⟨-, y, hy, -⟩, -⟩ := id h
  refine ⟨q, y, hne, hy, Specificity.weight_inj ?_, h⟩
  rw [rank_eq hx, rank_eq hy] at hrank
  omega

/-- A write adds no key above its pattern. -/
theorem hasAbove_merge_iff [PartialEquivBEq κ] {s : Store κ ν} {url : Url} {p : Text} {x : Pattern}
    (hx : Pattern.parse? p = some x) (k : κ) (v : ν) (j : κ) :
    (s.merge p k v).HasAbove url j x ↔ s.HasAbove url j x := by
  unfold HasAbove
  refine exists_congr fun q => exists_congr fun y => and_congr_right fun hy =>
    and_congr_right fun hlower => ?_
  rw [has_merge_iff]
  intro hboth
  rw [← hboth.1, hx, Option.some.injEq] at hy
  rw [hy, Specificity.lower_iff] at hlower
  omega

/-- Nothing is above a pattern of the highest rank. -/
theorem not_hasAbove_of_rank_le {s : Store κ ν} {p : Text} {x : Pattern}
    (hx : Pattern.parse? p = some x) (hle : ∀ e ∈ s.entries.entries, rank e.1 ≤ rank p) (url : Url)
    (k : κ) : ¬s.HasAbove url k x := by
  intro ⟨q, y, hy, hlower, record, happlies, _⟩
  obtain ⟨n, hn⟩ := get?_eq_some_iff.1 happlies.1
  have hrank := hle _ (OrderedMap.mem_entries_iff.2 hn)
  rw [Specificity.lower_iff] at hlower
  rw [rank_eq hx, rank_eq hy] at hrank
  omega

section Tracks

variable {s : Store κ ν} {writes : List Text} (h : s.Tracks writes) (p : Text) (k : κ) (v : ν)

include h

/-- A write to a pattern that does not apply to a URL leaves the records that do as they are. -/
theorem Tracks.stack_layersFor_merge_eq {url : Url} (hno : ¬IsFor url p) :
    stack ((s.merge p k v).layersFor url) = stack (s.layersFor url) := by
  have hs := h.merge p k v
  have hmem : ∀ site, (s.merge p k v).Applies url site ↔ s.Applies url site := by
    intro site
    refine and_congr_left fun hfor => ?_
    have hne : p ≠ site.1 := fun heq => hno (heq ▸ hfor)
    rw [get?_merge, if_neg hne]
  rw [hs.stack_layersFor, h.stack_layersFor]
  congr 2
  -- the two selections have the same members, in the same order
  refine Sorted.eq_of_pairwise GivesWay.asymm ?_ (h.pairwise_applying url) fun site => ?_
  · refine (hs.pairwise_applying url).imp_of_mem fun {a b} ha hb hab => ?_
    have hne : ∀ site, (s.merge p k v).Applies url site → p ≠ site.1 :=
      fun site hsite heq => hno (heq ▸ hsite.2)
    rwa [givesWay_append_iff] at hab
    exact fun _ => ⟨hne a (mem_applying_iff.1 ha), hne b (mem_applying_iff.1 hb)⟩
  · rw [mem_applying_iff, mem_applying_iff, hmem]

variable [PartialEquivBEq κ] {source : Text} {url : Url} (parsed : Url.parse? source = some url)
  {x : Pattern} (hx : Pattern.parse? p = some x)

include parsed hx

/-- All that the record of the written pattern has is in effect, except for keys that a more
specific pattern has. -/
theorem Tracks.valueFor_merge_of_valueIn (hfor : x.accepts url = true) {j : κ} {w : ν}
    (hw : (s.merge p k v).valueIn p j = some w) (hno : ¬(s.merge p k v).HasAbove url j x) :
    (s.merge p k v).valueFor source j = some w := by
  rw [(h.merge p k v).valueFor_eq_some_iff parsed]
  refine ⟨p, gives_iff.2 ⟨⟨x, hx, hfor⟩, hw⟩, fun q hq hne => ?_⟩
  obtain ⟨_, ⟨-, y, hy, -⟩, -⟩ := id hq
  apply givesWay_append_self hx hy hne
  intro hlower
  exact hno ⟨q, y, hy, hlower, hq⟩

/-- Another key keeps its value, unless the pattern has it and an equally specific one has, too. -/
theorem Tracks.valueFor_merge_of_ne {j : κ} (hj : (k == j) = false)
    (hno : ¬(s.Has url j p ∧ s.HasBeside url j p x)) :
    (s.merge p k v).valueFor source j = s.valueFor source j := by
  have hne : ∀ {q : Text}, ¬(p = q ∧ (k == j) = true) := by
    intro q hboth
    rw [hj] at hboth
    cases hboth.2
  -- among the patterns that have the key, none that ties has been written
  have hway : ∀ {a b : Text}, s.Has url j a → s.Has url j b → b ≠ a →
      (GivesWay (writes ++ [p]) b a ↔ GivesWay writes b a) := by
    intro a b ha hb hab
    apply givesWay_append_iff
    intro hrank
    constructor
    · intro heq
      subst heq
      exact hno ⟨hb, ha.beside hx hab.symm hrank.symm⟩
    · intro heq
      subst heq
      exact hno ⟨ha, hb.beside hx hab hrank⟩
  ext w
  rw [(h.merge p k v).valueFor_eq_some_iff parsed, h.valueFor_eq_some_iff parsed]
  refine exists_congr fun a => ?_
  rw [gives_merge_iff s p k v hne]
  refine and_congr_right fun ha => forall_congr' fun b => ?_
  rw [has_merge_iff s p k v hne]
  refine imp_congr_right fun hb => imp_congr_right fun hab => ?_
  exact hway (has_iff_gives.2 ⟨w, ha⟩) hb hab

end Tracks

/-- A write changes nothing for a URL to which its pattern does not apply. Otherwise no key is lost,
the written value is in effect unless a more specific pattern has the key, and any other key keeps
its value unless the pattern has it and an equally specific one that applies has it, too. -/
theorem merge_changes [EquivBEq κ] {s : Store κ ν} {writes : List Text} (built : Built s writes)
    (p : Text) (k : κ) (v : ν) (source : Text) :
    ((∀ url, Url.parse? source = some url → ¬IsFor url p) →
      (s.merge p k v).resolveUrl source = s.resolveUrl source) ∧
    ∀ url x, Url.parse? source = some url → Pattern.parse? p = some x → x.accepts url = true →
      (∀ j, (s.valueFor source j).isSome = true →
        ((s.merge p k v).valueFor source j).isSome = true) ∧
      (¬s.HasAbove url k x → (s.merge p k v).valueFor source k = some v) ∧
      ∀ j, (k == j) = false → ¬(s.Has url j p ∧ s.HasBeside url j p x) →
        (s.merge p k v).valueFor source j = s.valueFor source j := by
  have htracks := built.tracks
  constructor
  · intro hno
    unfold resolveUrl
    cases hurl : Url.parse? source with
    | none => rfl
    | some url => exact htracks.stack_layersFor_merge_eq p k v (hno url hurl)
  · intro url x hurl hx hfor
    refine ⟨fun j hj => ?_, fun hno => ?_, fun j => htracks.valueFor_merge_of_ne p k v hurl hx⟩
    · rw [(htracks.merge p k v).valueFor_isSome_iff hurl]
      rw [htracks.valueFor_isSome_iff hurl] at hj
      obtain ⟨q, hq⟩ := hj
      exact ⟨q, hq.merge p k v⟩
    · apply htracks.valueFor_merge_of_valueIn p k v hurl hx hfor
      · rw [valueIn_merge, if_pos ⟨rfl, BEq.rfl⟩]
      · rwa [hasAbove_merge_iff hx]

/-- A store for two spellings of a site. -/
def respelled : Store Nat Nat :=
  let first := empty.merge (Text.ofString "http://a") 1 10
  let second := first.merge (Text.ofString "http://a") 2 20
  second.merge (Text.ofString "HTTP://a") 1 30

/-- The history of `respelled`. -/
def respelledWrites : List Text :=
  [Text.ofString "http://a", Text.ofString "http://a", Text.ofString "HTTP://a"]

theorem built_respelled : Built respelled respelledWrites :=
  .merge (.merge (.merge .empty _ _ _) _ _ _) _ _ _

/-- The spellings of a site have the same rank. -/
theorem rank_le_of_mem_respelled : ∀ e ∈ respelled.entries.entries,
    rank e.1 ≤ rank (Text.ofString "http://a") ∧ rank e.1 ≤ rank (Text.ofString "HTTP://a") := by
  decide

/-- A further write in the second spelling changes nothing for another site, and does not touch the
key that only the first spelling has. -/
theorem merge_changes_respelled : Built respelled respelledWrites ∧
    let s := respelled.merge (Text.ofString "HTTP://a") 1 50
    s.resolveUrl (Text.ofString "http://b") = respelled.resolveUrl (Text.ofString "http://b") ∧
    s.valueFor (Text.ofString "http://a") 1 = some 50 ∧
    s.valueFor (Text.ofString "http://a") 2 =
      respelled.valueFor (Text.ofString "http://a") 2 := by
  have hother : ∃ x url, Pattern.parse? (Text.ofString "HTTP://a") = some x ∧
      Url.parse? (Text.ofString "http://b") = some url ∧ x.accepts url = false :=
    ⟨_, _, rfl, rfl, by decide⟩
  have hsite : ∃ x url, Pattern.parse? (Text.ofString "HTTP://a") = some x ∧
      Url.parse? (Text.ofString "http://a") = some url ∧ x.accepts url = true :=
    ⟨_, _, rfl, rfl, by decide⟩
  have hlacks : respelled.valueIn (Text.ofString "HTTP://a") 2 = none := rfl
  have hchanges := merge_changes built_respelled (Text.ofString "HTTP://a") 1 50
  refine ⟨built_respelled, (hchanges _).1 ?_, ?_⟩
  · obtain ⟨x, url, hx, hurl, hno⟩ := hother
    intro url' hurl' ⟨x', hx', haccepts⟩
    cases hurl.symm.trans hurl'
    cases hx.symm.trans hx'
    rw [hno] at haccepts
    cases haccepts
  · obtain ⟨x, url, hx, hurl, haccepts⟩ := hsite
    obtain ⟨-, hself, hne⟩ := (hchanges _).2 url x hurl hx haccepts
    refine ⟨hself ?_, ?_⟩
    · exact not_hasAbove_of_rank_le hx (fun e he => (rank_le_of_mem_respelled e he).2) url 1
    · apply hne 2 rfl
      intro ⟨hhas, _⟩
      obtain ⟨w, hw⟩ := has_iff_gives.1 hhas
      rw [gives_iff, hlacks] at hw
      cases hw.2

/-- A write in the first spelling also brings back its value for the key that both have. -/
theorem valueFor_merge_respelled :
    respelled.valueFor (Text.ofString "http://a") 1 = some 30 ∧
    (respelled.merge (Text.ofString "http://a") 2 40).valueFor (Text.ofString "http://a") 1 =
      some 10 := by
  have hsite : ∃ x url, Pattern.parse? (Text.ofString "http://a") = some x ∧
      Url.parse? (Text.ofString "http://a") = some url ∧ x.accepts url = true ∧
      (respelled.layersFor url).Pairwise (fun a b => a.under b = true) ∧
      ∃ r, overlaid ((respelled.layersFor url).map Layer.record) = some r ∧ r.get? 1 = some 30 :=
    ⟨_, _, rfl, rfl, by decide, by decide, _, rfl, rfl⟩
  obtain ⟨x, url, hx, hurl, haccepts, hsorted, r, hr, hvalue⟩ := hsite
  constructor
  · rw [valueFor, resolveUrl_of_pairwise hurl hsorted, hr]
    exact hvalue
  · apply built_respelled.tracks.valueFor_merge_of_valueIn _ 2 40 hurl hx haccepts rfl
    rw [hasAbove_merge_iff hx]
    exact not_hasAbove_of_rank_le hx (fun e he => (rank_le_of_mem_respelled e he).1) url 1

end SiteRules.Store
