import SiteRules.Proofs.Sorted
import SiteRules.Proofs.Store.History
import SiteRules.Store.Resolve

/-!
# The orders of a store

In a store that keeps the numbers of its history, no two patterns tie. So the lists `ranked`,
`written` and `patterns` are settled by the records and the history: they are strictly sorted
(`pairwise_ranked`, `pairwise_written`, `patterns_eq`). Resolution reads the ranked list only: it
lays the records that it selects over one another as they stand there (`stack_eq_overlaid`).
-/

namespace SiteRules.Store

variable {κ ν : Type} [BEq κ]

/-! ## Ranks and numbers -/

/-- `q` comes after `p`: it has a higher rank, or the same one and was written later. -/
def Precedes (writes : List Text) (p q : Text) : Prop :=
  rank p < rank q ∨ rank p = rank q ∧ lastWrite writes p < lastWrite writes q

theorem Precedes.asymm {writes : List Text} {p q : Text} (h : Precedes writes p q) :
    ¬Precedes writes q p := by
  unfold Precedes at h ⊢
  omega

theorem rank_eq {text : Text} {p : Pattern} (h : Pattern.parse? text = some p) :
    rank text = p.specificity.weight + 1 := by
  rw [rank, h]

theorem notAfter_eq_true_iff {a b : Nat × Nat} :
    notAfter a b = true ↔ a.1 < b.1 ∨ a.1 = b.1 ∧ a.2 ≤ b.2 := by
  simp only [notAfter, Bool.or_eq_true, Bool.and_eq_true, decide_eq_true_eq]

theorem notAfter_eq_false_iff {a b : Nat × Nat} :
    notAfter b a = false ↔ a.1 < b.1 ∨ a.1 = b.1 ∧ a.2 < b.2 := by
  rw [← Bool.not_eq_true, notAfter_eq_true_iff]
  omega

theorem notAfter_trans (a b c : Nat × Nat) (hab : notAfter a b = true)
    (hbc : notAfter b c = true) : notAfter a c = true := by
  rw [notAfter_eq_true_iff] at *
  omega

theorem notAfter_total (a b : Nat × Nat) : (notAfter a b || notAfter b a) = true := by
  rw [Bool.or_eq_true, notAfter_eq_true_iff, notAfter_eq_true_iff]
  omega

namespace Tracks

variable {s : Store κ ν} {writes : List Text} (h : s.Tracks writes)

include h

theorem pairwise_seq_ne : s.entries.entries.Pairwise fun a b => a.2.seq ≠ b.2.seq := by
  refine s.entries.distinct.imp_of_mem fun {a b} ha hb hne heq => ?_
  have hsame := h.seq_inj (OrderedMap.mem_entries_iff.1 ha) (OrderedMap.mem_entries_iff.1 hb) heq
  simp [hsame] at hne

/-- For stored patterns, the order by rank and number is the one by rank and history. -/
theorem precedes_iff {a b : Text × Entry κ ν} (ha : a ∈ s.entries.entries)
    (hb : b ∈ s.entries.entries) :
    Precedes writes a.1 b.1 ↔ notAfter (position b) (position a) = false := by
  have hseqa := h.seq_eq (OrderedMap.mem_entries_iff.1 ha)
  have hseqb := h.seq_eq (OrderedMap.mem_entries_iff.1 hb)
  rw [notAfter_eq_false_iff, Precedes, position, position]
  omega

end Tracks

/-! ## The ranked list -/

/-- The entries from least to most specific. -/
def rankedEntries (s : Store κ ν) : List (Text × Entry κ ν) :=
  s.entries.entries.mergeSort fun a b => notAfter (position a) (position b)

theorem ranked_eq (s : Store κ ν) : s.ranked = s.rankedEntries.map fun e => (e.1, e.2.record) :=
  rfl

theorem rankedEntries_perm (s : Store κ ν) : s.rankedEntries.Perm s.entries.entries :=
  List.mergeSort_perm _ _

theorem mem_site_iff {s : Store κ ν} {site : Text × Record κ ν} :
    (∃ e ∈ s.entries.entries, (e.1, e.2.record) = site) ↔ s.get? site.1 = some site.2 := by
  obtain ⟨p, r⟩ := site
  rw [get?_eq_some_iff]
  constructor
  · rintro ⟨⟨q, e⟩, he, heq⟩
    cases heq
    exact ⟨e.seq, OrderedMap.mem_entries_iff.1 he⟩
  · rintro ⟨n, hn⟩
    exact ⟨(p, ⟨r, n⟩), OrderedMap.mem_entries_iff.2 hn, rfl⟩

/-- The ranked list holds the stored patterns with their records. -/
theorem mem_ranked {s : Store κ ν} {site : Text × Record κ ν} :
    site ∈ s.ranked ↔ s.get? site.1 = some site.2 := by
  simp only [ranked_eq, List.mem_map, s.rankedEntries_perm.mem_iff, mem_site_iff]

/-- The list in the order of the writes holds the stored patterns with their records. -/
theorem mem_written {s : Store κ ν} {site : Text × Record κ ν} :
    site ∈ s.written ↔ s.get? site.1 = some site.2 := by
  simp only [written, List.mem_map, List.mem_mergeSort, mem_site_iff]

/-- Either list holds the stored patterns with their records. -/
theorem mem_listed {s : Store κ ν} {byRank : Bool} {site : Text × Record κ ν} :
    site ∈ s.listed byRank ↔ s.get? site.1 = some site.2 := by
  cases byRank with
  | false => exact mem_written
  | true => exact mem_ranked

namespace Tracks

variable {s : Store κ ν} {writes : List Text} (h : s.Tracks writes)

include h

theorem pairwise_rankedEntries :
    s.rankedEntries.Pairwise fun a b => notAfter (position b) (position a) = false := by
  refine Sorted.pairwise_mergeSort (fun a b => notAfter (position a) (position b))
    (fun a b c => notAfter_trans _ _ _) (fun a b => notAfter_total _ _) ?_
  -- entries that tie have the same number
  refine h.pairwise_seq_ne.imp fun {a b} hne hties => hne ?_
  rw [notAfter_eq_true_iff, notAfter_eq_true_iff, position, position] at hties
  omega

/-- The ranked list is sorted by rank and history, without ties. -/
theorem pairwise_ranked : s.ranked.Pairwise fun a b => Precedes writes a.1 b.1 := by
  rw [ranked_eq, List.pairwise_map]
  refine h.pairwise_rankedEntries.imp_of_mem fun ha hb hab => ?_
  rw [s.rankedEntries_perm.mem_iff] at ha hb
  exact (h.precedes_iff ha hb).2 hab

/-- The list in the order of the writes is sorted by the last writes, without ties. -/
theorem pairwise_written :
    s.written.Pairwise fun a b => lastWrite writes a.1 < lastWrite writes b.1 := by
  have hsorted := Sorted.pairwise_mergeSort
    (fun a b : Text × Entry κ ν => decide (a.2.seq ≤ b.2.seq))
    (fun a b c hab hbc => by simp only [decide_eq_true_eq] at *; omega)
    (fun a b => by simp only [Bool.or_eq_true, decide_eq_true_eq]; omega)
    (h.pairwise_seq_ne.imp fun {a b} hne hties => hne (by
      simp only [decide_eq_true_eq] at hties
      omega))
  rw [written, List.pairwise_map]
  refine hsorted.imp_of_mem fun {a b} ha hb hab => ?_
  have hseqa := h.seq_eq (OrderedMap.mem_entries_iff.1 (List.mem_mergeSort.1 ha))
  have hseqb := h.seq_eq (OrderedMap.mem_entries_iff.1 (List.mem_mergeSort.1 hb))
  simp only [decide_eq_false_iff_not] at hab
  show lastWrite writes a.1 < lastWrite writes b.1
  omega

/-- The patterns are listed in the reverse order of the ranked list. -/
theorem patterns_eq : s.patterns = (s.ranked.map Prod.fst).reverse := by
  -- without ties, sorting the other way round gives the reverse
  have hsort : s.entries.entries.mergeSort (fun a b => notAfter (position b) (position a)) =
      s.rankedEntries.reverse := by
    refine Sorted.mergeSort_eq (fun a b => notAfter (position b) (position a))
      (fun a b c hab hbc => notAfter_trans _ _ _ hbc hab) (fun a b => notAfter_total _ _)
      (s.rankedEntries_perm.symm.trans (List.reverse_perm _).symm) ?_
    exact List.pairwise_reverse.2 h.pairwise_rankedEntries
  rw [patterns, hsort, ranked_eq, List.map_map, ← List.map_reverse]
  rfl

end Tracks

theorem pairwise_number (n : Nat) (records : List (Text × Record κ ν)) :
    (number n records).Pairwise fun a b => a.2.seq ≤ b.2.seq := by
  induction records generalizing n with
  | nil => exact .nil
  | cons site rest ih =>
    refine List.pairwise_cons.2 ⟨fun e he => ?_, ih (n + 1)⟩
    obtain ⟨i, -, hseq⟩ := mem_number.1 he
    rw [hseq]
    show n ≤ n + 1 + i
    omega

/-- The records that a store is made of are listed in their order. -/
theorem written_ofRecords {records : List (Text × Record κ ν)}
    (distinct : (records.map Prod.fst).Nodup) : (ofRecords records).written = records := by
  have hsorted : (number 0 records).Pairwise fun a b => decide (a.2.seq ≤ b.2.seq) = true :=
    (pairwise_number 0 records).imp decide_eq_true
  rw [written, entries_ofRecords distinct, List.mergeSort_of_pairwise hsorted]
  exact map_record_number 0 records

/-! ## Resolution reads the ranked list -/

/-- Records laid over one another, if there are any. -/
def overlaid : List (Record κ ν) → Option (Record κ ν)
  | [] => none
  | records => some (OrderedMap.overlayAll records)

theorem stack_eq (layers : List (Layer κ ν)) :
    stack layers = overlaid ((layers.mergeSort Layer.under).map Layer.record) := by
  unfold stack
  cases layers.mergeSort Layer.under with
  | nil => rfl
  | cons layer rest => exact congrArg some (List.foldl_map (l := layer :: rest)).symm

/-- Layers that are in order are laid over one another as they are. -/
theorem stack_of_pairwise {layers : List (Layer κ ν)}
    (h : layers.Pairwise fun a b => a.under b = true) :
    stack layers = overlaid (layers.map Layer.record) := by
  rw [stack_eq, List.mergeSort_of_pairwise h]

theorem resolveUrl_of_pairwise {s : Store κ ν} {source : Text} {url : Url}
    (parsed : Url.parse? source = some url)
    (h : (s.layersFor url).Pairwise fun a b => a.under b = true) :
    s.resolveUrl source = overlaid ((s.layersFor url).map Layer.record) := by
  rw [resolveUrl, parsed]
  exact stack_of_pairwise h

/-- The height of a layer. -/
def Layer.height (layer : Layer κ ν) : Nat × Nat :=
  (layer.specificity.weight, layer.seq)

theorem Layer.under_eq_notAfter (a b : Layer κ ν) : a.under b = notAfter a.height b.height := rfl

/-- Whether a text is a pattern that satisfies a condition. -/
def isPatternWith (condition : Pattern → Bool) (text : Text) : Bool :=
  (Pattern.parse? text).any condition

theorem layer?_eq_some_iff {condition : Pattern → Bool} {e : Text × Entry κ ν} {layer : Layer κ ν} :
    layer? condition e = some layer ↔ ∃ p, Pattern.parse? e.1 = some p ∧ condition p = true ∧
      layer = ⟨p.specificity, e.2.seq, e.2.record⟩ := by
  unfold layer?
  constructor
  · intro h
    split at h
    · next p hp =>
      split at h
      · next hc => exact ⟨p, hp, hc, (Option.some.inj h).symm⟩
      · cases h
    · cases h
  · rintro ⟨p, hp, hc, rfl⟩
    simp [hp, hc]

theorem map_record_filterMap_layer? (keep : Text → Bool) (condition : Pattern → Bool)
    (entries : List (Text × Entry κ ν)) :
    ((entries.filter fun e => keep e.1).filterMap (layer? condition)).map Layer.record =
      ((entries.map fun e => (e.1, e.2.record)).filter fun site =>
        keep site.1 && isPatternWith condition site.1).map Prod.snd := by
  induction entries with
  | nil => rfl
  | cons e rest ih =>
    rw [List.map_cons, List.filter_cons, List.filter_cons]
    cases hk : keep e.1 with
    | false => simpa using ih
    | true =>
      cases hp : Pattern.parse? e.1 with
      | none => simpa [layer?, isPatternWith, hp] using ih
      | some p =>
        by_cases hc : condition p = true
        · simpa [layer?, isPatternWith, hp, hc] using ih
        · simpa [layer?, isPatternWith, hp, hc] using ih

/-- Stacking the layers of selected patterns lays their records over one another as they stand in
the ranked list. -/
theorem Tracks.stack_eq_overlaid {s : Store κ ν} {writes : List Text} (h : s.Tracks writes)
    (keep : Text → Bool) (condition : Pattern → Bool) :
    stack ((s.entries.entries.filter fun e => keep e.1).filterMap (layer? condition)) =
      overlaid ((s.ranked.filter fun site =>
        keep site.1 && isPatternWith condition site.1).map Prod.snd) := by
  rw [stack_eq, ranked_eq, ← map_record_filterMap_layer?]
  congr 2
  have hperm := (s.rankedEntries_perm.symm.filter fun e => keep e.1).filterMap (layer? condition)
  refine Sorted.mergeSort_eq Layer.under
    (fun a b c => notAfter_trans a.height b.height c.height)
    (fun a b => notAfter_total a.height b.height) hperm ?_
  -- layers are compared as the entries that they come from
  refine List.pairwise_filterMap.2 ((h.pairwise_rankedEntries.filter _).imp ?_)
  intro a b hab layer ha layer' hb
  obtain ⟨p, hp, -, rfl⟩ := layer?_eq_some_iff.1 ha
  obtain ⟨q, hq, -, rfl⟩ := layer?_eq_some_iff.1 hb
  rw [notAfter_eq_false_iff, position, position, rank_eq hp, rank_eq hq] at hab
  rw [Layer.under_eq_notAfter, notAfter_eq_false_iff]
  simp only [Layer.height]
  omega

/-- What a URL gets comes from the ranked list. -/
theorem Tracks.stack_layersFor {s : Store κ ν} {writes : List Text} (h : s.Tracks writes)
    (url : Url) : stack (s.layersFor url) =
      overlaid ((s.ranked.filter fun site =>
        isPatternWith (fun p => p.accepts url) site.1).map Prod.snd) := by
  have heq := h.stack_eq_overlaid (fun _ => true) fun p => p.accepts url
  rwa [List.filter_eq_self.2 fun _ _ => rfl] at heq

/-- What a pattern inherits comes from the ranked list. -/
theorem Tracks.stack_ancestors {s : Store κ ν} {writes : List Text} (h : s.Tracks writes)
    (source : Text) (target : Pattern) : stack (s.ancestors source target) =
      overlaid ((s.ranked.filter fun site => decide (site.1 ≠ source) && isPatternWith
        (fun p => decide (p.specificity ≤ target.specificity) && p.covers target)
          site.1).map Prod.snd) :=
  h.stack_eq_overlaid (fun text => decide (text ≠ source)) _

end SiteRules.Store
