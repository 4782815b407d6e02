import SiteRules.Proofs.Store.Ranking
import SiteRules.Store.Equality

/-!
# Stores that answer alike

The numbers of the entries matter only by their order, and this only where two patterns have the
same rank. Two stores that hold the same records, and in which patterns of the same rank were last
written in the same order, are ranked alike (`Alike.ranked_eq`), and so resolve everything alike.
They stay so when the same is written to both (`Alike.merge`). If all patterns were last written in
the same order, the lists in the order of the writes are the same, too (`Alike.written_eq`).
-/

namespace SiteRules.Store

variable {κ ν : Type} [BEq κ]

/-- Both patterns are stored, and `p` was last written before `q`. -/
def Earlier (s : Store κ ν) (p q : Text) : Prop :=
  ∃ e f, s.entries.get? p = some e ∧ s.entries.get? q = some f ∧ e.seq < f.seq

/-- Two patterns have the same rank. -/
def SameRank (p q : Text) : Prop :=
  rank p = rank q

/-- Two stores hold the same records, and the patterns that are tied in the sense of `tied` were
last written in the same order. -/
structure Alike (tied : Text → Text → Prop) (s t : Store κ ν) : Prop where
  get?_eq : ∀ p, s.get? p = t.get? p
  earlier_iff : ∀ p q, tied p q → (s.Earlier p q ↔ t.Earlier p q)

/-! ## The order of the last writes -/

theorem get?_isSome_iff {s : Store κ ν} {p : Text} :
    (s.get? p).isSome = true ↔ ∃ e, s.entries.get? p = some e := by
  rw [get?, Option.isSome_map, Option.isSome_iff_exists]

theorem Tracks.earlier_iff {s : Store κ ν} {writes : List Text} (h : s.Tracks writes)
    {p q : Text} (hp : (s.get? p).isSome = true) (hq : (s.get? q).isSome = true) :
    s.Earlier p q ↔ lastWrite writes p < lastWrite writes q := by
  obtain ⟨e, he⟩ := get?_isSome_iff.1 hp
  obtain ⟨f, hf⟩ := get?_isSome_iff.1 hq
  have hseqe := h.seq_eq he
  have hseqf := h.seq_eq hf
  constructor
  · rintro ⟨e', f', he', hf', hlt⟩
    cases he.symm.trans he'
    cases hf.symm.trans hf'
    omega
  · intro hlt
    exact ⟨e, f, he, hf, by omega⟩

/-- After a write, its pattern is the last one. -/
theorem Tracks.earlier_merge_iff {s : Store κ ν} {writes : List Text} (h : s.Tracks writes)
    (p : Text) (k : κ) (v : ν) (a b : Text) :
    (s.merge p k v).Earlier a b ↔
      p ≠ a ∧ (p = b ∧ (s.get? a).isSome = true ∨ p ≠ b ∧ s.Earlier a b) := by
  simp only [Earlier, entries_get?_merge, get?_isSome_iff]
  constructor
  · rintro ⟨e, f, he, hf, hlt⟩
    split at he
    · -- nothing comes after the last number
      cases he
      split at hf
      · cases hf
        exact absurd hlt (Nat.lt_irrefl _)
      · exact absurd hlt (Nat.lt_asymm (h.seq_lt_next hf))
    · next hpa =>
      split at hf
      · next hpb => exact ⟨hpa, .inl ⟨hpb, e, he⟩⟩
      · next hpb => exact ⟨hpa, .inr ⟨hpb, e, f, he, hf, hlt⟩⟩
  · rintro ⟨hpa, ⟨hpb, e, he⟩ | ⟨hpb, e, f, he, hf, hlt⟩⟩
    · exact ⟨e, _, by rw [if_neg hpa, he], if_pos hpb, h.seq_lt_next he⟩
    · exact ⟨e, f, by rw [if_neg hpa, he], by rw [if_neg hpb, hf], hlt⟩

namespace Alike

variable {tied : Text → Text → Prop} {s t u : Store κ ν}

theorem trans (hst : Alike tied s t) (htu : Alike tied t u) : Alike tied s u :=
  ⟨fun p => (hst.get?_eq p).trans (htu.get?_eq p),
    fun p q hpq => (hst.earlier_iff p q hpq).trans (htu.earlier_iff p q hpq)⟩

theorem refl (s : Store κ ν) : Alike tied s s :=
  ⟨fun _ => rfl, fun _ _ _ => Iff.rfl⟩

/-- The same write keeps two stores alike. -/
theorem merge (h : Alike tied s t) {writes writes' : List Text} (hs : s.Tracks writes)
    (ht : t.Tracks writes') (p : Text) (k : κ) (v : ν) :
    Alike tied (s.merge p k v) (t.merge p k v) := by
  refine ⟨fun q => ?_, fun a b hab => ?_⟩
  · rw [get?_merge, get?_merge, h.get?_eq p, h.get?_eq q]
  · rw [hs.earlier_merge_iff, ht.earlier_merge_iff, h.get?_eq a, h.earlier_iff a b hab]

end Alike

/-! ## Stores made from the list of another one -/

/-- A store that is made of the records of another one, listed so that tied patterns stand in the
order of their last writes, is like that one. -/
theorem Tracks.alike_ofRecords {tied : Text → Text → Prop} {s : Store κ ν} {writes : List Text}
    (h : s.Tracks writes) {records : List (Text × Record κ ν)}
    (distinct : (records.map Prod.fst).Nodup)
    (hmem : ∀ site, site ∈ records ↔ s.get? site.1 = some site.2)
    (sorted : records.Pairwise fun a b => tied a.1 b.1 ∨ tied b.1 a.1 →
      lastWrite writes a.1 < lastWrite writes b.1) :
    Alike tied (ofRecords records) s := by
  have hget : ∀ p, (ofRecords records).get? p = s.get? p := by
    intro p
    ext r
    rw [get?_ofRecords distinct, hmem]
  -- places in the list agree with the history where patterns are tied
  have hplace : ∀ {i j : Nat} {a b : Text × Record κ ν}, records[i]? = some a →
      records[j]? = some b → i < j → tied a.1 b.1 ∨ tied b.1 a.1 →
        lastWrite writes a.1 < lastWrite writes b.1 := by
    intro i j a b hi hj hij
    obtain ⟨hilt, rfl⟩ := List.getElem?_eq_some_iff.1 hi
    obtain ⟨hjlt, rfl⟩ := List.getElem?_eq_some_iff.1 hj
    exact List.pairwise_iff_getElem.1 sorted i j hilt hjlt hij
  refine ⟨hget, fun p q hpq => ?_⟩
  constructor
  · rintro ⟨e, f, he, hf, hlt⟩
    have hp : (s.get? p).isSome = true := by
      rw [← hget]
      exact get?_isSome_iff.2 ⟨e, he⟩
    have hq : (s.get? q).isSome = true := by
      rw [← hget]
      exact get?_isSome_iff.2 ⟨f, hf⟩
    rw [entries_get?_ofRecords distinct] at he hf
    exact (h.earlier_iff hp hq).2 (hplace he hf hlt (.inl hpq))
  · intro hearlier
    obtain ⟨e, f, he, hf, -⟩ := id hearlier
    have hlt := (h.earlier_iff (get?_isSome_iff.2 ⟨e, he⟩) (get?_isSome_iff.2 ⟨f, hf⟩)).1 hearlier
    have hp : (p, e.record) ∈ records := (hmem _).2 (get?_eq_some_iff.2 ⟨e.seq, he⟩)
    have hq : (q, f.record) ∈ records := (hmem _).2 (get?_eq_some_iff.2 ⟨f.seq, hf⟩)
    obtain ⟨i, hi⟩ := List.mem_iff_getElem?.1 hp
    obtain ⟨j, hj⟩ := List.mem_iff_getElem?.1 hq
    refine ⟨⟨e.record, i⟩, ⟨f.record, j⟩, (entries_get?_ofRecords distinct).2 hi,
      (entries_get?_ofRecords distinct).2 hj, ?_⟩
    -- any other order of the places contradicts the history
    rcases Nat.lt_trichotomy i j with hij | hij | hji
    · exact hij
    · rw [hij, hj, Option.some.injEq, Prod.mk.injEq] at hi
      rw [hi.1] at hlt
      exact absurd hlt (Nat.lt_irrefl _)
    · exact absurd hlt (Nat.lt_asymm (hplace hj hi hji (.inr hpq)))

/-- The patterns of a list that is strictly sorted by them are distinct. -/
theorem nodup_of_pairwise {R : Text → Text → Prop} (irrefl : ∀ p, ¬R p p)
    {records : List (Text × Record κ ν)} (sorted : records.Pairwise fun a b => R a.1 b.1) :
    (records.map Prod.fst).Nodup := by
  rw [List.Nodup, List.pairwise_map]
  refine sorted.imp fun {a b} hab heq => ?_
  rw [heq] at hab
  exact irrefl _ hab

/-- The patterns of either list of a store are distinct. -/
theorem Tracks.nodup_listed {s : Store κ ν} {writes : List Text} (h : s.Tracks writes)
    (byRank : Bool) : ((s.listed byRank).map Prod.fst).Nodup := by
  cases byRank with
  | false =>
    exact nodup_of_pairwise (R := fun p q => lastWrite writes p < lastWrite writes q)
      (fun _ => Nat.lt_irrefl _) h.pairwise_written
  | true => exact nodup_of_pairwise (fun _ hpp => hpp.asymm hpp) h.pairwise_ranked

/-- A store that is made anew from its own list is like the one before: in the order of the writes
with all its patterns, ranked with those of the same rank. -/
theorem Tracks.alike_ofRecords_listed {s : Store κ ν} {writes : List Text} (h : s.Tracks writes)
    {tied : Text → Text → Prop} {byRank : Bool}
    (htied : byRank = true → ∀ p q, tied p q → SameRank p q) :
    Alike tied (ofRecords (s.listed byRank)) s := by
  refine h.alike_ofRecords (h.nodup_listed byRank) (fun _ => mem_listed) ?_
  cases byRank with
  | false =>
    refine h.pairwise_written.imp fun {a b} hlt => ?_
    exact fun _ => hlt
  | true =>
    refine h.pairwise_ranked.imp fun {a b} hab htie => ?_
    have hrank : rank a.1 = rank b.1 := by
      rcases htie with htie | htie
      · exact htied rfl _ _ htie
      · exact (htied rfl _ _ htie).symm
    rcases hab with hlt | ⟨-, hlt⟩
    · omega
    · exact hlt

/-! ## What stores that are alike have in common -/

theorem Alike.lastWrite_lt_iff {tied : Text → Text → Prop} {s t : Store κ ν}
    (h : Alike tied s t) {writes writes' : List Text} (hs : s.Tracks writes)
    (ht : t.Tracks writes') {p q : Text} (hpq : tied p q) (hp : (s.get? p).isSome = true)
    (hq : (s.get? q).isSome = true) :
    lastWrite writes p < lastWrite writes q ↔ lastWrite writes' p < lastWrite writes' q := by
  rw [← hs.earlier_iff hp hq, h.earlier_iff p q hpq, ht.earlier_iff]
  · rwa [← h.get?_eq]
  · rwa [← h.get?_eq]

/-- The lists in the order of the writes are the same. -/
theorem Alike.written_eq {s t : Store κ ν} (h : Alike (fun _ _ => True) s t)
    {writes writes' : List Text} (hs : s.Tracks writes) (ht : t.Tracks writes') :
    s.written = t.written := by
  have hmem : ∀ site, site ∈ t.written ↔ site ∈ s.written := by
    intro site
    rw [mem_written, mem_written, h.get?_eq]
  refine Sorted.eq_of_pairwise Nat.lt_asymm hs.pairwise_written ?_ fun site => (hmem site).symm
  refine ht.pairwise_written.imp_of_mem fun {a b} ha hb hlt => ?_
  rw [hmem, mem_written] at ha hb
  rw [h.lastWrite_lt_iff hs ht trivial]
  · exact hlt
  · exact Option.isSome_of_eq_some ha
  · exact Option.isSome_of_eq_some hb

section Ranked

variable {s t : Store κ ν} (h : Alike SameRank s t) {writes writes' : List Text}
  (hs : s.Tracks writes) (ht : t.Tracks writes')

include h hs ht

/-- The ranked lists are the same. -/
theorem Alike.ranked_eq : s.ranked = t.ranked := by
  have hmem : ∀ site, site ∈ t.ranked ↔ site ∈ s.ranked := by
    intro site
    rw [mem_ranked, mem_ranked, h.get?_eq]
  refine Sorted.eq_of_pairwise Precedes.asymm hs.pairwise_ranked ?_ fun site => (hmem site).symm
  refine ht.pairwise_ranked.imp_of_mem fun {a b} ha hb hab => ?_
  rw [hmem, mem_ranked] at ha hb
  refine hab.imp id fun ⟨hrank, hlt⟩ => ⟨hrank, ?_⟩
  rw [h.lastWrite_lt_iff hs ht hrank]
  · exact hlt
  · exact Option.isSome_of_eq_some ha
  · exact Option.isSome_of_eq_some hb

theorem Alike.patterns_eq : s.patterns = t.patterns := by
  rw [hs.patterns_eq, ht.patterns_eq, h.ranked_eq hs ht]

theorem Alike.resolveUrl_eq (source : Text) : s.resolveUrl source = t.resolveUrl source := by
  unfold resolveUrl
  cases Url.parse? source with
  | none => rfl
  | some url => simp only [hs.stack_layersFor, ht.stack_layersFor, h.ranked_eq hs ht]

theorem Alike.resolvePattern_eq (source : Text) :
    s.resolvePattern source = t.resolvePattern source := by
  unfold resolvePattern
  simp only [hs.stack_ancestors, ht.stack_ancestors, h.ranked_eq hs ht, h.get?_eq]

end Ranked

/-! ## Equality -/

section Equality

variable [EquivBEq κ] [BEq ν] [ReflBEq ν]

theorem record_same_self (r : Record κ ν) : r.same r = true := by
  refine OrderedMap.same_iff_get?.2 fun k => ?_
  cases r.get? k with
  | none => exact .none
  | some v => exact .some BEq.rfl

/-- Stores that hold the same records are equal. -/
theorem beq_of_get?_eq {s t : Store κ ν} (h : ∀ p, s.get? p = t.get? p) : (s == t) = true := by
  show s.same t = true
  refine OrderedMap.same_iff_get?.2 fun p => ?_
  have hp := h p
  unfold get? at hp
  cases hs : s.entries.get? p with
  | none =>
    rw [hs, Option.map_none, eq_comm, Option.map_eq_none_iff] at hp
    rw [hp]
    exact .none
  | some e =>
    rw [hs, Option.map_some, eq_comm, Option.map_eq_some_iff] at hp
    obtain ⟨f, hf, heq⟩ := hp
    rw [hf]
    refine .some ?_
    rw [heq]
    exact record_same_self e.record

theorem Alike.beq {tied : Text → Text → Prop} {s t : Store κ ν} (h : Alike tied s t) :
    (s == t) = true :=
  beq_of_get?_eq h.get?_eq

end Equality

end SiteRules.Store
