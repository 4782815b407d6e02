import Mathlib.Data.List.Induction
import Mathlib.Data.List.Perm.Subperm
import SiteRules.Proofs.Store.Alike
import SiteRules.Value.Show

/-!
# The numbers of the writes

A store tells its writes apart by numbers, of which the next one is always unused
(`Store.Numbered`). Each write keeps that (`Numbered.merge`), and so the pattern written last comes
after all others (`Numbered.writesLast`). What is left is how a store begins. One that begins empty,
from texts or from a document has as many patterns as numbers. A mapping with keys of any type does
not: keys that are spelled alike give one pattern and use up a number each. So the numbers are in
order exactly for mappings whose keys are all spelled differently
(`numbered_iff_distinct_spellings`).
-/

namespace SiteRules.Store

variable {κ ν : Type} [BEq κ]

/-- The numbers of a store differ from pattern to pattern, and all are below the next one. -/
structure Numbered (s : Store κ ν) : Prop where
  inj : ∀ {p q e f}, s.entries.get? p = some e → s.entries.get? q = some f → e.seq = f.seq → p = q
  lt_next : ∀ {p e}, s.entries.get? p = some e → e.seq < s.next

/-- Whatever is written next, its pattern will come after all other patterns of the store. -/
def WritesLast (s : Store κ ν) : Prop :=
  ∀ p k v q, q ≠ p → (s.get? q).isSome = true → (s.merge p k v).Earlier q p

/-- The store `t` comes from the store `s` by writes. -/
inductive Grown (s : Store κ ν) : Store κ ν → Prop
  | refl : Grown s s
  | merge {t : Store κ ν} (grown : Grown s t) (pattern : Text) (key : κ) (value : ν) :
    Grown s (t.merge pattern key value)

/-! ## What a write does to the numbers -/

theorem Tracks.numbered {s : Store κ ν} {writes : List Text} (h : s.Tracks writes) : s.Numbered :=
  ⟨h.seq_inj, h.seq_lt_next⟩

/-- A write takes the next number, which no pattern has. -/
theorem Numbered.merge {s : Store κ ν} (h : s.Numbered) (p : Text) (k : κ) (v : ν) :
    (s.merge p k v).Numbered := by
  have hnext : (s.merge p k v).next = s.next + 1 := rfl
  constructor
  · intro a b e f he hf heq
    rw [entries_get?_merge] at he hf
    by_cases hpa : p = a <;> by_cases hpb : p = b
    · rw [← hpa, ← hpb]
    · -- the number of `b` is an old one
      rw [if_pos hpa, Option.some.injEq] at he
      rw [if_neg hpb] at hf
      have hlt := h.lt_next hf
      subst he
      have heq : s.next = f.seq := heq
      omega
    · -- the number of `a` is an old one
      rw [if_neg hpa] at he
      rw [if_pos hpb, Option.some.injEq] at hf
      have hlt := h.lt_next he
      subst hf
      have heq : e.seq = s.next := heq
      omega
    · rw [if_neg hpa] at he
      rw [if_neg hpb] at hf
      exact h.inj he hf heq
  · intro a e he
    rw [entries_get?_merge] at he
    rw [hnext]
    split at he
    · cases he
      exact Nat.lt_succ_self _
    · have hlt := h.lt_next he
      omega

theorem Numbered.grown {s t : Store κ ν} (h : s.Numbered) (grown : Grown s t) : t.Numbered := by
  induction grown with
  | refl => exact h
  | merge _ p k v ih => exact ih.merge p k v

/-- Where the next number is above all others, the pattern that gets it comes last. -/
theorem Numbered.writesLast {s : Store κ ν} (h : s.Numbered) : s.WritesLast := by
  intro p k v q hne hq
  obtain ⟨e, he⟩ := get?_isSome_iff.1 hq
  have hp : (s.merge p k v).entries.get? p =
      some ⟨((s.get? p).getD .empty).insert k v, s.next⟩ := by
    rw [entries_get?_merge, if_pos rfl]
  have hq' : (s.merge p k v).entries.get? q = some e := by
    rw [entries_get?_merge, if_neg (Ne.symm hne), he]
  exact ⟨e, _, hq', hp, h.lt_next he⟩

/-! ## How a store of records begins -/

theorem number_append (n : Nat) (as bs : List (Text × Record κ ν)) :
    number n (as ++ bs) = number n as ++ number (n + as.length) bs := by
  induction as generalizing n with
  | nil => rfl
  | cons a as ih =>
    have hshift : n + 1 + as.length = n + (a :: as).length := by
      rw [List.length_cons]
      omega
    rw [List.cons_append, number, number, ih, hshift, List.cons_append]

/-- The last record of a list has the last number, whatever stands before it. -/
theorem entries_get?_ofRecords_append (front : List (Text × Record κ ν)) (p : Text)
    (r : Record κ ν) :
    (ofRecords (front ++ [(p, r)])).entries.get? p = some ⟨r, front.length⟩ := by
  have hnumber : number 0 (front ++ [(p, r)]) = number 0 front ++ [(p, ⟨r, front.length⟩)] := by
    rw [number_append, Nat.zero_add]
    rfl
  show (OrderedMap.ofList (number 0 (front ++ [(p, r)]))).get? p = some ⟨r, front.length⟩
  rw [hnumber, OrderedMap.ofList, OrderedMap.get?_insertAll, List.reverse_append,
    List.reverse_singleton, OrderedMap.lookup_append, OrderedMap.lookup,
    if_pos (beq_self_eq_true p)]
  rfl

/-- The next number is the number of the different patterns. -/
theorem next_ofRecords_eq_length (records : List (Text × Record κ ν)) :
    (ofRecords records).next = (records.map Prod.fst).eraseDups.length := by
  have hkeys := OrderedMap.keys_ofList (number 0 records)
  rw [map_fst_number] at hkeys
  rw [← hkeys, OrderedMap.keys, List.length_map]
  rfl

/-- If the numbers begin in order, the last one shows that as many patterns as records are there, so
none came twice. -/
theorem nodup_of_numbered_ofRecords {records : List (Text × Record κ ν)}
    (h : (ofRecords records).Numbered) : (records.map Prod.fst).Nodup := by
  have hdistinct : (records.map Prod.fst).eraseDups.Nodup := by
    rw [← map_fst_number 0, ← OrderedMap.keys_ofList]
    exact OrderedMap.nodup_keys _
  have hsub : (records.map Prod.fst).eraseDups.Subperm (records.map Prod.fst) :=
    hdistinct.subperm fun p hp => List.mem_eraseDups.1 hp
  have hlength : (records.map Prod.fst).length ≤ (records.map Prod.fst).eraseDups.length := by
    cases records using List.reverseRecOn with
    | nil => exact Nat.zero_le _
    | append_singleton front last =>
      have hlast := h.lt_next (entries_get?_ofRecords_append front last.1 last.2)
      rw [next_ofRecords_eq_length] at hlast
      rw [List.length_map, List.length_append, List.length_singleton]
      exact hlast
  exact (hsub.perm_of_length_le hlength).nodup_iff.1 hdistinct

/-! ## When the numbers are in order -/

/-- The texts under which the records of a mapping are kept. -/
theorem map_fst_spell {α : Type} [BEq α] (spell : α → Text) (sites : OrderedMap α (Record κ ν)) :
    (sites.entries.map fun site => (spell site.1, site.2)).map Prod.fst =
      sites.keys.map spell := by
  rw [OrderedMap.keys, List.map_map, List.map_map]
  rfl

/-- Stores that begin empty, from a mapping of texts or from a document have distinct numbers below
the next one, after any writes, and each write comes last. Stores that begin from a mapping with
keys of any type have them exactly if no two keys are spelled alike. -/
theorem numbered_iff_distinct_spellings :
    (∀ {s : Store κ ν} {writes : List Text}, Built s writes → s.Numbered ∧ s.WritesLast) ∧
    ∀ {α : Type} [BEq α] (spell : α → Text) (sites : OrderedMap α (Record κ ν)),
      (∀ t, Grown (ofMapping spell sites.entries) t → t.Numbered ∧ t.WritesLast) ↔
        (sites.keys.map spell).Nodup := by
  refine ⟨fun built => ⟨built.tracks.numbered, built.tracks.numbered.writesLast⟩, ?_⟩
  intro α _ spell sites
  rw [← map_fst_spell]
  constructor
  · intro h
    exact nodup_of_numbered_ofRecords (h _ .refl).1
  · intro hdistinct t grown
    have ht := (tracks_ofRecords hdistinct).numbered.grown grown
    exact ⟨ht, ht.writesLast⟩

/-- A record with one setting. -/
def zoomRecord (n : Int) : Record Text Value :=
  OrderedMap.empty.insert (Text.ofString "zoom") (.int n)

/-- A mapping of which two keys, a truth value and a text, are spelled alike. -/
def colliding : OrderedMap Value (Record Text Value) :=
  .ofList [(.bool true, .empty), (.ofString "True", .empty), (.ofString "HTTP://a", zoomRecord 0),
    (.ofString "http://a", zoomRecord 1)]

/-- The store that is seeded with that mapping, after one more write to the first of two spellings
of a pattern. -/
def rewritten : Sites :=
  (ofMapping Value.plain colliding.entries).merge (Text.ofString "HTTP://a") (Text.ofString "zoom")
    (.int 2)

/-- The write gets the number that the other spelling has, and does not prevail over it. -/
theorem not_numbered_rewritten :
    Grown (ofMapping Value.plain colliding.entries) rewritten ∧ ¬rewritten.Numbered ∧
      (rewritten.resolveUrl (Text.ofString "http://a")).map OrderedMap.entries =
        some [(Text.ofString "zoom", .int 1)] := by
  refine ⟨.merge .refl _ _ _, fun h => ?_, ?_⟩
  · obtain ⟨e, he, heseq⟩ : ∃ e, rewritten.entries.get? (Text.ofString "HTTP://a") = some e ∧
        e.seq = 3 := ⟨_, rfl, rfl⟩
    obtain ⟨f, hf, hfseq⟩ : ∃ f, rewritten.entries.get? (Text.ofString "http://a") = some f ∧
        f.seq = 3 := ⟨_, rfl, rfl⟩
    have heq := h.inj he hf (heseq.trans hfseq.symm)
    exact absurd heq (by decide)
  · have hlayers : ∃ url, Url.parse? (Text.ofString "http://a") = some url ∧
        (rewritten.layersFor url).Pairwise (fun a b => a.under b = true) ∧
        (overlaid ((rewritten.layersFor url).map Layer.record)).map OrderedMap.entries =
          some [(Text.ofString "zoom", .int 1)] := ⟨_, rfl, by decide, rfl⟩
    obtain ⟨url, hurl, hsorted, hentries⟩ := hlayers
    rw [← resolveUrl_of_pairwise hurl hsorted] at hentries
    exact hentries

end SiteRules.Store
