import Mathlib.Data.List.Forall2
import SiteRules.OrderedMap

/-!
# Theory of ordered maps

What an insertion and a series of insertions do to the two views of an ordered map: its look-up
(`get?_insert`, `get?_overlay`) and the order of its keys (`keys_insertAll`). Maps laid over one
another (`overlayAll`) give each key the value of the last map that has it
(`get?_overlayAll_eq_some_iff`) and list the keys in the order of their first appearance
(`keys_overlayAll`).

Equality of keys is only assumed to be symmetric and transitive, since it need not be identity.
-/

namespace SiteRules.OrderedMap

variable {κ ν : Type} [BEq κ]

/-! ## Look-up -/

@[simp] theorem get?_empty (k : κ) : (empty : OrderedMap κ ν).get? k = none := rfl

@[simp] theorem contains_empty (k : κ) : (empty : OrderedMap κ ν).contains k = false := rfl

theorem contains_eq_true_iff {m : OrderedMap κ ν} {k : κ} :
    m.contains k = true ↔ ∃ v, m.get? k = some v := by
  rw [contains, Option.isSome_iff_exists]

theorem contains_eq_false_iff {m : OrderedMap κ ν} {k : κ} :
    m.contains k = false ↔ m.get? k = none := by
  rw [contains, Option.isSome_eq_false_iff, Option.isNone_iff_eq_none]

/-- Maps with the same entries in the same order are the same. -/
theorem ext_entries {a b : OrderedMap κ ν} (h : a.entries = b.entries) : a = b := by
  cases a; cases b; cases h; rfl

theorem lookup_append (k : κ) (as bs : List (κ × ν)) :
    lookup k (as ++ bs) = (lookup k as).or (lookup k bs) := by
  induction as with
  | nil => rfl
  | cons a as ih =>
    rw [List.cons_append, lookup, lookup, ih]
    split <;> rfl

theorem lookup_eq_none_iff {k : κ} {entries : List (κ × ν)} :
    lookup k entries = none ↔ ∀ e ∈ entries, (e.1 == k) = false := by
  induction entries with
  | nil => simp [lookup]
  | cons e rest ih =>
    rw [lookup, List.forall_mem_cons]
    by_cases he : (e.1 == k) = true
    · simp [he]
    · simp [he, ih]

theorem exists_of_lookup_eq_some {k : κ} {v : ν} {entries : List (κ × ν)}
    (h : lookup k entries = some v) : ∃ e ∈ entries, (e.1 == k) = true ∧ e.2 = v := by
  induction entries with
  | nil => cases h
  | cons e rest ih =>
    rw [lookup] at h
    split at h
    · next he => exact ⟨e, List.mem_cons_self, he, Option.some.inj h⟩
    · obtain ⟨e', hmem, hrest⟩ := ih h
      exact ⟨e', List.mem_cons_of_mem _ hmem, hrest⟩

/-- What an entry holds can be looked up. -/
theorem get?_of_mem [EquivBEq κ] {m : OrderedMap κ ν} {k : κ} {v : ν} (h : (k, v) ∈ m.entries) :
    m.get? k = some v := by
  obtain ⟨entries, distinct⟩ := m
  show lookup k entries = some v
  induction entries with
  | nil => cases h
  | cons e rest ih =>
    obtain ⟨hhead, htail⟩ := List.pairwise_cons.1 distinct
    rw [lookup]
    rcases List.mem_cons.1 h with rfl | h
    · rw [if_pos BEq.rfl]
    · rw [if_neg, ih htail h]
      simpa using hhead _ h

section Lawful

variable [LawfulBEq κ]

/-- With identity as equality of keys, the entries are exactly what can be looked up. -/
theorem mem_entries_iff {m : OrderedMap κ ν} {k : κ} {v : ν} :
    (k, v) ∈ m.entries ↔ m.get? k = some v := by
  constructor
  · exact get?_of_mem
  · intro h
    obtain ⟨⟨k', v'⟩, hmem, hk, rfl⟩ := exists_of_lookup_eq_some h
    obtain rfl : k' = k := eq_of_beq hk
    exact hmem

theorem nodup_keys (m : OrderedMap κ ν) : m.keys.Nodup := by
  rw [keys, List.Nodup, List.pairwise_map]
  exact m.distinct.imp fun h => by simpa using h

end Lawful

/-! ## Insertion -/

section Insertion

variable [PartialEquivBEq κ]

theorem lookup_insertEntry (k k' : κ) (v : ν) (entries : List (κ × ν)) :
    lookup k' (insertEntry k v entries) = if k == k' then some v else lookup k' entries := by
  induction entries with
  | nil => rfl
  | cons e rest ih =>
    rw [insertEntry]
    by_cases he : (e.1 == k) = true
    · rw [if_pos he, lookup, lookup, BEq.congr_left he]
      split <;> rfl
    · rw [if_neg he, lookup, lookup, ih]
      by_cases hk : (e.1 == k') = true
      · -- a key equal to both would make the entry equal to `k`
        have hne : (k == k') = false := by
          rw [← Bool.not_eq_true]
          exact fun h => he (BEq.trans hk (BEq.symm h))
        simp [hk, hne]
      · simp [hk]

theorem get?_insert (m : OrderedMap κ ν) (k k' : κ) (v : ν) :
    (m.insert k v).get? k' = if k == k' then some v else m.get? k' :=
  lookup_insertEntry k k' v m.entries

theorem contains_insert (m : OrderedMap κ ν) (k k' : κ) (v : ν) :
    (m.insert k v).contains k' = ((k == k') || m.contains k') := by
  rw [contains, get?_insert]
  split
  · next h => simp [h]
  · next h => simp [h, contains]

theorem get?_congr {m : OrderedMap κ ν} {k k' : κ} (h : (k == k') = true) :
    m.get? k = m.get? k' := by
  show lookup k m.entries = lookup k' m.entries
  induction m.entries with
  | nil => rfl
  | cons e rest ih => rw [lookup, lookup, BEq.congr_right h, ih]

theorem contains_congr {m : OrderedMap κ ν} {k k' : κ} (h : (k == k') = true) :
    m.contains k = m.contains k' := by
  rw [contains, get?_congr h, contains]

omit [PartialEquivBEq κ] in
theorem map_fst_insertEntry (k : κ) (v : ν) (entries : List (κ × ν)) :
    (insertEntry k v entries).map Prod.fst =
      if (lookup k entries).isSome then entries.map Prod.fst
      else entries.map Prod.fst ++ [k] := by
  induction entries with
  | nil => rfl
  | cons e rest ih =>
    rw [insertEntry, lookup]
    by_cases he : (e.1 == k) = true
    · simp [he]
    · simp only [he, Bool.false_eq_true, if_false, List.map_cons, ih]
      split <;> rfl

omit [PartialEquivBEq κ] in
/-- A key that is inserted keeps its place, or comes last. -/
theorem keys_insert (m : OrderedMap κ ν) (k : κ) (v : ν) :
    (m.insert k v).keys = if m.contains k then m.keys else m.keys ++ [k] :=
  map_fst_insertEntry k v m.entries

/-! ## Series of insertions -/

omit [PartialEquivBEq κ] in
theorem insertAll_append (m : OrderedMap κ ν) (as bs : List (κ × ν)) :
    m.insertAll (as ++ bs) = (m.insertAll as).insertAll bs :=
  List.foldl_append

/-- Of several values for a key the last one stays. -/
theorem get?_insertAll (m : OrderedMap κ ν) (entries : List (κ × ν)) (k : κ) :
    (m.insertAll entries).get? k = (lookup k entries.reverse).or (m.get? k) := by
  induction entries generalizing m with
  | nil => rfl
  | cons e rest ih =>
    have hstep : m.insertAll (e :: rest) = (m.insert e.1 e.2).insertAll rest := rfl
    rw [hstep, ih, List.reverse_cons, lookup_append, get?_insert, lookup, lookup]
    split <;> simp

/-- The keys that are new follow the old ones in the order of their first appearance. -/
theorem keys_insertAll (m : OrderedMap κ ν) (entries : List (κ × ν)) :
    (m.insertAll entries).keys =
      m.keys ++ ((entries.map Prod.fst).filter fun k => !m.contains k).eraseDups := by
  induction entries generalizing m with
  | nil => simp [insertAll]
  | cons e rest ih =>
    have hstep : m.insertAll (e :: rest) = (m.insert e.1 e.2).insertAll rest := rfl
    rw [hstep, ih, keys_insert]
    by_cases he : m.contains e.1 = true
    · -- an old key: whatever equals it was old already
      have hsame : ∀ k, (m.insert e.1 e.2).contains k = m.contains k := by
        intro k
        rw [contains_insert]
        by_cases hk : (e.1 == k) = true
        · simp [hk, ← contains_congr hk, he]
        · simp [hk]
      simp only [hsame, he, if_true, List.map_cons]
      rw [List.filter_cons_of_neg (by simp [he])]
    · -- a new key: it comes next, and what equals it is no longer new
      have hsplit : (rest.map Prod.fst).filter (fun k => !(m.insert e.1 e.2).contains k) =
          ((rest.map Prod.fst).filter fun k => !m.contains k).filter fun k => !(k == e.1) := by
        rw [List.filter_filter]
        congr 1
        funext k
        rw [contains_insert, Bool.not_or, BEq.comm]
      rw [hsplit, if_neg he, List.map_cons, List.filter_cons_of_pos (by simp [he]),
        List.eraseDups_cons, List.append_assoc, List.singleton_append]

theorem keys_ofList (entries : List (κ × ν)) :
    (ofList entries).keys = (entries.map Prod.fst).eraseDups := by
  have hall : ∀ k ∈ entries.map Prod.fst, (!(empty : OrderedMap κ ν).contains k) = true := by
    intro k _
    rw [contains_empty, Bool.not_false]
  rw [ofList, keys_insertAll, List.filter_eq_self.2 hall]
  rfl

theorem lookup_reverse {entries : List (κ × ν)}
    (h : entries.Pairwise fun a b => (a.1 == b.1) = false) (k : κ) :
    lookup k entries.reverse = lookup k entries := by
  induction entries with
  | nil => rfl
  | cons e rest ih =>
    obtain ⟨hhead, htail⟩ := List.pairwise_cons.1 h
    have hlast : lookup k [e] = if e.1 == k then some e.2 else none := rfl
    rw [List.reverse_cons, lookup_append, ih htail, hlast, lookup]
    by_cases he : (e.1 == k) = true
    · -- no other entry has a key equal to this one
      have hnone : lookup k rest = none := by
        refine lookup_eq_none_iff.2 fun b hb => ?_
        rw [← BEq.congr_right he, BEq.comm]
        exact hhead b hb
      rw [if_pos he, if_pos he, hnone, Option.none_or]
    · rw [if_neg he, if_neg he, Option.or_none]

omit [PartialEquivBEq κ] in
theorem entries_insert_of_not_contains {m : OrderedMap κ ν} {k : κ} {v : ν}
    (h : m.contains k = false) : (m.insert k v).entries = m.entries ++ [(k, v)] := by
  have hnone : lookup k m.entries = none := contains_eq_false_iff.1 h
  show insertEntry k v m.entries = m.entries ++ [(k, v)]
  revert hnone
  induction m.entries with
  | nil => intro _; rfl
  | cons e rest ih =>
    intro hnone
    obtain ⟨he, hrest⟩ := List.forall_mem_cons.1 (lookup_eq_none_iff.1 hnone)
    rw [insertEntry, if_neg (by simp [he]), ih (lookup_eq_none_iff.2 hrest), List.cons_append]

omit [PartialEquivBEq κ] in
/-- Inserting entries with distinct new keys adds them as they are. -/
theorem entries_insertAll {m : OrderedMap κ ν} {entries : List (κ × ν)}
    (h : (m.entries ++ entries).Pairwise fun a b => (a.1 == b.1) = false) :
    (m.insertAll entries).entries = m.entries ++ entries := by
  induction entries generalizing m with
  | nil => simp [insertAll]
  | cons e rest ih =>
    have hstep : m.insertAll (e :: rest) = (m.insert e.1 e.2).insertAll rest := rfl
    have hnew : m.contains e.1 = false := by
      rw [contains_eq_false_iff]
      exact lookup_eq_none_iff.2 fun b hb =>
        (List.pairwise_append.1 h).2.2 b hb e List.mem_cons_self
    have hentries := entries_insert_of_not_contains (v := e.2) hnew
    rw [hstep, ih (by rw [hentries]; simpa using h), hentries]
    simp

omit [PartialEquivBEq κ] in
theorem entries_ofList {entries : List (κ × ν)}
    (h : entries.Pairwise fun a b => (a.1 == b.1) = false) : (ofList entries).entries = entries :=
  entries_insertAll (m := empty) (by simpa [empty] using h)

omit [PartialEquivBEq κ] in
/-- A map is the map of its own entries. -/
theorem ofList_entries (m : OrderedMap κ ν) : ofList m.entries = m :=
  ext_entries (entries_ofList m.distinct)

omit [PartialEquivBEq κ] in
/-- An entry after an insertion has its key and its value from what was there or was inserted. -/
theorem forall_mem_insertEntry {P : κ → Prop} {Q : ν → Prop} {k : κ} {v : ν}
    {entries : List (κ × ν)} (h : ∀ e ∈ entries, P e.1 ∧ Q e.2) (hk : P k) (hv : Q v) :
    ∀ e ∈ insertEntry k v entries, P e.1 ∧ Q e.2 := by
  induction entries with
  | nil =>
    intro e he
    rw [List.mem_singleton.1 he]
    exact ⟨hk, hv⟩
  | cons entry rest ih =>
    obtain ⟨hhead, htail⟩ := List.forall_mem_cons.1 h
    rw [insertEntry]
    split
    · exact List.forall_mem_cons.2 ⟨⟨hhead.1, hv⟩, htail⟩
    · exact List.forall_mem_cons.2 ⟨hhead, ih htail⟩

omit [PartialEquivBEq κ] in
/-- What holds of the keys and the values of a list holds of those of its map. -/
theorem forall_mem_ofList {P : κ → Prop} {Q : ν → Prop} {entries : List (κ × ν)}
    (h : ∀ e ∈ entries, P e.1 ∧ Q e.2) : ∀ e ∈ (ofList entries).entries, P e.1 ∧ Q e.2 := by
  have hall : ∀ m : OrderedMap κ ν, (∀ e ∈ m.entries, P e.1 ∧ Q e.2) →
      ∀ e ∈ (m.insertAll entries).entries, P e.1 ∧ Q e.2 := by
    induction entries with
    | nil => exact fun m hm => hm
    | cons entry rest ih =>
      obtain ⟨hhead, htail⟩ := List.forall_mem_cons.1 h
      intro m hm
      exact ih htail (m.insert entry.1 entry.2) (forall_mem_insertEntry hm hhead.1 hhead.2)
  exact hall empty fun e he => absurd he List.not_mem_nil

/-! ## Maps laid over one another -/

theorem get?_overlay (base top : OrderedMap κ ν) (k : κ) :
    (base.overlay top).get? k = (top.get? k).or (base.get? k) := by
  rw [overlay, get?_insertAll, lookup_reverse top.distinct]
  rfl

theorem contains_overlay (base top : OrderedMap κ ν) (k : κ) :
    (base.overlay top).contains k = (top.contains k || base.contains k) := by
  rw [contains, get?_overlay, Option.isSome_or]
  rfl

/-- Several maps laid over one another, the last one on top. -/
def overlayAll (maps : List (OrderedMap κ ν)) : OrderedMap κ ν :=
  maps.foldl overlay empty

omit [PartialEquivBEq κ] in
theorem foldl_overlay (m : OrderedMap κ ν) (maps : List (OrderedMap κ ν)) :
    maps.foldl overlay m = m.insertAll (maps.flatMap entries) := by
  induction maps generalizing m with
  | nil => rfl
  | cons top maps ih => rw [List.foldl_cons, ih, List.flatMap_cons, insertAll_append, overlay]

/-- The keys of all the maps, in the order of their first appearance. -/
theorem keys_overlayAll (maps : List (OrderedMap κ ν)) :
    (overlayAll maps).keys = (maps.flatMap keys).eraseDups := by
  rw [overlayAll, foldl_overlay, ← ofList, keys_ofList, List.map_flatMap]
  rfl

theorem get?_overlayAll (maps : List (OrderedMap κ ν)) (k : κ) :
    (overlayAll maps).get? k = maps.reverse.findSome? fun m => m.get? k := by
  rw [overlayAll, List.foldl_eq_foldr_reverse]
  induction maps.reverse with
  | nil => rfl
  | cons top below ih =>
    rw [List.foldr_cons, get?_overlay, ih, List.findSome?_cons]
    cases top.get? k <;> rfl

theorem contains_overlayAll (maps : List (OrderedMap κ ν)) (k : κ) :
    (overlayAll maps).contains k = true ↔ ∃ m ∈ maps, m.contains k = true := by
  rw [contains, get?_overlayAll, List.isSome_findSome?]
  simp [contains]

end Insertion

/-! ## Other keys and values -/

section Map

variable {κ' ν' : Type} [BEq κ'] {f : κ → κ'} {g : ν → ν'}

theorem map_insertEntry (h : ∀ a b, (f a == f b) = (a == b)) (k : κ) (v : ν)
    (entries : List (κ × ν)) : (insertEntry k v entries).map (Prod.map f g) =
      insertEntry (f k) (g v) (entries.map (Prod.map f g)) := by
  induction entries with
  | nil => rfl
  | cons e rest ih =>
    rw [List.map_cons, insertEntry, insertEntry, Prod.map_fst, h]
    split
    · rfl
    · rw [List.map_cons, ih]

/-- To change the keys of a map without making any of them equal changes nothing else. -/
theorem map_entries_ofList (h : ∀ a b, (f a == f b) = (a == b)) (entries : List (κ × ν)) :
    (ofList entries).entries.map (Prod.map f g) =
      (ofList (entries.map (Prod.map f g))).entries := by
  have hall : ∀ (m : OrderedMap κ ν) (m' : OrderedMap κ' ν'),
      m.entries.map (Prod.map f g) = m'.entries →
      (m.insertAll entries).entries.map (Prod.map f g) =
        (m'.insertAll (entries.map (Prod.map f g))).entries := by
    induction entries with
    | nil => exact fun _ _ heq => heq
    | cons e rest ih =>
      intro m m' heq
      refine ih (m.insert e.1 e.2) (m'.insert (f e.1) (g e.2)) ?_
      show (insertEntry e.1 e.2 m.entries).map (Prod.map f g) = _
      rw [map_insertEntry h, heq]
      rfl
  exact hall empty empty rfl

theorem map_keys_ofList (h : ∀ a b, (f a == f b) = (a == b)) (g : ν → ν')
    (entries : List (κ × ν)) :
    (ofList entries).keys.map f = (ofList (entries.map (Prod.map f g))).keys := by
  rw [keys, keys, ← map_entries_ofList h, List.map_map, List.map_map]
  rfl

variable {K : κ → κ' → Prop} {V : ν → ν' → Prop}

theorem forall₂_insertEntry (h : ∀ {a b a' b'}, K a a' → K b b' → (a == b) = (a' == b'))
    {k : κ} {k' : κ'} (hk : K k k') {v : ν} {v' : ν'} (hv : V v v') {as : List (κ × ν)}
    {bs : List (κ' × ν')} (hall : List.Forall₂ (fun a b => K a.1 b.1 ∧ V a.2 b.2) as bs) :
    List.Forall₂ (fun a b => K a.1 b.1 ∧ V a.2 b.2)
      (insertEntry k v as) (insertEntry k' v' bs) := by
  induction hall with
  | nil => exact .cons ⟨hk, hv⟩ .nil
  | cons hab hrest ih =>
    rw [insertEntry, insertEntry, h hab.1 hk]
    split
    · exact .cons ⟨hab.1, hv⟩ hrest
    · exact .cons hab ih

/-- Entries that correspond to each other give maps whose entries do so, if keys are equal where the
corresponding ones are. -/
theorem forall₂_ofList (h : ∀ {a b a' b'}, K a a' → K b b' → (a == b) = (a' == b'))
    {as : List (κ × ν)} {bs : List (κ' × ν')}
    (hall : List.Forall₂ (fun a b => K a.1 b.1 ∧ V a.2 b.2) as bs) :
    List.Forall₂ (fun a b => K a.1 b.1 ∧ V a.2 b.2) (ofList as).entries (ofList bs).entries := by
  have hinsert : ∀ (m : OrderedMap κ ν) (m' : OrderedMap κ' ν'),
      List.Forall₂ (fun a b => K a.1 b.1 ∧ V a.2 b.2) m.entries m'.entries →
      List.Forall₂ (fun a b => K a.1 b.1 ∧ V a.2 b.2) (m.insertAll as).entries
        (m'.insertAll bs).entries := by
    induction hall with
    | nil => exact fun _ _ h => h
    | @cons a b _ _ hab _ ih =>
      exact fun m m' hm => ih (m.insert a.1 a.2) (m'.insert b.1 b.2)
        (forall₂_insertEntry h hab.1 hab.2 hm)
  exact hinsert empty empty .nil

end Map

/-! ## Equality -/

section Equality

variable [PartialEquivBEq κ]

/-- Distinct keys that all have an equal one in a list are not more than the list is long, and if
they are not fewer, each of the list has an equal one among them. -/
theorem length_le_of_covered {as bs : List κ} (distinct : as.Pairwise fun a b => (a == b) = false)
    (covered : ∀ a ∈ as, ∃ b ∈ bs, (a == b) = true) :
    as.length ≤ bs.length ∧
      (bs.length ≤ as.length → ∀ b ∈ bs, ∃ a ∈ as, (a == b) = true) := by
  induction as generalizing bs with
  | nil =>
    refine ⟨Nat.zero_le _, fun hle b hb => ?_⟩
    rw [List.eq_nil_of_length_eq_zero (Nat.le_zero.1 hle)] at hb
    cases hb
  | cons a as ih =>
    obtain ⟨hhead, htail⟩ := List.pairwise_cons.1 distinct
    obtain ⟨hcovered, hrest⟩ := List.forall_mem_cons.1 covered
    obtain ⟨c, hc, hac⟩ := hcovered
    obtain ⟨front, back, rfl⟩ := List.append_of_mem hc
    -- no other key is equal to the one that the first key has taken
    have hothers : ∀ x ∈ as, ∃ b ∈ front ++ back, (x == b) = true := by
      intro x hx
      obtain ⟨b, hb, hxb⟩ := hrest x hx
      refine ⟨b, ?_, hxb⟩
      rw [List.mem_append, List.mem_cons] at hb
      rcases hb with hb | rfl | hb
      · exact List.mem_append_left _ hb
      · have hax := BEq.trans hac (BEq.symm hxb)
        rw [hhead x hx] at hax
        cases hax
      · exact List.mem_append_right _ hb
    obtain ⟨hlength, honto⟩ := ih htail hothers
    simp only [List.length_append, List.length_cons] at hlength honto ⊢
    refine ⟨by omega, fun hle b hb => ?_⟩
    rw [List.mem_append, List.mem_cons, or_left_comm, ← List.mem_append] at hb
    rcases hb with rfl | hb
    · exact ⟨a, List.mem_cons_self, hac⟩
    · obtain ⟨x, hx, hxb⟩ := honto (by omega) b hb
      exact ⟨x, List.mem_cons_of_mem _ hx, hxb⟩

omit [PartialEquivBEq κ] in
theorem pairwise_keys (m : OrderedMap κ ν) : m.keys.Pairwise fun a b => (a == b) = false := by
  rw [keys, List.pairwise_map]
  exact m.distinct

omit [PartialEquivBEq κ] in
theorem contains_iff_exists_key {m : OrderedMap κ ν} {k : κ} :
    m.contains k = true ↔ ∃ key ∈ m.keys, (key == k) = true := by
  rw [← Bool.not_eq_false, contains_eq_false_iff, get?, lookup_eq_none_iff]
  simp [keys]

/-- The keys of a map that are all in another one are not more than those, and if they are not
fewer, the keys of that one are all in the map. -/
theorem size_le_of_contains {a b : OrderedMap κ ν} (h : ∀ k ∈ a.keys, b.contains k = true) :
    a.size ≤ b.size ∧ (b.size ≤ a.size → ∀ k, b.contains k = true → a.contains k = true) := by
  have hcovered : ∀ k ∈ a.keys, ∃ key ∈ b.keys, (k == key) = true := by
    intro k hk
    obtain ⟨key, hkey, heq⟩ := contains_iff_exists_key.1 (h k hk)
    exact ⟨key, hkey, BEq.symm heq⟩
  obtain ⟨hle, honto⟩ := length_le_of_covered a.pairwise_keys hcovered
  simp only [keys, List.length_map] at hle honto
  refine ⟨hle, fun hge k hk => ?_⟩
  obtain ⟨key, hkey, heq⟩ := contains_iff_exists_key.1 hk
  obtain ⟨other, hother, hsame⟩ := honto hge key hkey
  exact contains_iff_exists_key.2 ⟨other, hother, BEq.trans hsame heq⟩

end Equality

/-- Maps are equal exactly when each look-up gives equal values in both, or none in both. -/
theorem same_iff_get? [EquivBEq κ] {sameValue : ν → ν → Bool} {a b : OrderedMap κ ν} :
    same sameValue a b = true ↔
      ∀ k, Option.Rel (fun v w => sameValue v w = true) (a.get? k) (b.get? k) := by
  rw [same, Bool.and_eq_true, decide_eq_true_eq, List.all_eq_true]
  constructor
  · rintro ⟨hsize, hall⟩ k
    -- each value of the first map has an equal one in the second
    have hforth : ∀ v k, a.get? k = some v → ∃ w, b.get? k = some w ∧ sameValue v w = true := by
      intro v k hv
      obtain ⟨e, he, heq, rfl⟩ := exists_of_lookup_eq_some hv
      have hvalue := hall e he
      rw [get?_congr heq] at hvalue
      split at hvalue
      · next w hw => exact ⟨w, hw, hvalue⟩
      · cases hvalue
    cases hv : a.get? k with
    | some v =>
      obtain ⟨w, hw, hsame⟩ := hforth v k hv
      rw [hw]
      exact .some hsame
    | none =>
      have hkeys : ∀ k ∈ a.keys, b.contains k = true := by
        intro k hk
        obtain ⟨e, he, rfl⟩ := List.mem_map.1 hk
        obtain ⟨w, hw, -⟩ := hforth e.2 e.1 (get?_of_mem he)
        exact contains_eq_true_iff.2 ⟨w, hw⟩
      have hback := (size_le_of_contains hkeys).2 (Nat.le_of_eq hsize.symm) k
      have hnone : b.get? k = none := by
        rw [← contains_eq_false_iff, ← Bool.not_eq_true]
        intro hk
        rw [contains_eq_false_iff.2 hv] at hback
        cases hback hk
      rw [hnone]
      exact .none
  · intro h
    have hcontains : ∀ k, a.contains k = b.contains k := by
      intro k
      have hrel := h k
      unfold contains
      generalize a.get? k = v, b.get? k = w at hrel ⊢
      cases hrel <;> rfl
    have hmem : ∀ (m : OrderedMap κ ν), ∀ k ∈ m.keys, m.contains k = true := by
      intro m k hk
      exact contains_iff_exists_key.2 ⟨k, hk, BEq.rfl⟩
    refine ⟨Nat.le_antisymm ?_ ?_, fun e he => ?_⟩
    · exact (size_le_of_contains fun k hk => hcontains k ▸ hmem a k hk).1
    · exact (size_le_of_contains fun k hk => (hcontains k).symm ▸ hmem b k hk).1
    · have hrel := h e.1
      rw [get?_of_mem he] at hrel
      cases hw : b.get? e.1 with
      | none =>
        rw [hw] at hrel
        cases hrel
      | some w =>
        rw [hw] at hrel
        cases hrel with | some hsame => exact hsame

end SiteRules.OrderedMap
