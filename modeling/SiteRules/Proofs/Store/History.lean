import SiteRules.Proofs.Document

/-!
# Histories of stores

A store is begun empty, from a mapping or from a document, and grows write by write
(`Store.Built`). Its history is the list of the patterns written, where those that it begins with
count as written in their order. The numbers that a store keeps with its entries are those of the
last writes in its history (`Store.Built.tracks`), so that the history can be read off the store.
-/

namespace SiteRules.Store

variable {κ ν : Type} [BEq κ]

/-! ## Histories -/

/-- The stores with their histories. -/
inductive Built : {κ ν : Type} → [BEq κ] → Store κ ν → List Text → Prop
  | empty {κ ν : Type} [BEq κ] : Built (Store.empty : Store κ ν) []
  | mapping {κ ν : Type} [BEq κ] (sites : OrderedMap Text (Record κ ν)) :
    Built (ofRecords sites.entries) sites.keys
  | document {v : Value} {s : Sites} (read : Document.read v = .ok s) :
    Built s (Document.siteNames v)
  | merge {κ ν : Type} [BEq κ] {s : Store κ ν} {writes : List Text} (built : Built s writes)
    (pattern : Text) (key : κ) (value : ν) : Built (s.merge pattern key value) (writes ++ [pattern])

/-- The number of the last write of a pattern, counted from one; zero if there is none. -/
def lastWrite (writes : List Text) (pattern : Text) : Nat :=
  writes.length - writes.reverse.idxOf pattern

theorem lastWrite_le_length (writes : List Text) (pattern : Text) :
    lastWrite writes pattern ≤ writes.length :=
  Nat.sub_le _ _

theorem lastWrite_append_self (writes : List Text) (pattern : Text) :
    lastWrite (writes ++ [pattern]) pattern = writes.length + 1 := by
  simp [lastWrite]

theorem lastWrite_append_of_ne {p q : Text} (h : q ≠ p) (writes : List Text) :
    lastWrite (writes ++ [q]) p = lastWrite writes p := by
  have hidx : (writes ++ [q]).reverse.idxOf p = writes.reverse.idxOf p + 1 := by
    rw [List.reverse_append, List.reverse_singleton, List.singleton_append, List.idxOf_cons,
      beq_false_of_ne h, cond_false]
  rw [lastWrite, hidx, lastWrite, List.length_append, List.length_singleton]
  omega

/-- In a list without repetitions each pattern is written at its place only. -/
theorem lastWrite_of_nodup {writes : List Text} (h : writes.Nodup) {i : Nat} {p : Text}
    (hi : writes[i]? = some p) : lastWrite writes p = i + 1 := by
  obtain ⟨hlt, rfl⟩ := List.getElem?_eq_some_iff.1 hi
  -- read from the end, the pattern first appears at the place that mirrors its own
  have hrev : writes.reverse.idxOf writes[i] = writes.length - 1 - i := by
    have hlt' : writes.length - 1 - i < writes.reverse.length := by
      rw [List.length_reverse]
      omega
    have hget : writes.reverse[writes.length - 1 - i] = writes[i] := by
      rw [List.getElem_reverse]
      congr 1
      omega
    rw [← hget]
    exact List.Nodup.idxOf_getElem (List.pairwise_reverse.2 (h.imp Ne.symm)) _ hlt'
  rw [lastWrite, hrev]
  omega

/-- Patterns that have been written were not last written at once. -/
theorem lastWrite_inj {writes : List Text} {p q : Text} (hp : 0 < lastWrite writes p)
    (h : lastWrite writes p = lastWrite writes q) : p = q := by
  unfold lastWrite at hp h
  have hidx : writes.reverse.idxOf p = writes.reverse.idxOf q := by omega
  have hlt : writes.reverse.idxOf p < writes.reverse.length := by
    rw [List.length_reverse]
    omega
  have hget := List.getElem_idxOf hlt
  simp only [hidx] at hget
  rw [← hget, List.getElem_idxOf]

/-! ## What the operations do to the entries -/

theorem get?_eq_some_iff {s : Store κ ν} {p : Text} {r : Record κ ν} :
    s.get? p = some r ↔ ∃ n, s.entries.get? p = some ⟨r, n⟩ := by
  rw [get?, Option.map_eq_some_iff]
  constructor
  · rintro ⟨⟨r', n⟩, h, rfl⟩
    exact ⟨n, h⟩
  · rintro ⟨n, h⟩
    exact ⟨_, h, rfl⟩

theorem entries_get?_merge (s : Store κ ν) (p q : Text) (k : κ) (v : ν) :
    (s.merge p k v).entries.get? q =
      if p = q then some ⟨((s.get? p).getD .empty).insert k v, s.next⟩ else s.entries.get? q := by
  simp only [merge, OrderedMap.get?_insert, beq_iff_eq]

theorem get?_merge (s : Store κ ν) (p q : Text) (k : κ) (v : ν) :
    (s.merge p k v).get? q =
      if p = q then some (((s.get? p).getD .empty).insert k v) else s.get? q := by
  rw [get?, entries_get?_merge]
  split <;> rfl

theorem map_fst_number (n : Nat) (records : List (Text × Record κ ν)) :
    (number n records).map Prod.fst = records.map Prod.fst := by
  induction records generalizing n with
  | nil => rfl
  | cons site rest ih => rw [number, List.map_cons, List.map_cons, ih]

theorem map_record_number (n : Nat) (records : List (Text × Record κ ν)) :
    ((number n records).map fun e => (e.1, e.2.record)) = records := by
  induction records generalizing n with
  | nil => rfl
  | cons site rest ih => rw [number, List.map_cons, ih]

theorem mem_number {n : Nat} {records : List (Text × Record κ ν)} {p : Text} {e : Entry κ ν} :
    (p, e) ∈ number n records ↔ ∃ i, records[i]? = some (p, e.record) ∧ e.seq = n + i := by
  induction records generalizing n with
  | nil => simp [number]
  | cons site rest ih =>
    obtain ⟨q, r⟩ := site
    rw [number, List.mem_cons, ih]
    constructor
    · rintro (h | ⟨i, hi, hseq⟩)
      · cases h
        exact ⟨0, rfl, rfl⟩
      · exact ⟨i + 1, hi, by omega⟩
    · rintro ⟨i, hi, hseq⟩
      cases i with
      | zero =>
        left
        simp only [List.getElem?_cons_zero, Option.some.injEq, Prod.mk.injEq] at hi
        obtain ⟨rfl, rfl⟩ := hi
        cases e
        cases hseq
        rfl
      | succ i => exact .inr ⟨i, by simpa using hi, by omega⟩

section Records

variable {records : List (Text × Record κ ν)} (distinct : (records.map Prod.fst).Nodup)

include distinct

theorem entries_ofRecords : (ofRecords records).entries.entries = number 0 records := by
  refine OrderedMap.entries_ofList ?_
  rw [← map_fst_number 0 records, List.Nodup, List.pairwise_map] at distinct
  exact distinct.imp fun h => by simpa using h

/-- The entries of a store of records are the records, numbered by their places. -/
theorem entries_get?_ofRecords {p : Text} {e : Entry κ ν} :
    (ofRecords records).entries.get? p = some e ↔ records[e.seq]? = some (p, e.record) := by
  rw [← OrderedMap.mem_entries_iff, entries_ofRecords distinct, mem_number]
  simp

theorem get?_ofRecords {p : Text} {r : Record κ ν} :
    (ofRecords records).get? p = some r ↔ (p, r) ∈ records := by
  simp only [get?_eq_some_iff, entries_get?_ofRecords distinct, List.mem_iff_getElem?]

theorem next_ofRecords : (ofRecords records).next = records.length := by
  have hlength := congrArg List.length (entries_ofRecords distinct)
  rw [← List.length_map Prod.fst, ← map_fst_number 0 records, List.length_map, ← hlength]
  rfl

end Records

/-! ## The numbers of the entries -/

/-- The numbers that a store keeps are those of a history. -/
structure Tracks (s : Store κ ν) (writes : List Text) : Prop where
  next_eq : s.next = writes.length
  seq_eq : ∀ {p e}, s.entries.get? p = some e → e.seq + 1 = lastWrite writes p

theorem tracks_empty : (empty : Store κ ν).Tracks [] :=
  ⟨rfl, fun h => by cases h⟩

theorem tracks_ofRecords {records : List (Text × Record κ ν)}
    (distinct : (records.map Prod.fst).Nodup) :
    (ofRecords records).Tracks (records.map Prod.fst) := by
  refine ⟨by rw [next_ofRecords distinct, List.length_map], fun h => ?_⟩
  -- the number of an entry is its place, and its pattern is written nowhere else
  have hplace := (entries_get?_ofRecords distinct).1 h
  rw [lastWrite_of_nodup distinct]
  rw [List.getElem?_map, hplace]
  rfl

/-- A write is the last one of its pattern, and changes no other number. -/
theorem Tracks.merge {s : Store κ ν} {writes : List Text} (h : s.Tracks writes) (p : Text) (k : κ)
    (v : ν) : (s.merge p k v).Tracks (writes ++ [p]) := by
  refine ⟨?_, fun {q e} he => ?_⟩
  · rw [Store.merge, h.next_eq, List.length_append, List.length_singleton]
  · rw [entries_get?_merge] at he
    split at he
    · -- the write took the number that was next
      next heq =>
      cases he
      rw [← heq, lastWrite_append_self, h.next_eq]
    · next hne => rw [lastWrite_append_of_ne hne, h.seq_eq he]

/-- A store keeps the numbers of its history. -/
theorem Built.tracks {κ ν : Type} [BEq κ] {s : Store κ ν} {writes : List Text}
    (h : Built s writes) : s.Tracks writes := by
  induction h with
  | empty => exact tracks_empty
  | mapping sites => exact tracks_ofRecords sites.nodup_keys
  | document read =>
    obtain ⟨sites, rfl, hnames⟩ := Document.exists_sites_of_read read
    rw [← hnames]
    exact tracks_ofRecords sites.nodup_keys
  | merge _ p k v ih => exact ih.merge p k v

namespace Tracks

variable {s : Store κ ν} {writes : List Text} (h : s.Tracks writes)

include h

theorem seq_lt_next {p : Text} {e : Entry κ ν} (he : s.entries.get? p = some e) :
    e.seq < s.next := by
  have hle := lastWrite_le_length writes p
  have hseq := h.seq_eq he
  have hnext := h.next_eq
  omega

/-- Different patterns have different numbers. -/
theorem seq_inj {p q : Text} {e f : Entry κ ν} (he : s.entries.get? p = some e)
    (hf : s.entries.get? q = some f) (heq : e.seq = f.seq) : p = q := by
  have hp := h.seq_eq he
  have hq := h.seq_eq hf
  have heq : lastWrite writes p = lastWrite writes q := by omega
  exact lastWrite_inj (by omega) heq

end Tracks

end SiteRules.Store
