/-!
# Ordered maps

A map that remembers the order in which its keys were first inserted. Keys are compared with `==`.
-/

namespace SiteRules

/-- A finite map whose entries are in the order in which their keys were first inserted. -/
structure OrderedMap (κ ν : Type) [BEq κ] where
  entries : List (κ × ν)
  distinct : entries.Pairwise fun a b => (a.1 == b.1) = false

namespace OrderedMap

variable {κ ν : Type} [BEq κ]

/-- The map without entries. -/
def empty : OrderedMap κ ν := ⟨[], .nil⟩

instance : Inhabited (OrderedMap κ ν) := ⟨empty⟩

/-- The keys in order. -/
def keys (m : OrderedMap κ ν) : List κ :=
  m.entries.map Prod.fst

/-- The number of entries. -/
def size (m : OrderedMap κ ν) : Nat :=
  m.entries.length

/-- The value of a key in a list of entries. -/
def lookup (k : κ) : List (κ × ν) → Option ν
  | [] => none
  | entry :: rest => if entry.1 == k then some entry.2 else lookup k rest

/-- The value of a key. -/
def get? (m : OrderedMap κ ν) (k : κ) : Option ν :=
  lookup k m.entries

/-- Whether a key has a value. -/
def contains (m : OrderedMap κ ν) (k : κ) : Bool :=
  (m.get? k).isSome

/-- The entries with the value of a key replaced where the key is, or added at the end. -/
def insertEntry (k : κ) (v : ν) : List (κ × ν) → List (κ × ν)
  | [] => [(k, v)]
  | entry :: rest =>
    if entry.1 == k then (entry.1, v) :: rest else entry :: insertEntry k v rest

/-- A key that differs from all keys of a list and from `k` differs from all keys after an
insertion at `k`. -/
theorem forall_insertEntry {k : κ} {v : ν} {a : κ} {entries : List (κ × ν)}
    (hk : (a == k) = false) (h : ∀ b ∈ entries, (a == b.1) = false) :
    ∀ b ∈ insertEntry k v entries, (a == b.1) = false := by
  induction entries with
  | nil => simpa [insertEntry] using hk
  | cons entry rest ih =>
    intro b hb
    simp only [insertEntry] at hb
    split at hb
    · rcases List.mem_cons.1 hb with rfl | hb
      · exact h entry List.mem_cons_self
      · exact h b (List.mem_cons_of_mem _ hb)
    · rcases List.mem_cons.1 hb with rfl | hb
      · exact h _ List.mem_cons_self
      · exact ih (fun c hc => h c (List.mem_cons_of_mem _ hc)) b hb

/-- Insertion keeps the keys distinct. -/
theorem pairwise_insertEntry {k : κ} {v : ν} {entries : List (κ × ν)}
    (h : entries.Pairwise fun a b => (a.1 == b.1) = false) :
    (insertEntry k v entries).Pairwise fun a b => (a.1 == b.1) = false := by
  induction entries with
  | nil => simp [insertEntry]
  | cons entry rest ih =>
    obtain ⟨hhead, htail⟩ := List.pairwise_cons.1 h
    simp only [insertEntry]
    split
    · exact List.pairwise_cons.2 ⟨hhead, htail⟩
    · next hne =>
      exact List.pairwise_cons.2
        ⟨forall_insertEntry (by simpa using hne) hhead, ih htail⟩

/-- Gives a key a value; a key that had one keeps its place. -/
def insert (m : OrderedMap κ ν) (k : κ) (v : ν) : OrderedMap κ ν :=
  ⟨insertEntry k v m.entries, pairwise_insertEntry m.distinct⟩

/-- The map that results from inserting entries one after the other. -/
def insertAll (m : OrderedMap κ ν) (entries : List (κ × ν)) : OrderedMap κ ν :=
  entries.foldl (fun m entry => m.insert entry.1 entry.2) m

/-- The map of a list of entries; of two values for a key the later one stays. -/
def ofList (entries : List (κ × ν)) : OrderedMap κ ν :=
  empty.insertAll entries

/-- The map `base` with the entries of `top` laid over it. -/
def overlay (base top : OrderedMap κ ν) : OrderedMap κ ν :=
  base.insertAll top.entries

/-- Whether two maps have the same keys with equal values, whatever the order. -/
def same (sameValue : ν → ν → Bool) (a b : OrderedMap κ ν) : Bool :=
  a.size = b.size && a.entries.all fun entry =>
    match b.get? entry.1 with
    | some v => sameValue entry.2 v
    | none => false

end OrderedMap

end SiteRules
