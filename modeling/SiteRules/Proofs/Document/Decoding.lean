import SiteRules.Json.Reader
import SiteRules.Proofs.Document.Schema
import SiteRules.Proofs.Except

/-!
# Documents in JSON

What JSON spells has no marks, and the keys of its mappings are distinct texts
(`Json.readable_of_read`). So a document in JSON is fit to be checked by the schema as soon as its
version is an integer (`Document.decoded_of_read`), and the store that is read from it is written
out as it is (`Document.ofStore_eq_canonical_of_read`).
-/

namespace SiteRules

namespace Json

/-- A value that JSON spells: null, a truth value, a number, a text, a list, or a mapping with
distinct texts as keys. -/
inductive Readable : Value → Prop
  | null : Readable .null
  | bool (b : Bool) : Readable (.bool b)
  | int (n : Int) : Readable (.int n)
  | float (x : Binary64) : Readable (.float x)
  | text (t : Text) : Readable (.text t)
  | list {items : List Value} (readable : ∀ v ∈ items, Readable v) : Readable (.list items)
  | mapping {entries : List (Text × Value)} (distinct : (entries.map Prod.fst).Nodup)
      (readable : ∀ e ∈ entries, Readable e.2) : Readable (Document.mapping entries)

theorem Readable.isTree {v : Value} (h : Readable v) : v.isTree = true := by
  induction h with
  | null | bool | int | float | text => rfl
  | list _ ih => exact Value.areTrees_iff.2 ih
  | mapping _ _ ih => exact Value.haveTrees_iff.2 (List.forall_mem_map.2 ih)

theorem Readable.hasNames {v : Value} (h : Readable v) : Document.HasNames v := by
  cases h with
  | mapping distinct _ => exact Document.hasNames_mapping distinct
  | _ => exact ⟨fun e he => absurd he List.not_mem_nil, List.nodup_nil⟩

theorem Readable.of_mem_named {v : Value} (h : Readable v) :
    ∀ e ∈ Document.named v, Readable e.2 := by
  cases h with
  | mapping _ readable =>
    rw [Document.named_mapping]
    exact readable
  | _ => exact fun e he => absurd he List.not_mem_nil

theorem map_named? {entries : List (Value × Value)} (texts : ∀ e ∈ entries, ∃ t, e.1 = .text t) :
    (entries.filterMap Document.named?).map (fun e => (Value.text e.1, e.2)) = entries := by
  induction entries with
  | nil => rfl
  | cons e rest ih =>
    obtain ⟨⟨t, ht⟩, hrest⟩ := List.forall_mem_cons.1 texts
    have hnamed : Document.named? e = some (t, e.2) := by rw [Document.named?, ht]; rfl
    rw [List.filterMap_cons_some hnamed, List.map_cons, ih hrest, ← ht]

/-- A mapping of readable values under texts is readable. -/
theorem readable_ofEntries {entries : List (Value × Value)}
    (h : ∀ e ∈ entries, (∃ t, e.1 = .text t) ∧ Readable e.2) :
    Readable (Value.ofEntries entries) := by
  have hentries := OrderedMap.forall_mem_ofList (P := fun k => ∃ t, k = Value.text t) h
  have hdistinct := (OrderedMap.ofList entries).distinct
  have hnamed := map_named? fun e he => (hentries e he).1
  unfold Value.ofEntries
  rw [← hnamed] at hentries hdistinct ⊢
  refine .mapping ?_ fun e he => (hentries _ (List.mem_map_of_mem he)).2
  rw [List.pairwise_map] at hdistinct
  exact List.pairwise_map.2 (hdistinct.imp fun hne => of_decide_eq_false hne)

/-! ## What the reader gives -/

theorem readable_of_scanNumber {cs rest : List Char} {v : Value}
    (h : scanNumber cs = .ok (v, rest)) : Readable v := by
  unfold scanNumber at h
  dsimp only at h
  split at h
  · cases h
  · split at h
    · cases h
      exact .float _
    · split at h
      · cases h
        exact .int _
      · cases h

theorem readable_of_scanAtom {cs rest : List Char} {v : Value} (h : scanAtom cs = .ok (v, rest)) :
    Readable v := by
  have hnames : ∀ name ∈ names, Readable name.2 := by
    simp only [names, List.forall_mem_cons]
    exact ⟨.null, .bool _, .bool _, .float _, .float _, .float _,
      fun _ h => absurd h List.not_mem_nil⟩
  unfold scanAtom at h
  split at h
  · next name w hfind =>
    cases h
    exact hnames _ (List.mem_of_find?_eq_some hfind)
  · exact readable_of_scanNumber h

/-- With an amount of fuel the readers give readable values, under texts where they are entries. -/
structure ScansReadable (fuel : Nat) : Prop where
  value {cs rest : List Char} {v : Value} : scanValue fuel cs = .ok (v, rest) → Readable v
  items {cs rest : List Char} {vs : List Value} :
    scanItems fuel cs = .ok (vs, rest) → ∀ v ∈ vs, Readable v
  entries {cs rest : List Char} {entries : List (Value × Value)} :
    scanEntries fuel cs = .ok (entries, rest) → ∀ e ∈ entries, (∃ t, e.1 = .text t) ∧ Readable e.2

namespace ScansReadable

variable {fuel : Nat} (ih : ScansReadable fuel) {cs rest : List Char}

include ih

theorem value_succ {v : Value} (h : scanValue (fuel + 1) cs = .ok (v, rest)) : Readable v := by
  unfold scanValue at h
  split at h
  · cases h
  · obtain ⟨⟨t, _⟩, -, h⟩ := bind_eq_ok_iff.1 h
    cases h
    exact .text t
  · dsimp only at h
    split at h
    · cases h
      exact readable_ofEntries fun e he => absurd he List.not_mem_nil
    · obtain ⟨⟨entries, _⟩, hscan, h⟩ := bind_eq_ok_iff.1 h
      cases h
      exact readable_ofEntries (ih.entries hscan)
  · dsimp only at h
    split at h
    · cases h
      exact .list fun v hv => absurd hv List.not_mem_nil
    · obtain ⟨⟨items, _⟩, hscan, h⟩ := bind_eq_ok_iff.1 h
      cases h
      exact .list (ih.items hscan)
  · exact readable_of_scanAtom h

theorem items_succ {vs : List Value} (h : scanItems (fuel + 1) cs = .ok (vs, rest)) :
    ∀ v ∈ vs, Readable v := by
  obtain ⟨⟨v, _⟩, hscan, h⟩ := bind_eq_ok_iff.1 h
  have hv := ih.value hscan
  dsimp only at h
  split at h
  · cases h
    exact List.forall_mem_singleton.2 hv
  · obtain ⟨⟨others, _⟩, hothers, h⟩ := bind_eq_ok_iff.1 h
    cases h
    exact List.forall_mem_cons.2 ⟨hv, ih.items hothers⟩
  · cases h

theorem entries_succ {entries : List (Value × Value)}
    (h : scanEntries (fuel + 1) cs = .ok (entries, rest)) :
    ∀ e ∈ entries, (∃ t, e.1 = .text t) ∧ Readable e.2 := by
  unfold scanEntries at h
  split at h
  · obtain ⟨⟨name, _⟩, -, h⟩ := bind_eq_ok_iff.1 h
    dsimp only at h
    split at h
    · obtain ⟨⟨v, _⟩, hscan, h⟩ := bind_eq_ok_iff.1 h
      have hv := ih.value hscan
      dsimp only at h
      split at h
      · cases h
        exact List.forall_mem_singleton.2 ⟨⟨name, rfl⟩, hv⟩
      · obtain ⟨⟨others, _⟩, hothers, h⟩ := bind_eq_ok_iff.1 h
        cases h
        exact List.forall_mem_cons.2 ⟨⟨⟨name, rfl⟩, hv⟩, ih.entries hothers⟩
      · cases h
    · cases h
  · cases h

end ScansReadable

/-- Each reader calls the others with less fuel, so this holds of all of them at once. -/
theorem scansReadable (fuel : Nat) : ScansReadable fuel := by
  induction fuel with
  | zero =>
    constructor
    · intro _ _ _ h
      cases h
    · intro _ _ _ h
      cases h
    · intro _ _ _ h
      cases h
  | succ fuel ih => exact ⟨ih.value_succ, ih.items_succ, ih.entries_succ⟩

/-- What JSON spells is readable. -/
theorem readable_of_read {cs : List Char} {v : Value} (h : read cs = .ok v) : Readable v := by
  unfold read at h
  dsimp only at h
  split at h
  · cases h
  · split at h
    · cases h
    · next hscan =>
      split at h
      · cases h
        exact (scansReadable _).value hscan
      · cases h

end Json

namespace Document

/-- A part of what JSON spells is spelled in JSON as well. -/
theorem readable_part? {d v : Value} {name : String} (h : Json.Readable d)
    (hv : part? name d = some v) : Json.Readable v := by
  unfold part? Schema.field? at hv
  obtain ⟨e, hfind, rfl⟩ := Option.map_eq_some_iff.1 hv
  have hmem := List.mem_of_find?_eq_some hfind
  cases h with
  | mapping _ readable =>
    obtain ⟨entry, hentry, rfl⟩ := List.mem_map.1 hmem
    exact readable entry hentry
  | _ => exact absurd hmem List.not_mem_nil

theorem readable_of_mem_sitesIn {d : Value} (h : Json.Readable d) :
    ∀ site ∈ sitesIn d, Json.Readable site.2 := by
  unfold sitesIn
  cases hv : part? "sites" d with
  | none => exact fun site hsite => absurd hsite List.not_mem_nil
  | some v => exact (readable_part? h hv).of_mem_named

section Read

variable {cs : List Char} {d : Value} (h : Json.read cs = .ok d)
  (version : ∀ v, part? "version" d = some v → (integer? v).isSome = true)

include h version

/-- A document in JSON is decoded as the schema expects if its version is an integer. -/
theorem decoded_of_read : Decoded d := by
  have hreadable := Json.readable_of_read h
  have hsites := readable_of_mem_sitesIn hreadable
  refine ⟨version, fun v hv => (readable_part? hreadable hv).hasNames,
    fun site hsite => (hsites site hsite).hasNames, fun site hsite setting hsetting => ?_⟩
  have hsetting := (hsites site hsite).of_mem_named setting hsetting
  exact Value.isClosedIn_of_isTree hsetting.isTree []

/-- A document in JSON that is read is written out as it is, with its version and its sites. -/
theorem ofStore_eq_canonical_of_read {s : Sites} (hread : read d = .ok s) :
    ofStore s false = canonical d := by
  have hsites := readable_of_mem_sitesIn (Json.readable_of_read h)
  refine ofStore_eq_canonical (decoded_of_read h version) ?_ hread
  intro site hsite setting hsetting
  exact ((hsites site hsite).of_mem_named setting hsetting).isTree

end Read

end Document

end SiteRules
