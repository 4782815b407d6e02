import SiteRules.Document
import SiteRules.Proofs.OrderedMap

/-!
# Theory of documents

What the checks of a schema say when they succeed, which patterns a document names and in which
order (`Document.siteNames`), and that the document of a store is accepted and gives back the
records of the store in the order in which they were listed (`Document.read_ofStore`).
-/

namespace SiteRules

/-! ## Checks that succeed -/

namespace Checked

variable {α β : Type}

theorem both_eq_ok {a : Checked α} {b : Checked β} {c : α × β} :
    both a b = .ok c ↔ a = .ok c.1 ∧ b = .ok c.2 := by
  obtain ⟨x, y⟩ := c
  cases a <;> cases b <;> simp [both]

theorem under_eq_ok {step : Issue.Step} {a : Checked α} {x : α} :
    under step a = .ok x ↔ a = .ok x := by
  cases a <;> simp [under]

theorem ofReason_eq_ok {a : Except Issue.Reason α} {x : α} : ofReason a = .ok x ↔ a = .ok x := by
  cases a <;> simp [ofReason]

theorem map_eq_ok {f : α → β} {a : Checked α} {y : β} :
    a.map f = .ok y ↔ ∃ x, a = .ok x ∧ f x = y := by
  cases a <;> simp [Except.map]

theorem all_eq_ok {checks : List (Checked α)} {xs : List α} :
    all checks = .ok xs ↔ checks = xs.map .ok := by
  induction checks generalizing xs with
  | nil => cases xs <;> simp [all]
  | cons check rest ih =>
    rw [all]
    cases xs with
    | nil => cases hb : both check (all rest) <;> simp
    | cons x xs =>
      rw [List.map_cons, List.cons.injEq, ← ih, ← both_eq_ok (c := (x, xs))]
      cases hb : both check (all rest) <;> simp [Prod.ext_iff]

end Checked

namespace Document

/-- A mapping is read entry by entry. -/
theorem readEntries_eq_ok {α : Type} {readValue : Value → Checked α} {v : Value}
    {sites : List (Text × α)} :
    readEntries readValue v = .ok sites ↔ ∃ entries, Schema.readMapping v = .ok entries ∧
      (entries.map fun e => (Schema.readName e.1, readValue e.2)) =
        sites.map fun site => (.ok site.1, .ok site.2) := by
  unfold readEntries
  cases Schema.readMapping v with
  | error reason => simp
  | ok entries =>
    simp only [Checked.all_eq_ok, Except.ok.injEq, exists_eq_left']
    induction entries generalizing sites with
    | nil => cases sites <;> simp
    | cons e rest ih =>
      cases sites with
      | nil => simp
      | cons site sites =>
        simp only [List.map_cons, List.cons.injEq, ih, Checked.both_eq_ok, Checked.under_eq_ok,
          Checked.ofReason_eq_ok, Prod.mk.injEq]

/-! ## The patterns that a document names -/

/-- The entries that a document has under the name `sites`. -/
def siteEntries (v : Value) : List (Value × Value) :=
  match v.content with
  | .map entries => match Schema.field? "sites" entries with
    | some sites => (Schema.readMapping sites).toOption.getD []
    | none => []
  | _ => []

/-- The patterns that a document names, in the order of the document. -/
def siteNames (v : Value) : List Text :=
  ((siteEntries v).filterMap fun e => (Schema.readName e.1).toOption).eraseDups

theorem filterMap_readName {α β : Type} {f : Value → β} {g : α → β}
    {entries : List (Value × Value)} {sites : List (Text × α)}
    (h : (entries.map fun e => (Schema.readName e.1, f e.2)) =
      sites.map fun site => (.ok site.1, g site.2)) :
    (entries.filterMap fun e => (Schema.readName e.1).toOption) = sites.map Prod.fst := by
  have hfst := congrArg (List.filterMap fun p : Except Issue.Reason Text × β => p.1.toOption) h
  rw [List.filterMap_map, List.filterMap_map] at hfst
  have hright : sites.filterMap (fun site => some site.1) = sites.map Prod.fst := by
    rw [← List.filterMap_eq_map]
    rfl
  exact hfst.trans hright

/-- A document that is accepted gives the store of its records, in its own order. -/
theorem exists_sites_of_read {v : Value} {s : Sites} (h : read v = .ok s) :
    ∃ sites : OrderedMap Text (Record Text Value),
      s = .ofRecords sites.entries ∧ sites.keys = siteNames v := by
  unfold read at h
  split at h
  · next hv =>
    refine ⟨.empty, (Except.ok.inj h).symm, ?_⟩
    simp [siteNames, siteEntries, hv, OrderedMap.keys, OrderedMap.empty]
  · next entries hv =>
    split at h
    · cases h
    · -- the parts have been accepted, among them the sites
      obtain ⟨sites, hparts, rfl⟩ := Checked.map_eq_ok.1 h
      refine ⟨.ofList sites, rfl, ?_⟩
      obtain ⟨⟨_, sites', _⟩, hboth, rfl⟩ := Checked.map_eq_ok.1 hparts
      have hsites := (Checked.both_eq_ok.1 (Checked.both_eq_ok.1 hboth).2).1
      have hnames : ((siteEntries v).filterMap fun e => (Schema.readName e.1).toOption) =
          sites'.map Prod.fst := by
        simp only [siteEntries, hv]
        cases hf : Schema.field? "sites" entries with
        | none =>
          rw [hf] at hsites
          cases hsites
          rfl
        | some sub =>
          simp only [hf, Checked.under_eq_ok] at hsites
          obtain ⟨inner, hinner, hmap⟩ := readEntries_eq_ok.1 hsites
          simpa [hinner, Except.toOption] using filterMap_readName hmap
      rw [siteNames, hnames, OrderedMap.keys_ofList]
  · cases h

/-! ## The document of a store -/

/-- A mapping is read back entry by entry from the values that were written for it. -/
theorem readEntries_mapping {α β : Type} {readValue : Value → Checked α} {write : β → Value}
    {f : β → α} (h : ∀ b, readValue (write b) = .ok (f b)) (sites : List (Text × β)) :
    readEntries readValue (mapping (sites.map fun site => (site.1, write site.2))) =
      .ok (sites.map fun site => (site.1, f site.2)) := by
  refine readEntries_eq_ok.2 ⟨_, rfl, ?_⟩
  rw [List.map_map, List.map_map, List.map_map]
  refine List.map_congr_left fun site _ => ?_
  simp only [Function.comp, h]
  rfl

/-- A record with a change made to each of its settings. -/
def mapRecord (f : Value → Value) (r : Record Text Value) : Record Text Value :=
  ⟨r.entries.map fun e => (e.1, f e.2), List.pairwise_map.2 r.distinct⟩

theorem get?_mapRecord (f : Value → Value) (r : Record Text Value) (k : Text) :
    (mapRecord f r).get? k = (r.get? k).map f := by
  show OrderedMap.lookup k (r.entries.map fun e => (e.1, f e.2)) =
    (OrderedMap.lookup k r.entries).map f
  induction r.entries with
  | nil => rfl
  | cons e rest ih =>
    rw [List.map_cons, OrderedMap.lookup, OrderedMap.lookup, ih]
    split <;> rfl

theorem mapRecord_eq_self {f : Value → Value} {r : Record Text Value}
    (h : ∀ k v, r.get? k = some v → f v = v) : mapRecord f r = r := by
  refine OrderedMap.ext_entries ?_
  have hentry : ∀ e ∈ r.entries, (e.1, f e.2) = e := by
    intro e he
    rw [h e.1 e.2 (OrderedMap.mem_entries_iff.1 he)]
  exact (List.map_congr_left hentry).trans (List.map_id' _)

theorem readRecord_mapping (f : Value → Value) (r : Record Text Value) :
    readRecord (mapping (r.entries.map fun e => (e.1, f e.2))) = .ok (mapRecord f r) := by
  rw [readRecord, readEntries_mapping (f := f) fun _ => rfl]
  exact congrArg Except.ok (OrderedMap.ofList_entries (mapRecord f r))

/-- A document that has the one version and is accepted gives the store of its sites. -/
theorem read_mapping {sites : Value} {records : List (Text × Record Text Value)}
    (h : readEntries readRecord sites = .ok records) :
    read (mapping [(Text.ofString "version", .int version), (Text.ofString "sites", sites)]) =
      .ok (.ofRecords (OrderedMap.ofList records).entries) := by
  let entries : List (Value × Value) :=
    [(.text (Text.ofString "version"), .int version), (.text (Text.ofString "sites"), sites)]
  have hnames : entries.any hasSurrogateName = false := rfl
  have hversion : Schema.field? "version" entries = some (.int version) := rfl
  have hsites : Schema.field? "sites" entries = some sites := rfl
  have hothers : entries.flatMap unknownPart = [] := rfl
  have hone : readVersion (.int version) = .ok () := rfl
  -- nothing is wrong with either part, and there is no other one
  have hparts : readParts entries = .ok records := by
    simp only [readParts, hversion, hsites, hothers, hone, h, Checked.ofReason, Checked.under]
    rfl
  have hread : read (.map entries) =
      (readParts entries).map fun sites => .ofRecords (OrderedMap.ofList sites).entries := by
    simp only [read, Value.content, hnames, Bool.false_eq_true, if_false]
  rw [hparts] at hread
  exact hread

/-- The document of records, with a change made to each of their settings. -/
def ofSites (f : Value → Value) (sites : List (Text × Record Text Value)) : Value :=
  mapping [(Text.ofString "version", .int version), (Text.ofString "sites",
    mapping (sites.map fun site => (site.1, mapping (site.2.entries.map fun e => (e.1, f e.2)))))]

theorem ofStore_eq_ofSites (s : Sites) (ranked : Bool) :
    ofStore s ranked = ofSites Value.rebuild (s.listed ranked) := rfl

/-- The document of records is accepted. It gives the changed records in the same order. -/
theorem read_ofSites (f : Value → Value) {sites : List (Text × Record Text Value)}
    (h : (sites.map Prod.fst).Nodup) : read (ofSites f sites) =
      .ok (.ofRecords (sites.map fun site => (site.1, mapRecord f site.2))) := by
  have hdistinct : (sites.map fun site => (site.1, mapRecord f site.2)).Pairwise
      fun a b => (a.1 == b.1) = false := by
    rw [List.pairwise_map]
    exact (List.pairwise_map.1 h).imp fun hne => by simpa using hne
  have hread := read_mapping (readEntries_mapping (readRecord_mapping f) sites)
  rwa [OrderedMap.entries_ofList hdistinct] at hread

/-- The document of a store is accepted. It gives the records of the store as they were listed, each
setting being rebuilt. -/
theorem read_ofStore (s : Sites) (ranked : Bool) (h : ((s.listed ranked).map Prod.fst).Nodup) :
    read (ofStore s ranked) = .ok (.ofRecords
      ((s.listed ranked).map fun site => (site.1, mapRecord Value.rebuild site.2))) :=
  read_ofSites Value.rebuild h

end Document

end SiteRules
