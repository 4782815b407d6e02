import SiteRules.Proofs.Document
import SiteRules.Proofs.Store.Alike
import SiteRules.Proofs.Value.Unfolding
import SiteRules.Stack.Usual

/-!
# The schema of documents

A document that is not null is a mapping with no other parts than a version, which is one, and
sites, which are mappings in a mapping (`Document.MeetsSchema`). Exactly such documents are read,
and the store that results holds the records of the document in its order
(`Document.read_eq_ok_iff`). The store is built if the stack suffices for copying the settings
(`Document.build_eq_ok_iff`). The document of that store says the same as the one that was read, and
reading it in turn changes nothing more (`Document.build_meetsSchema`).
-/

namespace SiteRules.Document

/-! ## Parts of documents -/

/-- The entries of a mapping; other values have none. -/
def entriesOf (v : Value) : List (Value × Value) :=
  match v.content with
  | .map entries => entries
  | _ => []

/-- A value is a mapping. -/
def IsMapping (v : Value) : Prop :=
  ∃ entries, v.content = .map entries

/-- An entry with the text of its key, if that is one. -/
def named? (e : Value × Value) : Option (Text × Value) :=
  match e.1.content with
  | .text t => some (t, e.2)
  | _ => none

/-- The entries of a mapping that have texts as keys. -/
def named (v : Value) : List (Text × Value) :=
  (entriesOf v).filterMap named?

/-- The keys of a mapping are texts, and no two of them are the same. -/
structure HasNames (v : Value) : Prop where
  texts : ∀ e ∈ entriesOf v, ∃ t, e.1.content = .text t
  distinct : ((named v).map Prod.fst).Nodup

/-- The part of a document with a name. -/
def part? (name : String) (d : Value) : Option Value :=
  Schema.field? name (entriesOf d)

/-- The integer that a value is, where the truth values are zero and one. -/
def integer? (v : Value) : Option Int :=
  match v.content with
  | .int n => some n
  | .bool b => some b.toNat
  | _ => none

/-- What a document says of sites. -/
def sitesIn (d : Value) : List (Text × Value) :=
  (part? "sites" d).elim [] named

/-- A document as it is when it has been decoded: names in the mappings of sites and settings are
texts and distinct, a version is an integer, and each setting is a value by itself. -/
structure Decoded (d : Value) : Prop where
  version : ∀ v, part? "version" d = some v → (integer? v).isSome = true
  sites : ∀ v, part? "sites" d = some v → HasNames v
  records : ∀ site ∈ sitesIn d, HasNames site.2
  settings : ∀ site ∈ sitesIn d, ∀ setting ∈ named site.2, setting.2.isClosedIn [] = true

/-- A mapping has no parts but a version, which is one, and sites, which are mappings in a
mapping. -/
structure HasKnownParts (d : Value) : Prop where
  others : ∀ e ∈ entriesOf d,
    e.1.content = Value.ofString "version" ∨ e.1.content = Value.ofString "sites"
  version : ∀ v, part? "version" d = some v → integer? v = some 1
  sites : ∀ v, part? "sites" d = some v → IsMapping v ∧ ∀ e ∈ entriesOf v, IsMapping e.2

/-- What the schema asks of a document. -/
def MeetsSchema (d : Value) : Prop :=
  d.content = .null ∨ IsMapping d ∧ HasKnownParts d

/-- The document with the version and the sites of a document, all written out. -/
def canonical (d : Value) : Value :=
  mapping [(Text.ofString "version", .int 1),
    (Text.ofString "sites", mapping ((sitesIn d).map fun site => (site.1, mapping (named site.2))))]

/-! ## Mappings with names -/

theorem readMapping_eq_ok_iff {v : Value} {entries : List (Value × Value)} :
    Schema.readMapping v = .ok entries ↔ IsMapping v ∧ entries = entriesOf v := by
  unfold Schema.readMapping IsMapping entriesOf
  split
  · next h => simp [h, eq_comm]
  · next hno =>
    constructor
    · intro h
      cases h
    · rintro ⟨⟨entries, h⟩, -⟩
      exact absurd h (hno entries)

/-- Each entry of a mapping with names is read by its name. -/
theorem map_readName {α : Type} {entries : List (Value × Value)} (f : Value → α)
    (texts : ∀ e ∈ entries, ∃ t, e.1.content = .text t) :
    (entries.map fun e => (Schema.readName e.1, f e.2)) =
      (entries.filterMap named?).map fun e => (.ok e.1, f e.2) := by
  induction entries with
  | nil => rfl
  | cons e rest ih =>
    obtain ⟨⟨t, ht⟩, hrest⟩ := List.forall_mem_cons.1 texts
    have hname : Schema.readName e.1 = .ok t := by rw [Schema.readName, ht]
    have hnamed : named? e = some (t, e.2) := by rw [named?, ht]
    rw [List.map_cons, hname, List.filterMap_cons_some hnamed, List.map_cons, ih hrest]

theorem forall_named_iff {v : Value} (names : HasNames v) {P : Value → Prop} :
    (∀ e ∈ named v, P e.2) ↔ ∀ e ∈ entriesOf v, P e.2 := by
  constructor
  · intro h e he
    obtain ⟨t, ht⟩ := names.texts e he
    have hnamed : named? e = some (t, e.2) := by rw [named?, ht]
    exact h (t, e.2) (List.mem_filterMap.2 ⟨e, he, hnamed⟩)
  · intro h e he
    obtain ⟨entry, hentry, hnamed⟩ := List.mem_filterMap.1 he
    obtain ⟨t, ht⟩ := names.texts entry hentry
    rw [named?, ht, Option.some.injEq] at hnamed
    rw [← hnamed]
    exact h entry hentry

theorem named_mapping (entries : List (Text × Value)) : named (mapping entries) = entries := by
  show (entries.map fun e => (Value.text e.1, e.2)).filterMap named? = entries
  rw [List.filterMap_map]
  exact List.filterMap_some

theorem hasNames_mapping {entries : List (Text × Value)} (distinct : (entries.map Prod.fst).Nodup) :
    HasNames (mapping entries) := by
  refine ⟨fun e he => ?_, by rwa [named_mapping]⟩
  obtain ⟨entry, -, rfl⟩ := List.mem_map.1 he
  exact ⟨entry.1, rfl⟩

section Entries

variable {α : Type} {readValue : Value → Checked α} {P : Value → Prop} {f : Value → α}

/-- Named values are all read if each of them is. -/
theorem map_eq_map_ok_iff {entries : List (Text × Value)}
    (hread : ∀ e ∈ entries, ∀ a, readValue e.2 = .ok a ↔ P e.2 ∧ a = f e.2)
    {sites : List (Text × α)} :
    ((entries.map fun e => (Except.ok e.1, readValue e.2)) =
      sites.map fun site => ((Except.ok site.1 : Except Issue.Reason Text), .ok site.2)) ↔
    (∀ e ∈ entries, P e.2) ∧ sites = entries.map fun e => (e.1, f e.2) := by
  induction entries generalizing sites with
  | nil => cases sites <;> simp
  | cons e rest ih =>
    obtain ⟨he, hrest⟩ := List.forall_mem_cons.1 hread
    cases sites with
    | nil => simp
    | cons site sites =>
      rw [List.map_cons, List.map_cons, List.cons.injEq, ih hrest, Prod.mk.injEq, he,
        List.forall_mem_cons, List.map_cons, List.cons.injEq, Prod.ext_iff, Except.ok.injEq]
      constructor
      · intro ⟨⟨hname, hP, hvalue⟩, hall, htail⟩
        exact ⟨⟨hP, hall⟩, ⟨hname.symm, hvalue⟩, htail⟩
      · intro ⟨⟨hP, hall⟩, ⟨hname, hvalue⟩, htail⟩
        exact ⟨⟨hname.symm, hP, hvalue⟩, hall, htail⟩

/-- A mapping with names is read if each of its values is. -/
theorem readEntries_eq_ok_iff {v : Value} (names : HasNames v)
    (hread : ∀ e ∈ named v, ∀ a, readValue e.2 = .ok a ↔ P e.2 ∧ a = f e.2)
    {sites : List (Text × α)} :
    readEntries readValue v = .ok sites ↔
      IsMapping v ∧ (∀ e ∈ named v, P e.2) ∧ sites = (named v).map fun e => (e.1, f e.2) := by
  rw [readEntries_eq_ok]
  simp only [readMapping_eq_ok_iff, and_assoc, exists_and_left, exists_eq_left]
  rw [map_readName readValue names.texts]
  exact and_congr_right fun _ => map_eq_map_ok_iff hread

end Entries

/-- The record that a mapping with names is read as. -/
def recordOf (v : Value) : Record Text Value :=
  .ofList (named v)

theorem entries_recordOf {v : Value} (names : HasNames v) : (recordOf v).entries = named v := by
  refine OrderedMap.entries_ofList ((List.pairwise_map.1 names.distinct).imp fun hne => ?_)
  exact beq_false_of_ne hne

theorem readRecord_eq_ok_iff {v : Value} (names : HasNames v) {r : Record Text Value} :
    readRecord v = .ok r ↔ IsMapping v ∧ r = recordOf v := by
  -- any value may be a setting
  have hentries : ∀ entries, readEntries Except.ok v = .ok entries ↔
      IsMapping v ∧ entries = named v := by
    intro entries
    rw [readEntries_eq_ok_iff (P := fun _ => True) (f := id) names fun e _ a => by simp [eq_comm]]
    simp
  rw [readRecord, Checked.map_eq_ok]
  simp only [hentries, recordOf]
  constructor
  · rintro ⟨entries, ⟨hmapping, hentries⟩, hr⟩
    rw [hentries] at hr
    exact ⟨hmapping, hr.symm⟩
  · rintro ⟨hmapping, hr⟩
    exact ⟨named v, ⟨hmapping, rfl⟩, hr.symm⟩

/-! ## The parts that are read -/

/-- The records of a document by pattern text. -/
def recordsIn (d : Value) : List (Text × Record Text Value) :=
  (sitesIn d).map fun site => (site.1, recordOf site.2)

theorem readInteger_of_integer? {v : Value} {n : Int} (h : integer? v = some n) :
    Schema.readInteger v = .ok n := by
  unfold integer? at h
  unfold Schema.readInteger
  split at h <;> cases h
  · next hv => rw [hv]
  · next hv => rw [hv]

theorem readVersion_eq_ok_iff {v : Value} (h : (integer? v).isSome = true) :
    readVersion v = .ok () ↔ integer? v = some 1 := by
  obtain ⟨n, hn⟩ := Option.isSome_iff_exists.1 h
  rw [readVersion, readInteger_of_integer? hn, hn, Option.some.injEq]
  rcases Int.lt_trichotomy n 1 with hlt | rfl | hgt
  · have hle : ¬n > 1 := by omega
    simp [version, Bind.bind, Except.bind, hle, hlt, throw, throwThe, MonadExceptOf.throw]
    omega
  · decide
  · simp [version, Bind.bind, Except.bind, hgt, throw, throwThe, MonadExceptOf.throw]
    omega

theorem unknownPart_eq_nil_iff {e : Value × Value} : unknownPart e = [] ↔
    e.1.content = Value.ofString "version" ∨ e.1.content = Value.ofString "sites" := by
  unfold unknownPart Value.ofString
  split
  · next t ht =>
    rw [ht, Value.text.injEq, Value.text.injEq]
    simp [partNames, Classical.or_iff_not_imp_left]
  · next hno =>
    constructor
    · intro h
      cases h
    · intro h
      rcases h with h | h
      · exact absurd h (hno _)
      · exact absurd h (hno _)

/-- The sites of a document are read if they are mappings in a mapping. -/
theorem readSites_eq_ok_iff {d v : Value} (decoded : Decoded d) (hv : part? "sites" d = some v)
    {sites : List (Text × Record Text Value)} :
    readEntries readRecord v = .ok sites ↔
      (IsMapping v ∧ ∀ e ∈ entriesOf v, IsMapping e.2) ∧ sites = recordsIn d := by
  have hsites : sitesIn d = named v := by rw [sitesIn, hv]; rfl
  have hrecords := decoded.records
  rw [hsites] at hrecords
  rw [readEntries_eq_ok_iff (decoded.sites v hv) fun e he r => readRecord_eq_ok_iff (hrecords e he),
    forall_named_iff (decoded.sites v hv), recordsIn, hsites, and_assoc]

section Parts

variable {d : Value} (decoded : Decoded d)

include decoded

/-- Nothing is wrong with the version if it is absent or one. -/
theorem checkedVersion_eq_ok_iff :
    (match part? "version" d with
      | some v => (Checked.ofReason (readVersion v)).under (.name (Text.ofString "version"))
      | none => .ok ()) = .ok () ↔
    ∀ v, part? "version" d = some v → integer? v = some 1 := by
  cases hv : part? "version" d with
  | none => simp
  | some v =>
    rw [Checked.under_eq_ok, Checked.ofReason_eq_ok, readVersion_eq_ok_iff (decoded.version v hv)]
    simp

theorem checkedSites_eq_ok_iff {sites : List (Text × Record Text Value)} :
    (match part? "sites" d with
      | some v => (readEntries readRecord v).under (.name (Text.ofString "sites"))
      | none => .ok []) = .ok sites ↔
    (∀ v, part? "sites" d = some v → IsMapping v ∧ ∀ e ∈ entriesOf v, IsMapping e.2) ∧
      sites = recordsIn d := by
  cases hv : part? "sites" d with
  | none =>
    have hnone : recordsIn d = [] := by rw [recordsIn, sitesIn, hv]; rfl
    simp [hnone, eq_comm]
  | some v =>
    rw [Checked.under_eq_ok, readSites_eq_ok_iff decoded hv]
    simp

omit decoded in
theorem checkedOthers_eq_ok_iff (entries : List (Value × Value)) :
    (match entries.flatMap unknownPart with
      | [] => Except.ok ()
      | issues => .error issues : Checked Unit) = .ok () ↔
    ∀ e ∈ entries,
      e.1.content = Value.ofString "version" ∨ e.1.content = Value.ofString "sites" := by
  simp only [← unknownPart_eq_nil_iff, ← List.flatMap_eq_nil_iff]
  cases entries.flatMap unknownPart <;> simp

theorem readParts_eq_ok_iff {sites : List (Text × Record Text Value)} :
    readParts (entriesOf d) = .ok sites ↔ HasKnownParts d ∧ sites = recordsIn d := by
  have hversion := checkedVersion_eq_ok_iff decoded
  have hothers := checkedOthers_eq_ok_iff (entriesOf d)
  unfold readParts
  rw [Checked.map_eq_ok]
  simp only [Checked.both_eq_ok]
  constructor
  · intro ⟨parts, ⟨hone, hsites, hrest⟩, heq⟩
    obtain ⟨hmappings, hrecords⟩ := (checkedSites_eq_ok_iff decoded).1 hsites
    rw [heq] at hrecords
    exact ⟨⟨hothers.1 hrest, hversion.1 hone, hmappings⟩, hrecords⟩
  · intro ⟨hknown, hrecords⟩
    refine ⟨((), sites, ()), ⟨hversion.2 hknown.version, ?_, hothers.2 hknown.others⟩, rfl⟩
    exact (checkedSites_eq_ok_iff decoded).2 ⟨hknown.sites, hrecords⟩

omit decoded in
/-- The names of known parts have no surrogates. -/
theorem HasKnownParts.any_hasSurrogateName (h : HasKnownParts d) :
    (entriesOf d).any hasSurrogateName = false := by
  rw [List.any_eq_false]
  intro e he
  rcases h.others e he with hname | hname
  · rw [hasSurrogateName, hname]
    decide
  · rw [hasSurrogateName, hname]
    decide

theorem nodup_recordsIn : ((recordsIn d).map Prod.fst).Nodup := by
  rw [recordsIn, List.map_map, sitesIn]
  cases hv : part? "sites" d with
  | none => exact List.nodup_nil
  | some v => exact (decoded.sites v hv).distinct

theorem entries_ofList_recordsIn : (OrderedMap.ofList (recordsIn d)).entries = recordsIn d := by
  have hdistinct := nodup_recordsIn decoded
  refine OrderedMap.entries_ofList ((List.pairwise_map.1 hdistinct).imp fun hne => ?_)
  exact beq_false_of_ne hne

/-- A document is read exactly if it meets the schema, and then gives its records in its order. -/
theorem read_eq_ok_iff {s : Sites} :
    read d = .ok s ↔ MeetsSchema d ∧ s = .ofRecords (recordsIn d) := by
  unfold read MeetsSchema
  split
  · next hnull =>
    have hnone : recordsIn d = [] := by
      simp only [recordsIn, sitesIn, part?, entriesOf, hnull]
      rfl
    rw [hnone, Except.ok.injEq, eq_comm]
    exact (and_iff_right (.inl hnull)).symm
  · next entries hmap =>
    have hentries : entries = entriesOf d := by rw [entriesOf, hmap]
    have hmeets : (d.content = .null ∨ IsMapping d ∧ HasKnownParts d) ↔ HasKnownParts d := by
      simp [IsMapping, hmap]
    rw [hmeets, hentries]
    split
    · next hsurrogate =>
      constructor
      · intro h
        cases h
      · intro h
        rw [h.1.any_hasSurrogateName] at hsurrogate
        cases hsurrogate
    · rw [Checked.map_eq_ok]
      simp only [readParts_eq_ok_iff decoded, and_assoc, exists_and_left, exists_eq_left,
        entries_ofList_recordsIn decoded]
      rw [eq_comm]
  · next hnull hmap =>
    constructor
    · intro h
      cases h
    · intro ⟨h, _⟩
      rcases h with h | ⟨⟨entries, h⟩, _⟩
      · exact absurd h hnull
      · exact absurd h (hmap entries)

end Parts

/-! ## The document of what has been read -/

/-- Mappings are alike if each of their values is alike. -/
theorem mapping_alike {α : Type} {entries : List (Text × α)} {f g : α → Value}
    (h : ∀ e ∈ entries, (f e.2).Alike (g e.2)) :
    (mapping (entries.map fun e => (e.1, f e.2))).Alike
      (mapping (entries.map fun e => (e.1, g e.2))) := by
  intro n
  cases n with
  | zero => rfl
  | succ n =>
    have hview : ∀ f : α → Value,
        Value.view (n + 1) [] (mapping (entries.map fun e => (e.1, f e.2))) =
          .map (entries.map fun e => (.text e.1, Value.view n [] (f e.2))) := by
      intro f
      rw [mapping, Value.view_of_isBare rfl, Value.mapHeld, List.map_map, List.map_map]
      rfl
    rw [hview, hview]
    refine congrArg Value.map (List.map_congr_left fun e he => ?_)
    rw [h e he n]

/-- The documents of records are alike if what becomes of each setting is. -/
theorem ofSites_alike {f g : Value → Value} {sites : List (Text × Record Text Value)}
    (h : ∀ site ∈ sites, ∀ e ∈ site.2.entries, (f e.2).Alike (g e.2)) :
    (ofSites f sites).Alike (ofSites g sites) := by
  let row (f : Value → Value) (r : Record Text Value) : Value :=
    mapping (r.entries.map fun e => (e.1, f e.2))
  let rows (f : Value → Value) : Value := mapping (sites.map fun site => (site.1, row f site.2))
  have hrows : (rows f).Alike (rows g) :=
    mapping_alike (f := row f) (g := row g) fun site hsite => mapping_alike (h site hsite)
  let parts : List (Text × Value × Value) :=
    [(Text.ofString "version", .int version, .int version),
      (Text.ofString "sites", rows f, rows g)]
  have hparts : ∀ part ∈ parts, part.2.1.Alike part.2.2 := by
    intro part hpart
    rw [List.mem_cons, List.mem_singleton] at hpart
    rcases hpart with rfl | rfl
    · exact fun _ => rfl
    · exact hrows
  exact mapping_alike (f := Prod.fst) (g := Prod.snd) hparts

/-- The document of a store of records has the records in their order. -/
theorem ofStore_ofRecords {sites : List (Text × Record Text Value)}
    (distinct : (sites.map Prod.fst).Nodup) :
    ofStore (.ofRecords sites) false = ofSites Value.rebuild sites := by
  rw [ofStore_eq_ofSites]
  exact congrArg (ofSites Value.rebuild) (Store.written_ofRecords distinct)

theorem ofSites_mapRecord (f g : Value → Value) (sites : List (Text × Record Text Value)) :
    ofSites f (sites.map fun site => (site.1, mapRecord g site.2)) =
      ofSites (fun v => f (g v)) sites := by
  simp only [ofSites, mapRecord, List.map_map, Function.comp_def]

theorem canonical_eq_ofSites {d : Value} (decoded : Decoded d) :
    canonical d = ofSites id (recordsIn d) := by
  have hrows : ((sitesIn d).map fun site => (site.1, mapping (named site.2))) =
      (recordsIn d).map fun site =>
        (site.1, mapping (site.2.entries.map fun e => (e.1, id e.2))) := by
    rw [recordsIn, List.map_map]
    refine List.map_congr_left fun site hsite => ?_
    rw [Function.comp, entries_recordOf (decoded.records site hsite)]
    exact congrArg (fun entries => (site.1, mapping entries)) (List.map_id' _).symm
  rw [canonical, hrows]
  rfl

/-- The settings that are read are those of the document. -/
theorem forall_mem_recordsIn {d : Value} (decoded : Decoded d) {P : Value → Prop}
    (h : ∀ site ∈ sitesIn d, ∀ setting ∈ named site.2, P setting.2) :
    ∀ site ∈ recordsIn d, ∀ e ∈ site.2.entries, P e.2 := by
  intro site hsite
  obtain ⟨row, hrow, rfl⟩ := List.mem_map.1 hsite
  show ∀ e ∈ (recordOf row.2).entries, P e.2
  rw [entries_recordOf (decoded.records row hrow)]
  exact h row hrow

theorem ofSites_congr {f g : Value → Value} {sites : List (Text × Record Text Value)}
    (h : ∀ site ∈ sites, ∀ e ∈ site.2.entries, f e.2 = g e.2) :
    ofSites f sites = ofSites g sites := by
  have hrow : ∀ site ∈ sites, (site.1, mapping (site.2.entries.map fun e => (e.1, f e.2))) =
      (site.1, mapping (site.2.entries.map fun e => (e.1, g e.2))) := by
    intro site hsite
    have hentry : ∀ e ∈ site.2.entries, (e.1, f e.2) = (e.1, g e.2) := by
      intro e he
      rw [h site hsite e he]
    rw [List.map_congr_left hentry]
  rw [ofSites, List.map_congr_left hrow, ofSites]

/-- The stack suffices for copying each setting of a document. -/
def IsCopied (stack : Stack) (d : Value) : Prop :=
  ∀ site ∈ sitesIn d, ∀ setting ∈ named site.2, stack.copies setting.2 = true

theorem canCopy_ofRecords_iff {stack : Stack} {sites : List (Text × Record Text Value)}
    (distinct : (sites.map Prod.fst).Nodup) : canCopy stack (.ofRecords sites) = true ↔
      ∀ site ∈ sites, ∀ e ∈ site.2.entries, stack.copies e.2 = true := by
  simp only [canCopy, List.all_eq_true]
  constructor
  · intro h site hsite e he
    have hget := (Store.get?_ofRecords distinct).2 hsite
    rw [Store.get?, Option.map_eq_some_iff] at hget
    obtain ⟨entry, hentry, hrecord⟩ := hget
    rw [← hrecord] at he
    exact h (site.1, entry) (OrderedMap.mem_entries_iff.2 hentry) e he
  · rintro h ⟨pattern, entry⟩ hentry e he
    have hget : Store.get? (.ofRecords sites) pattern = some entry.record := by
      rw [Store.get?, OrderedMap.mem_entries_iff.1 hentry, Option.map_some]
    exact h (pattern, entry.record) ((Store.get?_ofRecords distinct).1 hget) e he

/-- The store of a document can be copied exactly if the settings of the document can. -/
theorem canCopy_recordsIn_iff {stack : Stack} {d : Value} (decoded : Decoded d) :
    canCopy stack (.ofRecords (recordsIn d)) = true ↔ IsCopied stack d := by
  rw [canCopy_ofRecords_iff (nodup_recordsIn decoded)]
  constructor
  · intro h site hsite setting hsetting
    refine h (site.1, recordOf site.2) (List.mem_map_of_mem hsite) setting ?_
    rwa [entries_recordOf (decoded.records site hsite)]
  · exact forall_mem_recordsIn (P := fun v => stack.copies v = true) decoded

/-- What has been read is built if it can be copied. -/
theorem build_of_read {stack : Stack} {d : Value} {s : Sites} (h : read d = .ok s) :
    build stack d = if canCopy stack s then .ok s else .error .exhausted := by
  rw [build, h]

/-- A store is built exactly if the document meets the schema and the settings can be copied. -/
theorem build_eq_ok_iff {stack : Stack} {d : Value} (decoded : Decoded d) {s : Sites} :
    build stack d = .ok s ↔ (MeetsSchema d ∧ IsCopied stack d) ∧ s = .ofRecords (recordsIn d) := by
  unfold build
  cases hread : read d with
  | error issues =>
    refine iff_of_false nofun fun h => ?_
    rw [(read_eq_ok_iff decoded).2 ⟨h.1.1, h.2⟩] at hread
    cases hread
  | ok found =>
    obtain ⟨hmeets, rfl⟩ := (read_eq_ok_iff decoded).1 hread
    rw [and_iff_right hmeets, ← canCopy_recordsIn_iff decoded]
    dsimp only
    split
    · next hcopy => rw [and_iff_right hcopy, Except.ok.injEq, eq_comm]
    · next hdeep => exact iff_of_false nofun fun h => hdeep h.1

/-- A document fails to be built for one of two reasons. -/
theorem build_eq_error {stack : Stack} {d : Value} (decoded : Decoded d) {e : BuildError}
    (h : build stack d = .error e) :
    (¬MeetsSchema d ∧ ∃ issues, e = .invalid issues) ∨ (MeetsSchema d ∧ e = .exhausted) := by
  unfold build at h
  cases hread : read d with
  | error issues =>
    rw [hread] at h
    cases h
    refine .inl ⟨fun hmeets => ?_, issues, rfl⟩
    rw [(read_eq_ok_iff decoded).2 ⟨hmeets, rfl⟩] at hread
    cases hread
  | ok found =>
    rw [hread] at h
    dsimp only at h
    split at h
    · cases h
    · cases h
      exact .inr ⟨((read_eq_ok_iff decoded).1 hread).1, rfl⟩

/-- The document of a store that has been read is read, each setting being rebuilt. -/
theorem read_ofStore_ofRecords {d : Value} (decoded : Decoded d) :
    read (ofStore (.ofRecords (recordsIn d)) false) = .ok (.ofRecords
      ((recordsIn d).map fun site => (site.1, mapRecord Value.rebuild site.2))) := by
  have hdistinct := nodup_recordsIn decoded
  rw [ofStore_ofRecords hdistinct]
  exact read_ofSites Value.rebuild hdistinct

/-- The document of a store that has been read is read, and its document is the same once more. -/
theorem exists_read_ofStore {d : Value} (decoded : Decoded d) {s : Sites}
    (h : s = .ofRecords (recordsIn d)) :
    ∃ s', read (ofStore s false) = .ok s' ∧ (ofStore s' false).Alike (ofStore s false) := by
  have hdistinct := nodup_recordsIn decoded
  have hclosed :=
    forall_mem_recordsIn (P := fun v => v.isClosedIn [] = true) decoded decoded.settings
  subst h
  refine ⟨_, read_ofStore_ofRecords decoded, ?_⟩
  -- what has been rebuilt is rebuilt once more
  have hnodup : (((recordsIn d).map fun site => (site.1, mapRecord Value.rebuild site.2)).map
      Prod.fst).Nodup := by
    rw [List.map_map]
    exact hdistinct
  rw [ofStore_ofRecords hnodup, ofSites_mapRecord, ofStore_ofRecords hdistinct]
  exact ofSites_alike fun site hsite e he =>
    Value.rebuild_alike (Value.isClosedIn_rebuild (hclosed site hsite e he))

/-- The document of a store that has been read says the same as the one that was read. -/
theorem ofStore_alike {d : Value} (decoded : Decoded d) {s : Sites}
    (h : s = .ofRecords (recordsIn d)) : (ofStore s false).Alike (canonical d) := by
  have hclosed :=
    forall_mem_recordsIn (P := fun v => v.isClosedIn [] = true) decoded decoded.settings
  rw [h, ofStore_ofRecords (nodup_recordsIn decoded), canonical_eq_ofSites decoded]
  exact ofSites_alike fun site hsite e he => Value.rebuild_alike (hclosed site hsite e he)

/-- Settings that are trees are written out as they are. -/
theorem ofStore_of_isTree {d : Value} (decoded : Decoded d)
    (trees : ∀ site ∈ sitesIn d, ∀ setting ∈ named site.2, setting.2.isTree = true) :
    ofStore (.ofRecords (recordsIn d)) false = ofSites id (recordsIn d) := by
  have htrees := forall_mem_recordsIn (P := fun v => v.isTree = true) decoded trees
  rw [ofStore_ofRecords (nodup_recordsIn decoded)]
  exact ofSites_congr fun site hsite e he => Value.rebuild_of_isTree (htrees site hsite e he)

/-- A document whose settings are trees is written out as it is. -/
theorem ofStore_eq_canonical {d : Value} (decoded : Decoded d)
    (trees : ∀ site ∈ sitesIn d, ∀ setting ∈ named site.2, setting.2.isTree = true) {s : Sites}
    (hread : read d = .ok s) : ofStore s false = canonical d := by
  obtain ⟨-, rfl⟩ := (read_eq_ok_iff decoded).1 hread
  rw [ofStore_of_isTree decoded trees, canonical_eq_ofSites decoded]

/-- If the settings are trees, the document of a store that has been read gives the same store. -/
theorem read_ofStore_of_isTree {d : Value} (decoded : Decoded d)
    (trees : ∀ site ∈ sitesIn d, ∀ setting ∈ named site.2, setting.2.isTree = true) {s : Sites}
    (h : s = .ofRecords (recordsIn d)) : read (ofStore s false) = .ok s := by
  have hsame : ((recordsIn d).map fun site => (site.1, mapRecord id site.2)) = recordsIn d := by
    refine (List.map_congr_left fun site _ => ?_).trans (List.map_id' _)
    exact congrArg (Prod.mk site.1) (mapRecord_eq_self fun _ _ _ => rfl)
  rw [h, ofStore_of_isTree decoded trees, read_ofSites id (nodup_recordsIn decoded), hsame]

/-- A store is built from a document exactly if the document meets the schema and the stack suffices
for copying its settings. Otherwise there are issues with the document, or the stack is exhausted.
The document of the store that results has the patterns and settings of the one it was built from,
in the same order. It is read in turn, and the document of what is read is the same once more. A
store is built from it if the new settings can be copied, which is always so, and gives the same
store, where the settings are trees. -/
theorem build_meetsSchema {d : Value} (decoded : Decoded d) (stack : Stack) :
    (MeetsSchema d → IsCopied stack d → ∃ s, build stack d = .ok s) ∧
    (MeetsSchema d → ¬IsCopied stack d → build stack d = .error .exhausted) ∧
    (¬MeetsSchema d → ∃ issues, build stack d = .error (.invalid issues)) ∧
    ∀ s, build stack d = .ok s → canCopy stack s = true ∧ (ofStore s false).Alike (canonical d) ∧
      (∃ s', read (ofStore s false) = .ok s' ∧ (ofStore s' false).Alike (ofStore s false) ∧
        build stack (ofStore s false) =
          if canCopy stack s' then .ok s' else .error .exhausted) ∧
      ((∀ site ∈ sitesIn d, ∀ setting ∈ named site.2, setting.2.isTree = true) →
        build stack (ofStore s false) = .ok s) := by
  refine ⟨fun hmeets hcopied => ?_, fun hmeets hdeep => ?_, fun hno => ?_, fun s hbuild => ?_⟩
  · exact ⟨_, (build_eq_ok_iff decoded).2 ⟨⟨hmeets, hcopied⟩, rfl⟩⟩
  · cases hbuild : build stack d with
    | ok s => exact absurd ((build_eq_ok_iff decoded).1 hbuild).1.2 hdeep
    | error e =>
      rcases build_eq_error decoded hbuild with ⟨hno, -⟩ | ⟨-, rfl⟩
      · exact absurd hmeets hno
      · rfl
  · cases hbuild : build stack d with
    | ok s => exact absurd ((build_eq_ok_iff decoded).1 hbuild).1.1 hno
    | error e =>
      rcases build_eq_error decoded hbuild with ⟨-, issues, rfl⟩ | ⟨hmeets, -⟩
      · exact ⟨issues, rfl⟩
      · exact absurd hmeets hno
  · obtain ⟨⟨-, hcopied⟩, hs⟩ := (build_eq_ok_iff decoded).1 hbuild
    have hcopy : canCopy stack s = true := by rwa [hs, canCopy_recordsIn_iff decoded]
    obtain ⟨s', hread, halike⟩ := exists_read_ofStore decoded hs
    refine ⟨hcopy, ofStore_alike decoded hs, ⟨s', hread, halike, build_of_read hread⟩,
      fun htrees => ?_⟩
    rw [build_of_read (read_ofStore_of_isTree decoded htrees hs), if_pos hcopy]

/-- Of the values that are empty only null counts as a document without parts. -/
example : read (.list []) = .error [⟨[], .notAnInstance "StoreDocument"⟩] := rfl

/-- A document with one setting. -/
def withSetting (setting : Value) : Value :=
  mapping [(Text.ofString "sites", mapping [(Text.ofString "http://a",
    mapping [(Text.ofString "zoom", setting)])]), (Text.ofString "version", .bool true)]

theorem sitesIn_withSetting (setting : Value) : ∃ settings,
    sitesIn (withSetting setting) = [(Text.ofString "http://a", mapping settings)] ∧
      (settings.map Prod.fst).Nodup ∧ settings.map Prod.snd = [setting] :=
  ⟨_, rfl, List.nodup_singleton _, rfl⟩

theorem forall_setting_withSetting_iff {setting : Value} {P : Value → Prop} :
    (∀ site ∈ sitesIn (withSetting setting), ∀ e ∈ named site.2, P e.2) ↔ P setting := by
  obtain ⟨settings, hsites, -, hsettings⟩ := sitesIn_withSetting setting
  rw [hsites, List.forall_mem_singleton, named_mapping, ← List.forall_mem_map (f := Prod.snd),
    hsettings, List.forall_mem_singleton]

theorem decoded_withSetting {setting : Value} (closed : setting.isClosedIn [] = true) :
    Decoded (withSetting setting) := by
  obtain ⟨settings, hsites, hdistinct, -⟩ := sitesIn_withSetting setting
  have hversion : part? "version" (withSetting setting) = some (.bool true) := rfl
  have hpart : ∃ rows, part? "sites" (withSetting setting) = some (mapping rows) ∧
      (rows.map Prod.fst).Nodup := ⟨_, rfl, List.nodup_singleton _⟩
  obtain ⟨rows, hrows, hnames⟩ := hpart
  refine ⟨fun v hv => ?_, fun v hv => ?_, fun site h => ?_,
    forall_setting_withSetting_iff (P := fun v => v.isClosedIn [] = true).2 closed⟩
  · cases hversion.symm.trans hv
    rfl
  · cases hrows.symm.trans hv
    exact hasNames_mapping hnames
  · rw [hsites, List.mem_singleton] at h
    rw [h]
    exact hasNames_mapping hdistinct

theorem meetsSchema_withSetting {setting : Value} (closed : setting.isClosedIn [] = true) :
    MeetsSchema (withSetting setting) := by
  obtain ⟨s, hread⟩ : ∃ s, read (withSetting setting) = .ok s := ⟨_, rfl⟩
  exact ((read_eq_ok_iff (decoded_withSetting closed)).1 hread).1

/-- A list that stands in itself. -/
def loop : Value := .shared ⟨1, 1⟩ (.list [.cycle ⟨1, 1⟩])

/-- A document with a list that stands in itself is read, and what results from it is the same list
in itself. -/
theorem build_meetsSchema_loop : Decoded (withSetting loop) ∧ MeetsSchema (withSetting loop) ∧
    IsCopied .usual (withSetting loop) ∧ ∃ s, build .usual (withSetting loop) = .ok s ∧
      (ofStore s false).Alike (canonical (withSetting loop)) ∧
      ∃ s', build .usual (ofStore s false) = .ok s' ∧
        (ofStore s' false).Alike (ofStore s false) := by
  have decoded : Decoded (withSetting loop) := decoded_withSetting rfl
  have hmeets : MeetsSchema (withSetting loop) := meetsSchema_withSetting rfl
  have hcopied : IsCopied .usual (withSetting loop) :=
    forall_setting_withSetting_iff (P := fun v => Stack.usual.copies v = true).2 rfl
  obtain ⟨hbuilds, -, -, hdocument⟩ := build_meetsSchema decoded .usual
  obtain ⟨s, hbuild⟩ := hbuilds hmeets hcopied
  obtain ⟨-, halike, ⟨s', hread, halike', hbuild'⟩, -⟩ := hdocument s hbuild
  have hcopy : canCopy .usual s' = true := by
    obtain ⟨-, rfl⟩ := (build_eq_ok_iff decoded).1 hbuild
    cases hread.symm.trans (read_ofStore_ofRecords decoded)
    rfl
  rw [if_pos hcopy] at hbuild'
  exact ⟨decoded, hmeets, hcopied, s, hbuild, halike, s', hbuild', halike'⟩

/-- Lists inside one another. -/
def nest : Nat → Value
  | 0 => .list []
  | n + 1 => .list [nest n]

theorem depth_nest (n : Nat) : (nest n).depth = n + 1 := by
  induction n with
  | zero => rfl
  | succ n ih => rw [nest, Value.depth, Value.depthOfAll, Value.depthOfAll, ih, Nat.max_zero]

theorem isClosedIn_nest (n : Nat) : (nest n).isClosedIn [] = true := by
  induction n with
  | zero => rfl
  | succ n ih =>
    show ((nest n).isClosedIn [] && true) = true
    rw [ih, Bool.and_true]

theorem copies_usual_iff {v : Value} : Stack.usual.copies v = true ↔ v.depth ≤ 490 :=
  decide_eq_true_iff

/-- The usual stack does not suffice for copying a setting with many lists inside one another. -/
theorem build_nest {n : Nat} (h : 490 ≤ n) :
    build .usual (withSetting (nest n)) = .error .exhausted := by
  have decoded := decoded_withSetting (isClosedIn_nest n)
  refine (build_meetsSchema decoded .usual).2.1 (meetsSchema_withSetting (isClosedIn_nest n)) ?_
  intro hcopied
  have hdepth := copies_usual_iff.1
    ((forall_setting_withSetting_iff (P := fun v => Stack.usual.copies v = true)).1 hcopied)
  rw [depth_nest] at hdepth
  omega

/-- A document that meets the schema is not built, and there are no issues with it. -/
theorem not_build_nest : Decoded (withSetting (nest 519)) ∧ MeetsSchema (withSetting (nest 519)) ∧
    build .usual (withSetting (nest 519)) = .error .exhausted :=
  ⟨decoded_withSetting (isClosedIn_nest 519), meetsSchema_withSetting (isClosedIn_nest 519),
    build_nest (by decide)⟩

end SiteRules.Document
