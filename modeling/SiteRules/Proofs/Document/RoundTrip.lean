import SiteRules.Proofs.Document.File
import SiteRules.Proofs.Document.Schema
import SiteRules.Proofs.Json.RoundTrip
import SiteRules.Proofs.Store.Alike
import SiteRules.Proofs.Store.Equality
import SiteRules.Proofs.Value.Rebuild
import SiteRules.Proofs.Yaml.Reading
import SiteRules.Proofs.Yaml.RoundTrip

/-!
# Saving a store and loading it again

A file into which a store has been saved gives a store with the same patterns and keys, and of each
setting the image that is left when the rebuilt value has been written and read
(`Document.load_of_save`). So the store that is loaded is equal to the one that was saved exactly if
each setting is equal to that image. This is so for settings that both formats know
(`Document.Native`, `Document.beq_of_save_native`). It is not so for a mapping with a number as a
key, which is saved in JSON all the same and comes back with a text as the key
(`Document.not_beq_integerKey`).

A YAML file has to fit in addition (`Document.FitsYaml`): a text between single quotes holds no next
line, in one between double quotes that is indented past the width of a line no blank follows an
escape, and a key in front of a colon is narrow enough to be found. Without that the writer and the
reader of YAML do not agree, and the store comes back changed or not at all.
-/

namespace SiteRules

/-! ## Text files -/

theorem foldNewlines_eq_self {cs : List Char} (h : '\r' ∉ cs) : foldNewlines cs = cs := by
  induction cs with
  | nil => rfl
  | cons c cs ih =>
    obtain ⟨hc, hcs⟩ := not_or.1 (mt List.mem_cons.2 h)
    rw [foldNewlines, ih hcs]
    · rintro _ rfl
      exact absurd rfl hc
    · rintro rfl
      exact absurd rfl hc

/-- A text without carriage returns is read from its file as it is. -/
theorem FileTree.readText_of_read {t : FileTree} {p : Path} {text : Text} {content : List UInt8}
    (hencode : Utf8.encodeText text = .ok content) (hreturn : '\r' ∉ text.chars)
    (hread : t.read p = .ok content) : t.readText p = .ok text.chars := by
  obtain ⟨-, rfl⟩ := Utf8.encodeText_eq_ok_iff.1 hencode
  rw [readText, hread]
  dsimp only
  rw [Utf8.decode_encode]
  exact congrArg Except.ok (foldNewlines_eq_self hreturn)

/-! ## Images of mappings -/

/-- A mapping from distinct texts is what its entries give one after the other. -/
theorem Value.ofEntries_named {entries : List (Text × Value)}
    (distinct : (entries.map Prod.fst).Nodup) :
    Value.ofEntries (entries.map fun e => (.text e.1, e.2)) = Document.mapping entries := by
  have hkeys : (entries.map fun e => (Value.text e.1, e.2)).Pairwise
      fun a b => (a.1 == b.1) = false := by
    refine List.pairwise_map.2 ((List.pairwise_map.1 distinct).imp fun hne => ?_)
    exact decide_eq_false hne
  exact congrArg Value.map (OrderedMap.entries_ofList hkeys)

theorem nodup_changed {α β : Type} {entries : List (Text × α)} (h : (entries.map Prod.fst).Nodup)
    (f : α → β) : ((entries.map fun e => (e.1, f e.2)).map Prod.fst).Nodup := by
  rw [List.map_map]
  exact h

/-- The image of a mapping with distinct texts as keys has the images of its values. -/
theorem Yaml.image_mapping {entries : List (Text × Value)}
    (distinct : (entries.map Prod.fst).Nodup) : image (Document.mapping entries) =
      Document.mapping (entries.map fun e => (e.1, image e.2)) := by
  rw [← Value.ofEntries_named (nodup_changed distinct image), Document.mapping, image,
    imageEntries_eq_map, List.map_map, List.map_map]
  rfl

namespace Json

/-- The image of a mapping with distinct texts as keys has the images of its values. -/
theorem image_mapping {entries : List (Text × Value)} (distinct : (entries.map Prod.fst).Nodup) :
    image (Document.mapping entries) =
      Document.mapping (entries.map fun e => (e.1, image e.2)) := by
  rw [← Value.ofEntries_named (nodup_changed distinct image), Document.mapping, image,
    imageEntries_eq_map, List.map_map, List.map_map]
  rfl

end Json

namespace Document

variable {stack : Stack} {t t' : FileTree} {p : Path} {s : Sites} {ranked : Bool}
  {writes : List Text}

/-! ## Images -/

/-- What a value is read as after it has been written in the format that the name of a file tells.
-/
def imageIn (p : Path) (v : Value) : Value :=
  if p.isJson then Json.image v else Yaml.image v

theorem imageIn_mapping {entries : List (Text × Value)} (h : (entries.map Prod.fst).Nodup) :
    imageIn p (mapping entries) = mapping (entries.map fun e => (e.1, imageIn p e.2)) := by
  unfold imageIn
  split
  · exact Json.image_mapping h
  · exact Yaml.image_mapping h

/-- The image of the document of records has the images of their settings. -/
theorem imageIn_ofSites (f : Value → Value) {sites : List (Text × Record Text Value)}
    (h : (sites.map Prod.fst).Nodup) :
    imageIn p (ofSites f sites) = ofSites (fun v => imageIn p (f v)) sites := by
  have hrecord : ∀ record : Record Text Value,
      imageIn p (mapping (record.entries.map fun e => (e.1, f e.2))) =
        mapping (record.entries.map fun e => (e.1, imageIn p (f e.2))) := by
    intro record
    rw [imageIn_mapping (nodup_changed record.nodup_keys f), List.map_map]
    rfl
  have hsites : imageIn p (mapping (sites.map fun site => (site.1,
      mapping (site.2.entries.map fun e => (e.1, f e.2))))) =
        mapping (sites.map fun site => (site.1,
          mapping (site.2.entries.map fun e => (e.1, imageIn p (f e.2))))) := by
    rw [imageIn_mapping (nodup_changed h fun r => mapping (r.entries.map fun e => (e.1, f e.2))),
      List.map_map]
    simp only [Function.comp_def, hrecord]
  have hparts : ∀ v w : Value, ([(Text.ofString "version", v), (Text.ofString "sites", w)].map
      Prod.fst).Nodup := by
    intro v w
    show [Text.ofString "version", Text.ofString "sites"].Nodup
    decide
  have hversion : imageIn p (.int version) = .int version := by
    unfold imageIn
    split <;> rfl
  rw [ofSites, imageIn_mapping (hparts _ _), List.map_cons, List.map_cons, hsites, hversion]
  rfl

/-! ## Values that both formats know -/

theorem imageIn_list (items : List Value) :
    imageIn p (.list items) = .list (items.map (imageIn p)) := by
  unfold imageIn
  split
  · exact congrArg Value.list (Json.imageAll_eq_map items)
  · exact congrArg Value.list (Yaml.imageAll_eq_map items)

/-- A value that both formats know: it is made of null, truth values, numbers, texts, lists, and
mappings with distinct texts as keys. -/
inductive Native : Value → Prop
  | null : Native .null
  | bool (b : Bool) : Native (.bool b)
  | int (n : Int) : Native (.int n)
  | infinite (negative : Bool) : Native (.float (.infinite negative))
  | finite (negative : Bool) {significand power : Nat}
      (format : Binary64.IsFormat significand power) (zero : significand = 0 → power = 0) :
      Native (.float (.finite negative significand power))
  | text (t : Text) : Native (.text t)
  | list {items : List Value} (native : ∀ v ∈ items, Native v) : Native (.list items)
  | mapping {entries : List (Text × Value)} (distinct : (entries.map Prod.fst).Nodup)
      (native : ∀ e ∈ entries, Native e.2) : Native (Document.mapping entries)

/-- What both formats know is read as it was written. -/
theorem Native.imageIn_eq {v : Value} (h : Native v) (p : Path) : imageIn p v = v := by
  induction h with
  | null | bool | int | infinite | text =>
    unfold imageIn
    split <;> rfl
  | finite negative format zero =>
    have hread := congrArg Value.float (Binary64.reread_of_isFormat format zero negative)
    unfold imageIn
    split
    · exact hread
    · exact hread
  | list _ ih =>
    rw [imageIn_list, List.map_congr_left ih, List.map_id']
  | mapping distinct _ ih =>
    have hentry := List.map_congr_left fun e he => congrArg (Prod.mk e.1) (ih e he)
    rw [imageIn_mapping distinct, hentry, List.map_id']

theorem Native.isTree {v : Value} (h : Native v) : v.isTree = true := by
  induction h with
  | null | bool | int | infinite | finite | text => rfl
  | list _ ih => exact Value.areTrees_iff.2 ih
  | mapping _ _ ih => exact Value.haveTrees_iff.2 (List.forall_mem_map.2 ih)

theorem loadable_mapping {owner : Mark → Value} {entries : List (Text × Value)}
    (h : ∀ e ∈ entries, Yaml.Loadable owner e.2) : Yaml.Loadable owner (mapping entries) :=
  .map (List.forall_mem_map.2 fun _ _ => rfl) (List.forall_mem_map.2 fun e _ => .text e.1)
    (List.forall_mem_map.2 h)

theorem Native.loadable {v : Value} (h : Native v) (owner : Mark → Value) :
    Yaml.Loadable owner v := by
  induction h with
  | null => exact .null
  | bool b => exact .bool b
  | int n => exact .int n
  | infinite => exact .float _
  | finite => exact .float _
  | text t => exact .text t
  | list _ ih => exact .list ih
  | mapping _ _ ih => exact loadable_mapping ih

/-! ## Documents with marks -/

/-- Records hold what a function gives of the settings of other ones, apart from marks. -/
def AreCopies (f : Value → Value) (sites' sites : List (Text × Record Text Value)) : Prop :=
  sites'.map (fun site => (site.1, mapRecord Value.unmarked site.2)) =
    sites.map fun site => (site.1, mapRecord (fun v => (f v).unmarked) site.2)

/-- A mapping with texts as keys that has been laid open has the same keys. -/
theorem exists_mapping_of_opens {levels : Nat} {w : Value} {entries : List (Text × Value)}
    (h : Yaml.Graph.Opens (levels + 1) w (mapping entries)) :
    ∃ entries', w = mapping entries' ∧ List.Forall₂ (fun e' e =>
      e'.1 = e.1 ∧ Yaml.Graph.Opens levels e'.2 e.2) entries' entries := by
  obtain ⟨opened, rfl, hall⟩ := h
  rw [List.forall₂_map_right_iff] at hall
  induction hall with
  | nil => exact ⟨[], rfl, .nil⟩
  | @cons e' e _ _ hentry _ ih =>
    obtain ⟨entries', heq, hall⟩ := ih
    refine ⟨(e.1, e'.2) :: entries', ?_, .cons ⟨rfl, hentry.2⟩ hall⟩
    have hkey : e'.1 = .text e.1 := hentry.1.eq rfl
    rw [Value.map.inj heq, mapping, List.map_cons, ← hkey]

theorem map_eq_of_forall₂ {α β γ : Type} {R : α → β → Prop} {f : α → γ} {g : β → γ}
    {as : List α} {bs : List β} (h : List.Forall₂ R as bs) (hR : ∀ a b, R a b → f a = g b) :
    as.map f = bs.map g := by
  induction h with
  | nil => rfl
  | cons hab _ ih => rw [List.map_cons, List.map_cons, hR _ _ hab, ih]

/-- A record that has been laid open. -/
theorem exists_record_of_opens {w : Value} (f : Value → Value) (r : Record Text Value)
    (h : Yaml.Graph.Opens 1 w (mapping (r.entries.map fun e => (e.1, f e.2)))) :
    ∃ r' : Record Text Value, w = mapping (r'.entries.map fun e => (e.1, id e.2)) ∧
      mapRecord Value.unmarked r' = mapRecord (fun v => (f v).unmarked) r := by
  obtain ⟨entries, rfl, hall⟩ := exists_mapping_of_opens h
  rw [List.forall₂_map_right_iff] at hall
  have hkeys : entries.map Prod.fst = r.entries.map Prod.fst :=
    map_eq_of_forall₂ hall fun _ _ hentry => hentry.1
  have hvalues : entries.map (fun e => (e.1, e.2.unmarked)) =
      r.entries.map fun e => (e.1, (f e.2).unmarked) :=
    map_eq_of_forall₂ hall fun _ _ hentry => Prod.ext hentry.1 hentry.2.unmarked
  have hdistinct : entries.Pairwise fun a b => (a.1 == b.1) = false := by
    have hnodup : (entries.map Prod.fst).Nodup := hkeys ▸ r.nodup_keys
    exact (List.pairwise_map.1 hnodup).imp fun hne => beq_false_of_ne hne
  exact ⟨⟨entries, hdistinct⟩, (congrArg mapping (List.map_id' entries)).symm,
    OrderedMap.ext_entries hvalues⟩

/-- A document that has been laid open is one of records with the same keys. -/
theorem exists_ofSites_of_opens {w : Value} {f : Value → Value}
    {sites : List (Text × Record Text Value)} (h : Yaml.Graph.Opens levels w (ofSites f sites)) :
    ∃ sites', w = ofSites id sites' ∧ AreCopies f sites' sites := by
  obtain ⟨parts, rfl, hparts⟩ := exists_mapping_of_opens h
  cases hparts with
  | @cons first _ _ _ hversion hparts =>
  cases hparts with
  | @cons second _ _ _ hsites hparts =>
  cases hparts with
  | nil =>
  have hfirst : first = (Text.ofString "version", .int version) :=
    Prod.ext hversion.1 (hversion.2.eq rfl)
  obtain ⟨rows, hrows, hall⟩ := exists_mapping_of_opens hsites.2
  rw [List.forall₂_map_right_iff] at hall
  have hsecond : second = (Text.ofString "sites", mapping rows) := Prod.ext hsites.1 hrows
  rw [hfirst, hsecond]
  have hrecords : ∃ sites', rows = sites'.map (fun site : Text × Record Text Value =>
      (site.1, mapping (site.2.entries.map fun e => (e.1, id e.2)))) ∧
      AreCopies f sites' sites := by
    clear hsites hrows hsecond h
    induction hall with
    | nil => exact ⟨[], rfl, rfl⟩
    | @cons row site _ _ hrow _ ih =>
      obtain ⟨sites', hrows, hcopies⟩ := ih
      obtain ⟨record, hrecord, hsame⟩ := exists_record_of_opens f site.2 hrow.2
      have hentry : row = (site.1, mapping (record.entries.map fun e => (e.1, id e.2))) :=
        Prod.ext hrow.1 hrecord
      refine ⟨(site.1, record) :: sites', by rw [hrows, hentry]; rfl, ?_⟩
      unfold AreCopies at hcopies ⊢
      rw [List.map_cons, List.map_cons, hcopies, hsame]
  obtain ⟨sites', hrows, hcopies⟩ := hrecords
  exact ⟨sites', by rw [hrows]; rfl, hcopies⟩

/-! ## What is loaded -/

/-- What YAML asks for the text of a store to be read back: the settings are values as a document
may give them, and the text of the document is not changed by the lines that it is broken into. -/
structure FitsYaml (s : Sites) (ranked : Bool) : Prop where
  settings : ∃ owner, ∀ pattern record, s.get? pattern = some record →
    ∀ key v, record.get? key = some v → Yaml.Loadable owner v
  layout : Yaml.Draft.Readable none .item (Yaml.Draft.ofValue (ofStore s ranked))

/-- Nothing but what is in a file keeps a store that was saved there from being loaded: the system
lets the path be looked up and read, and the stack suffices for the text and for copies of what the
settings are read as, whichever of their parts are one and the same. -/
structure CanLoad (stack : Stack) (t : FileTree) (p : Path) (s : Sites) : Prop where
  grants : t.Grants p
  reads : ∀ cs, t.readText p = .ok cs →
    (if p.isJson then stack.readsJson else stack.readsYaml) (Text.ofChars cs) = true
  copies : ∀ pattern record, s.get? pattern = some record → ∀ key v, record.get? key = some v →
    ∀ w : Value, w.unmarked = (imageIn p v.rebuild).unmarked → stack.copies w = true

/-- The document of settings that can be loaded can be loaded itself. -/
theorem loadable_ofStore {owner : Mark → Value} (ranked : Bool)
    (h : ∀ pattern record, s.get? pattern = some record →
      ∀ key v, record.get? key = some v → Yaml.Loadable owner v) :
    Yaml.Loadable owner (ofStore s ranked) := by
  refine loadable_mapping (List.forall_mem_cons.2 ⟨.int version, List.forall_mem_singleton.2 ?_⟩)
  refine loadable_mapping (List.forall_mem_map.2 fun site hsite => ?_)
  refine loadable_mapping (List.forall_mem_map.2 fun e he => ?_)
  exact (h site.1 site.2 (Store.mem_listed.1 hsite) e.1 e.2
    (OrderedMap.mem_entries_iff.1 he)).rebuild

theorem isFilled_ofStore (s : Sites) (ranked : Bool) : Yaml.IsFilled (ofStore s ranked) :=
  ⟨_, rfl, List.cons_ne_nil _ _⟩

/-- The text of a store that has been saved is in the file of its path. -/
theorem readText_of_save (h : save stack t p s ranked = (t', .ok ()))
    (fits : p.isJson = false → FitsYaml s ranked) (grants : t'.Grants p) :
    t'.has p = .ok true ∧ ∃ text, textFor stack p (ofStore s ranked) = .ok text ∧
      (∀ c ∈ text, c.isSurrogate = false) ∧ t'.readText p = .ok text.chars := by
  obtain ⟨text, content, l, hrender, hencode, hcheck, hlocate, hfile, -⟩ := save_eq_ok h
  have hwrite := (render_eq_ok_iff.1 hrender).2
  have hfind := FileTree.find_of_locate hlocate hfile
  have htext := (Utf8.encodeText_eq_ok_iff.1 hencode).1
  -- no carriage returns are written in either format
  have hreturn : '\r' ∉ text.chars := by
    rcases textFor_eq_ok hwrite with ⟨-, -, hjson⟩ | ⟨hyaml, -, cs, hcs, rfl⟩
    · exact Json.return_notMem_of_write hjson htext
    · obtain ⟨⟨owner, hsettings⟩, hlayout⟩ := fits hyaml
      rw [Text.chars_ofChars]
      exact Yaml.return_notMem_of_write (isFilled_ofStore s ranked)
        (loadable_ofStore ranked hsettings) hlayout hcs
  have hchars := FileTree.readText_of_read hencode hreturn
    (FileTree.read_of_find grants hcheck hfind)
  exact ⟨FileTree.has_of_find grants hcheck hfind, text, hwrite, htext, hchars⟩

/-- The file of a store that has been saved holds a document of the images of its settings. -/
theorem readValue_of_save (built : Store.Built s writes)
    (h : save stack t p s ranked = (t', .ok ())) (fits : p.isJson = false → FitsYaml s ranked)
    (can : CanLoad stack t' p s) :
    t'.has p = .ok true ∧ ∃ sites, t'.readValue stack levels p = .ok (ofSites id sites) ∧
      AreCopies (fun v => imageIn p v.rebuild) sites (s.listed ranked) := by
  obtain ⟨hhas, text, hwrite, htext, hchars⟩ := readText_of_save h fits can.grants
  have himage := imageIn_ofSites (p := p) Value.rebuild (built.tracks.nodup_listed ranked)
  rw [← ofStore_eq_ofSites] at himage
  have hreads := can.reads _ hchars
  refine ⟨hhas, ?_⟩
  unfold FileTree.readValue
  rw [hchars]
  dsimp only [bind, Except.bind]
  rcases textFor_eq_ok hwrite with ⟨hjson, -, htextJson⟩ | ⟨hyaml, -, cs, hcs, rfl⟩
  · rw [if_pos hjson] at hreads
    rw [imageIn, if_pos hjson] at himage
    refine ⟨(s.listed ranked).map fun site =>
      (site.1, mapRecord (fun v => imageIn p v.rebuild) site.2), ?_, ?_⟩
    · rw [if_pos hjson, Json.content, if_pos hreads, Json.read_of_write htextJson htext, himage,
        ofSites_mapRecord]
      rfl
    · rw [AreCopies, List.map_map]
      refine List.map_congr_left fun site _ => Prod.ext rfl (OrderedMap.ext_entries ?_)
      exact List.map_map
  · rw [if_neg (Bool.eq_false_iff.1 hyaml)] at hreads
    rw [imageIn, if_neg (Bool.eq_false_iff.1 hyaml)] at himage
    obtain ⟨⟨owner, hsettings⟩, hlayout⟩ := fits hyaml
    obtain ⟨w, hread, hopens⟩ := Yaml.read_of_write (isFilled_ofStore s ranked)
      (loadable_ofStore ranked hsettings) hlayout hcs levels
    rw [himage] at hopens
    obtain ⟨sites, rfl, hcopies⟩ := exists_ofSites_of_opens hopens
    refine ⟨sites, ?_, hcopies⟩
    rw [if_neg (Bool.eq_false_iff.1 hyaml), Yaml.content, if_pos hreads, Text.chars_ofChars,
      Yaml.readText_ofChars, hread]
    rfl

/-! ## When it is equal -/

theorem map_fst_of_areCopies {f : Value → Value} {sites' sites : List (Text × Record Text Value)}
    (h : AreCopies f sites' sites) : sites'.map Prod.fst = sites.map Prod.fst := by
  have hkeys := congrArg (List.map Prod.fst) h
  rwa [List.map_map, List.map_map] at hkeys

/-- Records with a change made to each setting are stored as the changed records. -/
theorem get?_ofRecords_changed {sites : List (Text × Record Text Value)}
    (distinct : (sites.map Prod.fst).Nodup) (f : Value → Value) (pattern : Text) :
    Store.get? (.ofRecords (sites.map fun site => (site.1, mapRecord f site.2))) pattern =
      (Store.get? (.ofRecords sites) pattern).map (mapRecord f) := by
  ext record
  rw [Store.get?_ofRecords (nodup_changed distinct (mapRecord f)), List.mem_map,
    Option.map_eq_some_iff]
  constructor
  · rintro ⟨site, hsite, heq⟩
    cases heq
    exact ⟨site.2, (Store.get?_ofRecords distinct).2 hsite, rfl⟩
  · rintro ⟨own, hown, rfl⟩
    exact ⟨(pattern, own), (Store.get?_ofRecords distinct).1 hown, rfl⟩

theorem get?_ofRecords_listed (built : Store.Built s writes) (ranked : Bool) (pattern : Text) :
    Store.get? (.ofRecords (s.listed ranked)) pattern = s.get? pattern := by
  ext record
  rw [Store.get?_ofRecords (built.tracks.nodup_listed ranked), Store.mem_listed]

/-- Something holds of the values in two places that give the same under two functions. -/
theorem rel_of_map_eq {α β γ : Type} {R : β → α → Prop} {Q : α → Prop} {f : β → γ} {g : α → γ}
    {x : Option β} {y : Option α} (h : x.map f = y.map g)
    (hR : ∀ b a, f b = g a → (R b a ↔ Q a)) : Option.Rel R x y ↔ ∀ a, y = some a → Q a := by
  cases x with
  | none =>
    cases y with
    | none => simp
    | some a => cases h
  | some b =>
    cases y with
    | none => cases h
    | some a => simp [hR b a (Option.some.inj h)]

/-- A store with copies of what has become of each setting is equal to the store before exactly if
each setting is equal to what has become of it. -/
theorem beq_copied_iff {loaded : Sites} {f : Value → Value}
    (hget : ∀ pattern, (loaded.get? pattern).map (mapRecord Value.unmarked) =
      (s.get? pattern).map (mapRecord fun v => (f v).unmarked)) :
    (loaded == s) = true ↔ ∀ pattern record, s.get? pattern = some record →
      ∀ key v, record.get? key = some v → (f v == v) = true := by
  rw [Store.beq_iff]
  -- pattern by pattern, and then key by key: where there is nothing, nothing is compared
  refine forall_congr' fun pattern => ?_
  rw [Store.SameAnswer]
  refine rel_of_map_eq (hget pattern) fun record' record hrecord => ?_
  rw [Record.same_iff]
  refine forall_congr' fun key => ?_
  have hkey := congrArg (fun r => r.get? key) hrecord
  rw [get?_mapRecord, get?_mapRecord] at hkey
  refine rel_of_map_eq hkey fun w v hv => ?_
  rw [← Value.unmarked_beq w v, hv, Value.unmarked_beq]

/-- A store that has been saved is loaded with the same patterns and keys and, apart from marks,
with the images of its settings. -/
theorem exists_load_of_save (built : Store.Built s writes)
    (h : save stack t p s ranked = (t', .ok ())) (fits : p.isJson = false → FitsYaml s ranked)
    (can : CanLoad stack t' p s) : ∃ loaded, load stack t' p = .ok loaded ∧
      ∀ pattern, (loaded.get? pattern).map (mapRecord Value.unmarked) =
        (s.get? pattern).map (mapRecord fun v => (imageIn p v.rebuild).unmarked) := by
  obtain ⟨hhas, sites, hvalue, hcopies⟩ := readValue_of_save built h fits can
  have distinct : (sites.map Prod.fst).Nodup :=
    map_fst_of_areCopies hcopies ▸ built.tracks.nodup_listed ranked
  have hget : ∀ pattern, (Store.get? (.ofRecords sites) pattern).map (mapRecord Value.unmarked) =
      (s.get? pattern).map (mapRecord fun v => (imageIn p v.rebuild).unmarked) := by
    intro pattern
    rw [← get?_ofRecords_changed distinct, hcopies,
      get?_ofRecords_changed (built.tracks.nodup_listed ranked), get?_ofRecords_listed built]
  have hcopied : canCopy stack (.ofRecords sites) = true := by
    refine (canCopy_ofRecords_iff distinct).2 fun site hsite e he => ?_
    have hown := hget site.1
    rw [(Store.get?_ofRecords distinct).2 hsite, eq_comm, Option.map_some,
      Option.map_eq_some_iff] at hown
    obtain ⟨record, hrecord, hsame⟩ := hown
    have hkey := congrArg (fun r => r.get? e.1) hsame
    rw [get?_mapRecord, get?_mapRecord, OrderedMap.mem_entries_iff.1 he, Option.map_some,
      Option.map_eq_some_iff] at hkey
    obtain ⟨v, hv, himage⟩ := hkey
    exact can.copies site.1 record hrecord e.1 v hv e.2 himage.symm
  have hid : sites.map (fun site => (site.1, mapRecord id site.2)) = sites :=
    (List.map_congr_left fun site _ => congrArg (Prod.mk site.1)
      (mapRecord_eq_self fun _ _ _ => rfl)).trans (List.map_id' sites)
  refine ⟨.ofRecords sites, ?_, hget⟩
  unfold load
  rw [hhas]
  dsimp only
  rw [hvalue]
  dsimp only
  rw [build, read_ofSites _ distinct, hid]
  dsimp only
  rw [if_pos hcopied]

/-- A store that has been saved is loaded with the same patterns and keys and, apart from marks,
with the images of its settings; a file that is not JSON asks for what YAML asks for. The store that
is loaded is equal to the store before exactly if each setting is equal to its image. -/
theorem load_of_save (built : Store.Built s writes) (h : save stack t p s ranked = (t', .ok ()))
    (fits : p.isJson = false → FitsYaml s ranked) (can : CanLoad stack t' p s) :
    ∃ loaded, load stack t' p = .ok loaded ∧
      (∀ pattern, (loaded.get? pattern).map (mapRecord Value.unmarked) =
        (s.get? pattern).map (mapRecord fun v => (imageIn p v.rebuild).unmarked)) ∧
      ((loaded == s) = true ↔ ∀ pattern record, s.get? pattern = some record →
        ∀ key v, record.get? key = some v → (imageIn p v.rebuild == v) = true) := by
  obtain ⟨loaded, hload, hget⟩ := exists_load_of_save built h fits can
  exact ⟨loaded, hload, hget, beq_copied_iff hget⟩

/-- A store of settings that both formats know is loaded as an equal store. -/
theorem beq_of_save_native (built : Store.Built s writes)
    (h : save stack t p s ranked = (t', .ok ()))
    (native : ∀ pattern record, s.get? pattern = some record →
      ∀ key v, record.get? key = some v → Native v)
    (layout : p.isJson = false →
      Yaml.Draft.Readable none .item (Yaml.Draft.ofValue (ofStore s ranked)))
    (can : CanLoad stack t' p s) :
    ∃ loaded, load stack t' p = .ok loaded ∧ (loaded == s) = true := by
  have fits : p.isJson = false → FitsYaml s ranked := fun hyaml =>
    ⟨⟨default, fun pattern record hrecord key v hv =>
      (native pattern record hrecord key v hv).loadable default⟩, layout hyaml⟩
  obtain ⟨loaded, hload, hget⟩ := exists_load_of_save built h fits can
  refine ⟨loaded, hload, (beq_copied_iff hget).2 fun pattern record hrecord key v hv => ?_⟩
  have hnative := native pattern record hrecord key v hv
  rw [Value.rebuild_of_isTree hnative.isTree, hnative.imageIn_eq]
  exact Value.same_self v

/-! ## A setting that comes back and one that does not -/

/-- The tree without files. -/
def noFiles : FileTree where
  nodes := .empty
  working := []

/-- The path of a JSON file. -/
def jsonPath : Path := ⟨0, [Text.ofString "s.json"]⟩

/-- The path of a YAML file. -/
def yamlPath : Path := ⟨0, [Text.ofString "s.yaml"]⟩

/-- The pattern of the only record. -/
def onlySite : Text := Text.ofString "http://a"

/-- The store with one setting. -/
def single (v : Value) : Sites :=
  Store.empty.merge onlySite (Text.ofString "zoom") v

theorem built_single (v : Value) : Store.Built (single v) [onlySite] :=
  .merge .empty _ _ _

theorem exists_single (v : Value) : ∃ record, (single v).get? onlySite = some record ∧
    record.get? (Text.ofString "zoom") = some v :=
  ⟨_, rfl, rfl⟩

/-- What holds of the only setting holds of all settings. -/
theorem forall_single {v : Value} {P : Value → Prop} (h : P v) : ∀ pattern record,
    (single v).get? pattern = some record → ∀ key w, record.get? key = some w → P w := by
  intro pattern record hrecord key w hw
  rw [single, Store.get?_merge] at hrecord
  split at hrecord
  · cases hrecord
    rw [OrderedMap.get?_insert] at hw
    split at hw
    · cases hw
      exact h
    · cases hw
  · cases hrecord

theorem save_eq_of_snd (stack : Stack) (t : FileTree) (p : Path) (s : Sites) (ranked : Bool)
    (h : (save stack t p s ranked).2 = .ok ()) :
    save stack t p s ranked = ((save stack t p s ranked).1, .ok ()) := by
  generalize save stack t p s ranked = result at h ⊢
  rw [← h]

/-- What has been saved in a tree in which nothing is refused can be loaded, if the stack suffices
for everything. -/
theorem canLoad_of_save (hnone : ∀ nodes operation p, t.refusal? nodes operation p = none)
    (h : save .boundless t p s ranked = (t', .ok ())) : CanLoad .boundless t' p s := by
  have hrefusal := refusal?_of_save h
  refine ⟨⟨?_, ?_⟩, fun cs _ => ?_, fun _ _ _ _ _ _ _ _ => rfl⟩
  · rw [hrefusal]
    exact hnone _ _ _
  · rw [hrefusal]
    exact hnone _ _ _
  · split <;> rfl

/-- A mapping with lists and mappings in it, as both formats know it. -/
def nested : Value :=
  mapping [(Text.ofString "x", .list [.int 1, .null, .list [], Value.ofString "no: 1"]),
    (Text.ofString "y", mapping [(Text.ofString "1", .bool true)])]

/-- A mapping with a number as its key. -/
def integerKey : Value :=
  .map [(.int 1, Value.ofString "x")]

/-- A setting with lists and mappings in it comes back as it was, in either format. -/
theorem load_of_save_nested :
    Store.Built (single nested) [onlySite] ∧ FitsYaml (single nested) true ∧
      ∀ p ∈ [jsonPath, yamlPath],
        ∃ tree, save .boundless noFiles p (single nested) true = (tree, .ok ()) ∧
          CanLoad .boundless tree p (single nested) ∧
          ∃ loaded, load .boundless tree p = .ok loaded ∧ (loaded == single nested) = true := by
  have hlist : Yaml.Loadable default (.list [.int 1, .null, .list [], Value.ofString "no: 1"]) :=
    .list (List.forall_mem_cons.2 ⟨.int 1, List.forall_mem_cons.2 ⟨.null, List.forall_mem_cons.2
      ⟨.list (List.forall_mem_nil _), List.forall_mem_singleton.2 (.text _)⟩⟩⟩)
  have hsettings : Yaml.Loadable default nested :=
    loadable_mapping (List.forall_mem_cons.2 ⟨hlist, List.forall_mem_singleton.2
      (loadable_mapping (List.forall_mem_singleton.2 (.bool true)))⟩)
  have fits : FitsYaml (single nested) true :=
    ⟨⟨default, forall_single hsettings⟩, by decide +kernel⟩
  refine ⟨built_single nested, fits, fun p hp => ?_⟩
  have hcases : (save .boundless noFiles p (single nested) true).2 = .ok () ∧
      (imageIn p nested.rebuild == nested) = true := by
    rcases List.mem_pair.1 hp with rfl | rfl <;> decide +kernel
  have hsave := save_eq_of_snd .boundless noFiles p (single nested) true hcases.1
  have can := canLoad_of_save (fun _ _ _ => rfl) hsave
  obtain ⟨loaded, hload, -, hequal⟩ :=
    load_of_save (built_single nested) hsave (fun _ => fits) can
  exact ⟨_, hsave, can, loaded, hload, hequal.2 (forall_single hcases.2)⟩

/-- A mapping with a number as its key comes back with a text as its key. -/
theorem not_beq_integerKey :
    Store.Built (single integerKey) [onlySite] ∧ jsonPath.isJson = true ∧
      ∃ tree, save .boundless noFiles jsonPath (single integerKey) false = (tree, .ok ()) ∧
        ∃ loaded, load .boundless tree jsonPath = .ok loaded ∧
          (loaded == single integerKey) = false := by
  have hsave := save_eq_of_snd .boundless noFiles jsonPath (single integerKey) false
    (by decide +kernel)
  have can := canLoad_of_save (fun _ _ _ => rfl) hsave
  obtain ⟨loaded, hload, hget⟩ := exists_load_of_save (built_single integerKey) hsave
    (by rintro ⟨⟩) can
  refine ⟨built_single integerKey, by decide, _, hsave, loaded, hload, ?_⟩
  have hbecomes : ¬(imageIn jsonPath integerKey.rebuild == integerKey) = true := by
    decide +kernel
  obtain ⟨record, hrecord, hsetting⟩ := exists_single integerKey
  exact Bool.eq_false_iff.2 fun hequal =>
    hbecomes ((beq_copied_iff hget).1 hequal onlySite record hrecord _ integerKey hsetting)

end Document

end SiteRules
