import SiteRules.Proofs.Document.File
import SiteRules.Proofs.Json.Form
import SiteRules.Proofs.Path
import SiteRules.Proofs.Store.Ranking

/-!
# How saving a store fails

A store whose settings have no cycles fits a path if the system can be given the path, the format
that its name tells can hold what is in the store, and the stack suffices (`Document.Fits`). A store
that fits is saved, or the system refuses to write the file, and then no file changes, or the device
fails while the file is written, which keeps the beginning of the text. One that does not fit is
never saved: the system refuses it for other reasons, or the failure is not reported as one of the
file (`Document.GoesAstray`). Of these failures only one changes a file: a text of the store holds a
surrogate, and the file, in JSON, has been emptied when this shows (`Document.save_outcome`).
-/

namespace SiteRules.Document

variable {stack : Stack} {s : Sites} {p : Path} {ranked : Bool}

/-! ## What is in a store -/

/-- A setting of a store, with the pattern and the key under which it is kept. -/
def HasSetting (s : Sites) (pattern key : Text) (v : Value) : Prop :=
  ∃ record, s.get? pattern = some record ∧ record.get? key = some v

/-- A text of a store: a pattern, a key, or one in a setting. -/
inductive HasText (s : Sites) : Text → Prop
  | pattern {pattern : Text} {record : Record Text Value} (h : s.get? pattern = some record) :
      HasText s pattern
  | key {pattern key : Text} {v : Value} (h : HasSetting s pattern key v) : HasText s key
  | setting {pattern key : Text} {v : Value} {t : Text} (h : HasSetting s pattern key v)
      (ht : t ∈ Json.texts v) : HasText s t

/-- A store of which no setting has a cycle. -/
def IsAcyclic (s : Sites) : Prop :=
  ∀ pattern key v, HasSetting s pattern key v → v.isAcyclic = true

theorem isAcyclic_empty : IsAcyclic .empty := by
  rintro pattern key v ⟨record, hrecord, -⟩
  cases hrecord

/-- A write adds the setting that is written and no other. -/
theorem hasSetting_of_merge {pattern key q k : Text} {v w : Value}
    (h : HasSetting (s.merge pattern key v) q k w) : w = v ∨ HasSetting s q k w := by
  obtain ⟨record, hrecord, hw⟩ := h
  rw [Store.get?_merge] at hrecord
  split at hrecord
  · next heq =>
    subst heq
    cases hrecord
    rw [OrderedMap.get?_insert] at hw
    split at hw
    · exact .inl (Option.some.inj hw).symm
    · cases hpattern : s.get? pattern with
      | none =>
        rw [hpattern] at hw
        cases hw
      | some record =>
        rw [hpattern] at hw
        exact .inr ⟨record, hpattern, hw⟩
  · exact .inr ⟨record, hrecord, hw⟩

theorem IsAcyclic.merge (h : IsAcyclic s) (pattern key : Text) {v : Value}
    (hv : v.isAcyclic = true) : IsAcyclic (s.merge pattern key v) := by
  intro q k w hw
  rcases hasSetting_of_merge hw with rfl | hsetting
  · exact hv
  · exact h q k w hsetting

/-- A store that results from writes of values without cycles has none. -/
theorem isAcyclic_foldl_merge {writes : List (Text × Text × Value)}
    (h : ∀ w ∈ writes, w.2.2.isAcyclic = true) :
    IsAcyclic (writes.foldl (fun s w => s.merge w.1 w.2.1 w.2.2) .empty) := by
  -- for every store to begin with, since the run goes on from what the first write leaves
  have hfold : ∀ s : Sites, IsAcyclic s →
      IsAcyclic (writes.foldl (fun s w => s.merge w.1 w.2.1 w.2.2) s) := by
    induction writes with
    | nil => exact fun _ hs => hs
    | cons w rest ih =>
      obtain ⟨hw, hrest⟩ := List.forall_mem_cons.1 h
      exact fun s hs => ih hrest _ (hs.merge w.1 w.2.1 hw)
  exact hfold .empty isAcyclic_empty

theorem hasSetting_iff (ranked : Bool) {pattern key : Text} {v : Value} :
    HasSetting s pattern key v ↔
      ∃ record, (pattern, record) ∈ s.listed ranked ∧ (key, v) ∈ record.entries := by
  simp only [HasSetting, Store.mem_listed, OrderedMap.mem_entries_iff]

/-! ## The document of a store -/

/-- What holds of a mapping exactly if it holds of its values holds of the document of a store
exactly if it holds of all settings, rebuilt. -/
theorem ofStore_iff {P : Value → Prop} (hversion : P (.int version))
    (hmapping : ∀ entries, P (mapping entries) ↔ ∀ e ∈ entries, P e.2) :
    P (ofStore s ranked) ↔ ∀ pattern key v, HasSetting s pattern key v → P v.rebuild := by
  have hdocument : P (ofStore s ranked) ↔
      ∀ site ∈ s.listed ranked, ∀ e ∈ site.2.entries, P e.2.rebuild := by
    simp only [ofStore, hmapping, List.forall_mem_cons, List.forall_mem_map, hversion, true_and,
      List.not_mem_nil, false_imp_iff, implies_true, and_true]
  rw [hdocument]
  simp only [hasSetting_iff ranked]
  exact ⟨fun h pattern key v ⟨record, hrecord, hv⟩ => h (pattern, record) hrecord (key, v) hv,
    fun h site hsite e he => h site.1 e.1 e.2 ⟨site.2, hsite, he⟩⟩

theorem isAcyclic_ofStore (h : IsAcyclic s) : (ofStore s ranked).isAcyclic = true := by
  refine (ofStore_iff (P := fun v => v.isAcyclic = true) rfl fun entries => ?_).2
    fun pattern key v hv => Value.isAcyclic_rebuild (h pattern key v hv)
  exact Value.haveAcyclicIn_iff.trans List.forall_mem_map

/-- The document of a store has a form in JSON exactly if all settings have one. -/
theorem hasForm_ofStore_iff (h : IsAcyclic s) (ranked : Bool) :
    Json.hasForm (ofStore s ranked) = true ↔
      ∀ pattern key v, HasSetting s pattern key v → Json.hasForm v = true := by
  rw [ofStore_iff (P := fun v => Json.hasForm v = true) (by decide +kernel) fun entries => ?_]
  · exact forall₄_congr fun pattern key v hv => by rw [Json.hasForm_rebuild (h pattern key v hv)]
  · refine Json.haveEntryForms_iff.trans (List.forall_mem_map.trans ?_)
    exact forall₂_congr fun e he => and_iff_right rfl

theorem isSpellable_ofStore_iff (h : IsAcyclic s) (ranked : Bool) :
    (ofStore s ranked).isSpellable = true ↔
      ∀ pattern key v, HasSetting s pattern key v → v.isSpellable = true := by
  rw [ofStore_iff (P := fun v => v.isSpellable = true) (by decide +kernel)
    fun entries => isSpellable_mapping]
  exact forall₄_congr fun pattern key v hv => by rw [Value.isSpellable_rebuild (h pattern key v hv)]

/-- A surrogate stands between quotes in the document of a store exactly if it stands in a text of
the store. -/
theorem surrogate_texts_ofStore_iff (h : IsAcyclic s) {c : CodePoint} (hc : c.isSurrogate = true) :
    (∃ t ∈ Json.texts (ofStore s ranked), c ∈ t) ↔ ∃ t, HasText s t ∧ c ∈ t := by
  have hmapping (entries : List (Text × Value)) : (∃ t ∈ Json.texts (mapping entries), c ∈ t) ↔
      ∃ e ∈ entries, c ∈ e.1 ∨ ∃ t ∈ Json.texts e.2, c ∈ t := by
    refine Json.exists_mem_textsOfEntries_iff.trans ?_
    simp only [List.mem_map, exists_exists_and_eq_and]
    rfl
  have hdocument : (∃ t ∈ Json.texts (ofStore s ranked), c ∈ t) ↔ ∃ site ∈ s.listed ranked,
      c ∈ site.1 ∨ ∃ e ∈ site.2.entries, c ∈ e.1 ∨ ∃ t ∈ Json.texts e.2.rebuild, c ∈ t := by
    -- the names of the schema are made of characters
    have hname (n : String) : c ∉ Text.ofString n := Text.notMem_ofChars hc _
    simp only [ofStore, hmapping, List.exists_mem_cons_iff, List.mem_map, exists_exists_and_eq_and,
      hname, Json.texts, List.not_mem_nil, false_and, exists_false, or_false, false_or]
  rw [hdocument]
  constructor
  · rintro ⟨⟨pattern, record⟩, hsite, hpattern | ⟨⟨key, v⟩, he, hkey | ⟨t, ht, hmem⟩⟩⟩
    · exact ⟨pattern, .pattern (Store.mem_listed.1 hsite), hpattern⟩
    · exact ⟨key, .key ((hasSetting_iff ranked).2 ⟨record, hsite, he⟩), hkey⟩
    · have hsetting := (hasSetting_iff ranked).2 ⟨record, hsite, he⟩
      rw [Json.texts_rebuild (h pattern key v hsetting)] at ht
      exact ⟨t, .setting hsetting ht, hmem⟩
  · rintro ⟨t, htext, hmem⟩
    cases htext with
    | pattern hrecord => exact ⟨(t, _), Store.mem_listed.2 hrecord, .inl hmem⟩
    | key hsetting =>
      obtain ⟨record, hsite, he⟩ := (hasSetting_iff ranked).1 hsetting
      exact ⟨_, hsite, .inr ⟨_, he, .inl hmem⟩⟩
    | setting hsetting ht =>
      obtain ⟨record, hsite, he⟩ := (hasSetting_iff ranked).1 hsetting
      rw [← Json.texts_rebuild (h _ _ _ hsetting)] at ht
      exact ⟨_, hsite, .inr ⟨_, he, .inr ⟨t, ht, hmem⟩⟩⟩

/-! ## The text of a store -/

/-- The stack suffices for copying the settings of a store exactly if it does for each. -/
theorem canCopy_iff : canCopy stack s = true ↔
    ∀ pattern key v, HasSetting s pattern key v → stack.copies v = true := by
  simp only [canCopy, List.all_eq_true]
  constructor
  · rintro h pattern key v ⟨record, hrecord, hv⟩
    rw [Store.get?, Option.map_eq_some_iff] at hrecord
    obtain ⟨entry, hentry, rfl⟩ := hrecord
    exact h (pattern, entry) (OrderedMap.mem_entries_iff.2 hentry) (key, v)
      (OrderedMap.mem_entries_iff.2 hv)
  · rintro h ⟨pattern, entry⟩ hentry ⟨key, v⟩ hv
    refine h pattern key v ⟨entry.record, ?_, OrderedMap.mem_entries_iff.1 hv⟩
    rw [Store.get?, OrderedMap.mem_entries_iff.1 hentry, Option.map_some]

/-- Some work of spelling out a store for a path goes deeper than the stack allows. -/
inductive Exhausts (stack : Stack) (p : Path) (s : Sites) (ranked : Bool) : Recursion → Prop
  | copying {pattern key : Text} {v : Value} (setting : HasSetting s pattern key v)
      (deep : stack.copies v = false) : Exhausts stack p s ranked .copying
  | writingJson (json : p.isJson = true) (deep : stack.writesJson (ofStore s ranked) = false) :
      Exhausts stack p s ranked .writingJson
  | writingYaml (yaml : p.isJson = false) (deep : stack.writesYaml (ofStore s ranked) = false) :
      Exhausts stack p s ranked .writingYaml

theorem not_exhausts (copies : canCopy stack s = true)
    (json : p.isJson = true → stack.writesJson (ofStore s ranked) = true)
    (yaml : p.isJson = false → stack.writesYaml (ofStore s ranked) = true) (work : Recursion) :
    ¬Exhausts stack p s ranked work := by
  intro h
  cases h with
  | copying setting deep =>
    exact Bool.false_ne_true (deep.symm.trans (canCopy_iff.1 copies _ _ _ setting))
  | writingJson hjson deep => exact Bool.false_ne_true (deep.symm.trans (json hjson))
  | writingYaml hyaml deep => exact Bool.false_ne_true (deep.symm.trans (yaml hyaml))

/-- The format that the name of a path tells has a form for each setting of a store. -/
def HasForms (p : Path) (s : Sites) : Prop :=
  if p.isJson then ∀ pattern key v, HasSetting s pattern key v → Json.hasForm v = true
  else ∀ pattern key v, HasSetting s pattern key v → v.isSpellable = true

/-- The document of a store is spelled out if each setting has a form and the stack suffices. -/
theorem textFor_spec (h : IsAcyclic s) (copies : canCopy stack s = true) :
    EndsIn (fun e => (∃ work, e = .exhausted work ∧ Exhausts stack p s ranked work) ∨
        ¬HasForms p s ∧
          if p.isJson then ∃ fault, e = .formless fault else ∃ fault, e = .unspelled fault)
      (fun _ => HasForms p s ∧ ∀ work, ¬Exhausts stack p s ranked work)
      (textFor stack p (ofStore s ranked)) := by
  unfold textFor HasForms
  cases hjson : p.isJson with
  | true =>
    simp only [if_true]
    rw [← hasForm_ofStore_iff h ranked, ← Json.exists_write_iff (isAcyclic_ofStore h)]
    refine EndsIn.ite (fun hstack => ?_) fun hstack => ?_
    · cases hwrite : Json.write (ofStore s ranked) with
      | ok text =>
        refine ⟨⟨text, rfl⟩, not_exhausts copies (fun _ => hstack) fun hyaml => ?_⟩
        rw [hjson] at hyaml
        cases hyaml
      | error fault => exact .inr ⟨nofun, fault, rfl⟩
    · exact .inl ⟨_, rfl, .writingJson hjson (Bool.eq_false_iff.2 hstack)⟩
  | false =>
    simp only [Bool.false_eq_true, if_false]
    rw [← isSpellable_ofStore_iff h ranked, ← Yaml.exists_write_iff]
    refine EndsIn.ite (fun hstack => ?_) fun hstack => ?_
    · cases hwrite : Yaml.write (ofStore s ranked) with
      | ok cs =>
        refine ⟨⟨cs, rfl⟩, not_exhausts copies (fun hyes => ?_) fun _ => hstack⟩
        rw [hjson] at hyes
        cases hyes
      | error fault => exact .inr ⟨nofun, fault, rfl⟩
    · exact .inl ⟨_, rfl, .writingYaml hjson (Bool.eq_false_iff.2 hstack)⟩

/-- A store without cycles is spelled out exactly if each setting has a form and the stack
suffices. -/
theorem exists_render_iff (h : IsAcyclic s) : (∃ text, render stack p s ranked = .ok text) ↔
    HasForms p s ∧ ∀ work, ¬Exhausts stack p s ranked work := by
  simp only [render_eq_ok_iff, exists_and_left]
  constructor
  · rintro ⟨copies, text, htext⟩
    exact (textFor_spec h copies).of_ok htext
  · rintro ⟨hforms, hsuffices⟩
    have copies : canCopy stack s = true := canCopy_iff.2 fun pattern key v hv => by
      by_contra hdeep
      exact hsuffices _ (.copying hv (Bool.eq_false_iff.2 hdeep))
    refine ⟨copies, ?_⟩
    cases htext : textFor stack p (ofStore s ranked) with
    | ok text => exact ⟨text, rfl⟩
    | error e =>
      rcases (textFor_spec h copies).of_error htext with ⟨work, -, hexhausts⟩ | ⟨hno, -⟩
      · exact absurd hexhausts (hsuffices work)
      · exact absurd hforms hno

/-- The text of a store holds a surrogate exactly if it is in JSON and a text of the store does. -/
theorem surrogate_mem_render_iff (h : IsAcyclic s) {text : Text}
    (hrender : render stack p s ranked = .ok text) {c : CodePoint} (hc : c.isSurrogate = true) :
    c ∈ text ↔ p.isJson = true ∧ ∃ t, HasText s t ∧ c ∈ t := by
  rcases textFor_eq_ok (render_eq_ok_iff.1 hrender).2 with
    ⟨hjson, -, hwrite⟩ | ⟨hyaml, -, cs, -, rfl⟩
  · rw [Json.mem_iff_of_write hc hwrite, surrogate_texts_ofStore_iff h hc, and_iff_right hjson]
  · refine iff_of_false (Text.notMem_ofChars hc _) fun hjson => ?_
    exact Bool.false_ne_true (hyaml.symm.trans hjson.1)

/-! ## What fits -/

/-- A path and a store that can be kept there: the path can be given to the system, the format that
its name tells has a form for each setting, and the stack suffices. JSON has no form for a surrogate
in any text. -/
structure Fits (stack : Stack) (p : Path) (s : Sites) (ranked : Bool) : Prop where
  namable : p.IsNamable
  forms : HasForms p s
  characters : p.isJson = true → ∀ t, HasText s t → ∀ c ∈ t, c.isSurrogate = false
  sufficient : ∀ work, ¬Exhausts stack p s ranked work

/-- What fits can be spelled out and encoded. -/
theorem fits_iff (h : IsAcyclic s) : Fits stack p s ranked ↔ p.IsNamable ∧
    ∃ text content, render stack p s ranked = .ok text ∧ Utf8.encodeText text = .ok content := by
  constructor
  · intro hfits
    obtain ⟨text, hrender⟩ := (exists_render_iff h).2 ⟨hfits.forms, hfits.sufficient⟩
    have hplain : ∀ c ∈ text, c.isSurrogate = false := by
      intro c hc
      by_contra hsurrogate
      rw [Bool.not_eq_false] at hsurrogate
      obtain ⟨hjson, t, ht, hmem⟩ := (surrogate_mem_render_iff h hrender hsurrogate).1 hc
      exact Bool.eq_false_iff.1 (hfits.characters hjson t ht c hmem) hsurrogate
    exact ⟨hfits.namable, text, _, hrender, Utf8.encodeText_eq_ok_iff.2 ⟨hplain, rfl⟩⟩
  · rintro ⟨hname, text, content, hrender, hencode⟩
    obtain ⟨hforms, hsuffices⟩ := (exists_render_iff h).1 ⟨text, hrender⟩
    have hplain := (Utf8.encodeText_eq_ok_iff.1 hencode).1
    refine ⟨hname, hforms, fun hjson t ht c hmem => ?_, hsuffices⟩
    by_contra hsurrogate
    rw [Bool.not_eq_false] at hsurrogate
    have hc := (surrogate_mem_render_iff h hrender hsurrogate).2 ⟨hjson, t, ht, hmem⟩
    exact Bool.eq_false_iff.1 (hplain c hc) hsurrogate

/-! ## Outcomes -/

variable {t : FileTree}

/-- The file has been written, and no other file has changed. -/
def IsSaved (stack : Stack) (t : FileTree) (p : Path) (s : Sites) (ranked : Bool)
    (outcome : FileTree × Except SaveError Unit) : Prop :=
  outcome.2 = .ok () ∧ ∃ text content l, render stack p s ranked = .ok text ∧
    Utf8.encodeText text = .ok content ∧ outcome.1.locate p = .ok l ∧
    outcome.1.at? l = some (.file content) ∧ t.SameFilesBut l outcome.1

/-- The system has refused to write the file. The failure names it, and no file has changed. -/
def IsRefused (t : FileTree) (p : Path) (outcome : FileTree × Except SaveError Unit) : Prop :=
  ∃ e, outcome.2 = .error (.unwritable p e) ∧ e.isRefusal = true ∧ t.SameFiles outcome.1

/-- The device has failed while the file was written. The failure names the file, which keeps what
the device took, and no other file has changed. -/
def IsCutShort (stack : Stack) (t : FileTree) (p : Path) (s : Sites) (ranked : Bool)
    (outcome : FileTree × Except SaveError Unit) : Prop :=
  ∃ text content taken reason, render stack p s ranked = .ok text ∧
    Utf8.encodeText text = .ok content ∧ t.shortage? p content = some (taken, reason) ∧
    outcome.2 = .error (.unwritable p (.cutShort reason)) ∧
    LeavesPart t p (content.take taken) outcome.1

/-- A failure that is not reported as one of the file, with its cause: the stack does not suffice,
or a setting has no form in JSON, or an integer in a setting none in YAML, or the system cannot be
given the path, or a text in JSON holds a surrogate. No file has changed, but in the last case,
where the file is empty. -/
inductive GoesAstray (stack : Stack) (t : FileTree) (p : Path) (s : Sites) (ranked : Bool) :
    FileTree × Except SaveError Unit → Prop
  | exhausted {work : Recursion} (exhausts : Exhausts stack p s ranked work) :
      GoesAstray stack t p s ranked (t, .error (.exhausted work))
  | formless {pattern key : Text} {v : Value} {e : Json.Unwritable} (json : p.isJson = true)
      (setting : HasSetting s pattern key v) (form : Json.hasForm v = false) :
      GoesAstray stack t p s ranked (t, .error (.formless e))
  | unspelled {pattern key : Text} {v : Value} {e : Literal.Error} (yaml : p.isJson = false)
      (setting : HasSetting s pattern key v) (spellable : v.isSpellable = false) :
      GoesAstray stack t p s ranked (t, .error (.unspelled e))
  | unnamed {t' : FileTree} {e : FileError} (namable : ¬p.IsNamable) (same : t.SameFiles t') :
      GoesAstray stack t p s ranked (t', .error (.unexpected e))
  | emptied {t' : FileTree} {text : Text} {c : CodePoint} {e : Utf8.EncodeError}
      (json : p.isJson = true) (holds : HasText s text) (mem : c ∈ text)
      (surrogate : c.isSurrogate = true) (leaves : LeavesPart t p [] t') :
      GoesAstray stack t p s ranked (t', .error (.unexpected (.surrogate e)))

theorem GoesAstray.not_fits {outcome : FileTree × Except SaveError Unit}
    (h : GoesAstray stack t p s ranked outcome) : ¬Fits stack p s ranked := by
  intro hfits
  have hforms := hfits.forms
  unfold HasForms at hforms
  cases h with
  | exhausted exhausts => exact hfits.sufficient _ exhausts
  | formless json setting form =>
    rw [if_pos json] at hforms
    exact Bool.false_ne_true (form.symm.trans (hforms _ _ _ setting))
  | unspelled yaml setting spellable =>
    rw [yaml, if_neg Bool.false_ne_true] at hforms
    exact Bool.false_ne_true (spellable.symm.trans (hforms _ _ _ setting))
  | unnamed namable => exact namable hfits.namable
  | emptied json holds mem surrogate =>
    rw [hfits.characters json _ holds _ mem] at surrogate
    cases surrogate

/-- A file that is not written although the path can be given to the system has been refused. -/
theorem isRefused_or_goesAstray {t' : FileTree} {e : FileError} (same : t.SameFiles t')
    (h : p.IsNamable → e.isRefusal = true) :
    IsRefused t p (t', .error (.ofFile p e)) ∨
      GoesAstray stack t p s ranked (t', .error (.ofFile p e)) := by
  unfold SaveError.ofFile
  split
  · next hrefusal => exact .inl ⟨e, rfl, hrefusal, same⟩
  · next hnot => exact .inr (.unnamed (fun hname => hnot (h hname)) same)

/-- A store that cannot be spelled out exhausts the stack, or it has a setting for which there is no
form. -/
theorem goesAstray_of_render (h : IsAcyclic s) {e : SaveError}
    (hrender : render stack p s ranked = .error e) :
    GoesAstray stack t p s ranked (t, .error e) := by
  unfold render at hrender
  split at hrender
  · next copies =>
    rcases (textFor_spec h copies).of_error hrender with ⟨work, rfl, hexhausts⟩ | ⟨hno, hfault⟩
    · exact .exhausted hexhausts
    · unfold HasForms at hno
      split at hno
      · next hjson =>
        rw [if_pos hjson] at hfault
        obtain ⟨fault, rfl⟩ := hfault
        push Not at hno
        obtain ⟨pattern, key, v, hsetting, hform⟩ := hno
        exact .formless hjson hsetting (Bool.eq_false_iff.2 hform)
      · next hyaml =>
        rw [if_neg hyaml] at hfault
        obtain ⟨fault, rfl⟩ := hfault
        push Not at hno
        obtain ⟨pattern, key, v, hsetting, hspellable⟩ := hno
        exact .unspelled (Bool.eq_false_iff.2 hyaml) hsetting (Bool.eq_false_iff.2 hspellable)
  · next copies =>
    cases hrender
    rw [canCopy_iff] at copies
    push Not at copies
    obtain ⟨pattern, key, v, hsetting, hdeep⟩ := copies
    exact .exhausted (.copying hsetting (Bool.eq_false_iff.2 hdeep))

/-- A text that cannot be encoded is in JSON, and a text of the store holds a surrogate. -/
theorem goesAstray_of_encodeText (h : IsAcyclic s) {t' : FileTree} {text : Text}
    {e : Utf8.EncodeError} (hrender : render stack p s ranked = .ok text)
    (hencode : Utf8.encodeText text = .error e) (leaves : LeavesPart t p [] t') :
    GoesAstray stack t p s ranked (t', .error (.unexpected (.surrogate e))) := by
  obtain ⟨c, hc, hsurrogate⟩ : ∃ c ∈ text, c.isSurrogate = true := by
    by_contra hnone
    push Not at hnone
    have hplain : ∀ c ∈ text, c.isSurrogate = false :=
      fun c hc => Bool.eq_false_iff.2 (hnone c hc)
    rw [Utf8.encodeText_eq_ok_iff.2 ⟨hplain, rfl⟩] at hencode
    cases hencode
  obtain ⟨hjson, held, hheld, hmem⟩ := (surrogate_mem_render_iff h hrender hsurrogate).1 hc
  exact .emptied hjson hheld hmem hsurrogate leaves

/-- A failure is a refusal, or the device has failed, or it has one of the causes above. -/
theorem outcome_of_failsAt (h : IsAcyclic s) {t' : FileTree} {e : SaveError}
    (hfails : FailsAt stack t p s ranked t' e) :
    IsRefused t p (t', .error e) ∨
      (IsCutShort stack t p s ranked (t', .error e) ∧ p.IsNamable) ∨
      GoesAstray stack t p s ranked (t', .error e) := by
  cases hfails with
  | render hrender => exact .inr (.inr (goesAstray_of_render h hrender))
  | directories hsame hfailed =>
    exact (isRefused_or_goesAstray hsame fun hname =>
      (FileTree.makeDirectories_of_isNamable hname.parent).of_error hfailed).imp_right .inr
  | @write text above _ _ hrender hsame hdevice hfails =>
    cases hfails with
    | unwritten hfailed =>
      exact (isRefused_or_goesAstray hsame fun hname =>
        (FileTree.write_of_isNamable hname _).of_error hfailed).imp_right .inr
    | emptied hencode hwrite =>
      have leaves := leavesPart_of_write hsame hwrite
      exact .inr (.inr (goesAstray_of_encodeText h hrender hencode leaves))
    | cutShort hencode hshortage hwrite =>
      have hname := FileTree.checkPath_eq_ok_iff.1 (FileTree.write_eq_ok hwrite).1
      rw [hdevice] at hshortage
      exact .inr (.inl ⟨⟨text, _, _, _, hrender, hencode, hshortage, rfl,
        leavesPart_of_write hsame hwrite⟩, hname⟩)

/-- Saving ends as it is declared if the store fits the path: the file is written, or it is refused
and no file changes, or the device fails in the middle of the file. A store that does not fit is
never saved. If it is not refused for other reasons, the failure has one of the causes above. -/
theorem save_outcome (h : IsAcyclic s) (stack : Stack) (t : FileTree) (p : Path) (ranked : Bool) :
    (Fits stack p s ranked →
      IsSaved stack t p s ranked (save stack t p s ranked) ∨
        IsRefused t p (save stack t p s ranked) ∨
        IsCutShort stack t p s ranked (save stack t p s ranked)) ∧
    (¬Fits stack p s ranked →
      IsRefused t p (save stack t p s ranked) ∨
        GoesAstray stack t p s ranked (save stack t p s ranked)) := by
  rcases hsave : save stack t p s ranked with ⟨t', e | ⟨⟩⟩
  · rcases outcome_of_failsAt h (failsAt_of_save hsave) with
      hrefused | ⟨hcut, hname⟩ | hastray
    · exact ⟨fun _ => .inr (.inl hrefused), fun _ => .inl hrefused⟩
    · -- what has been cut short was spelled out and encoded, and so it fits
      refine ⟨fun _ => .inr (.inr hcut), fun hnot => absurd ?_ hnot⟩
      obtain ⟨text, content, -, -, hrender, hencode, -⟩ := hcut
      exact (fits_iff h).2 ⟨hname, text, content, hrender, hencode⟩
    · exact ⟨fun hfits => absurd hfits hastray.not_fits, fun _ => .inr hastray⟩
  · obtain ⟨text, content, l, hrender, hencode, hcheck, hlocate, hfile, hbut⟩ := save_eq_ok hsave
    have hname := FileTree.checkPath_eq_ok_iff.1 hcheck
    exact ⟨fun _ => .inl ⟨rfl, text, content, l, hrender, hencode, hlocate, hfile, hbut⟩,
      fun hnot => absurd ((fits_iff h).2 ⟨hname, text, content, hrender, hencode⟩) hnot⟩

/-- The store with one setting, which is a date. -/
def dated : Sites :=
  Store.empty.merge (Text.ofString "http://a") (Text.ofString "seen") (.date ⟨2020, 1, 2⟩)

theorem isAcyclic_dated : IsAcyclic dated :=
  isAcyclic_empty.merge _ _ rfl

/-- The store with one setting, which is a text with a surrogate. -/
def unpaired : Sites :=
  Store.empty.merge (Text.ofString "http://a") (Text.ofString "zoom") (.text [⟨0xd800, by decide⟩])

/-- The path of a file in the working directory. -/
def inWorking (name : String) : Path := ⟨0, [Text.ofString name]⟩

/-- The tree with one file `s.json`, which is not empty. -/
def oneFile : FileTree where
  nodes := OrderedMap.ofList [([Text.ofString "s.json"], .file [0x31])]
  working := []

/-- A date fits a file in YAML and goes astray in JSON. -/
theorem save_outcome_dated : IsAcyclic dated ∧ Fits .boundless (inWorking "s.yaml") dated false ∧
    IsSaved .boundless oneFile (inWorking "s.yaml") dated false
      (save .boundless oneFile (inWorking "s.yaml") dated false) ∧
    GoesAstray .boundless oneFile (inWorking "s.json") dated false
      (save .boundless oneFile (inWorking "s.json") dated false) := by
  have hsetting : HasSetting dated (Text.ofString "http://a") (Text.ofString "seen")
      (.date ⟨2020, 1, 2⟩) := by
    refine ⟨OrderedMap.empty.insert _ _, (Store.get?_merge _ _ _ _ _).trans (if_pos rfl), ?_⟩
    rw [OrderedMap.get?_insert, if_pos BEq.rfl]
  have honly : ∀ pattern key v, HasSetting dated pattern key v → v = .date ⟨2020, 1, 2⟩ := by
    intro pattern key v hv
    rcases hasSetting_of_merge hv with rfl | ⟨record, hrecord, -⟩
    · rfl
    · cases hrecord
  have hjson : (inWorking "s.json").isJson = true := by decide +kernel
  have hyaml : (inWorking "s.yaml").isJson = false := by decide +kernel
  have hfits : Fits .boundless (inWorking "s.yaml") dated false := by
    refine ⟨?_, ?_, fun h => ?_, not_exhausts (by decide +kernel) (fun _ => rfl) fun _ => rfl⟩
    · show ∀ part ∈ [Text.ofString "s.yaml"], ∀ c ∈ part, c.isNamable = true
      decide
    · rw [HasForms, hyaml, if_neg Bool.false_ne_true]
      intro pattern key v hv
      rw [honly pattern key v hv]
      rfl
    · rw [hyaml] at h
      cases h
  have hnot : ¬Fits .boundless (inWorking "s.json") dated false := fun h => by
    have hforms := h.forms
    rw [HasForms, if_pos hjson] at hforms
    cases hforms _ _ _ hsetting
  have hsaved : (save .boundless oneFile (inWorking "s.yaml") dated false).2 = .ok () := by
    decide +kernel
  have hfailed : (save .boundless oneFile (inWorking "s.json") dated false).2 =
      .error (.formless (.value "date")) := by decide +kernel
  refine ⟨isAcyclic_dated, hfits,
    ((save_outcome isAcyclic_dated .boundless oneFile _ false).1 hfits).resolve_right ?_,
    ((save_outcome isAcyclic_dated .boundless oneFile _ false).2 hnot).resolve_left ?_⟩
  · rintro (⟨e, hrefused, -⟩ | ⟨_, _, _, _, -, -, -, hcut, -⟩)
    · rw [hsaved] at hrefused
      cases hrefused
    · rw [hsaved] at hcut
      cases hcut
  · rintro ⟨e, hrefused, -⟩
    rw [hfailed] at hrefused
    cases hrefused

/-- A date is neither saved nor refused in JSON, and a failure to save a text with a surrogate has
changed a file. -/
theorem not_declared_save :
    (IsAcyclic dated ∧ (save .boundless oneFile (inWorking "s.json") dated false).2 ≠ .ok () ∧
      ∀ p e, (save .boundless oneFile (inWorking "s.json") dated false).2 ≠
        .error (.unwritable p e)) ∧
    (IsAcyclic unpaired ∧
      (save .boundless oneFile (inWorking "s.json") unpaired false).2 ≠ .ok () ∧
      ¬oneFile.SameFiles (save .boundless oneFile (inWorking "s.json") unpaired false).1) := by
  have hdate : (save .boundless oneFile (inWorking "s.json") dated false).2 =
      .error (.formless (.value "date")) := by decide +kernel
  have hfailed : (save .boundless oneFile (inWorking "s.json") unpaired false).2 ≠ .ok () := by
    decide +kernel
  have hempty : (save .boundless oneFile (inWorking "s.json") unpaired false).1.at?
      [Text.ofString "s.json"] = some (.file []) := by decide +kernel
  have hbefore : oneFile.at? [Text.ofString "s.json"] ≠ some (.file []) := by decide +kernel
  refine ⟨⟨isAcyclic_dated, ?_, fun p e => ?_⟩, isAcyclic_empty.merge _ _ rfl, hfailed,
    fun hsame => ?_⟩
  · rw [hdate]
    exact nofun
  · rw [hdate]
    exact nofun
  · exact hbefore ((hsame _ _).1 hempty)

end SiteRules.Document
