import SiteRules.Proofs.Json.RoundTrip
import SiteRules.Proofs.Value.Acyclic

/-!
# Values with a form in JSON

A value without cycles is written exactly if each of its parts is of a kind that JSON has, each key
can be a name, and no integer is too long (`Json.hasForm`, `Json.exists_write_iff`). What is written
holds a surrogate exactly if one of the texts does that are put between quotes (`Json.texts`,
`Json.mem_iff_of_write`). Marks do not count for either.
-/

namespace SiteRules.Json

/-! ## Forms -/

/-- Whether a value can be the name of an entry. -/
def isName (key : Value) : Bool :=
  match key.content with
  | .text _ => true
  | .null => true
  | .bool _ => true
  | .int n => Literal.isSpellable n
  | .float _ => true
  | _ => false

mutual

/-- Whether a value and all that is in it have a form. -/
def hasForm : Value → Bool
  | .text _ => true
  | .list items => haveForms items
  | .tuple items => haveForms items
  | .map entries => haveEntryForms entries
  | .shared _ v => hasForm v
  | .null => true
  | .bool _ => true
  | .int n => Literal.isSpellable n
  | .float _ => true
  | _ => false

/-- Whether the values of a list have forms. -/
def haveForms : List Value → Bool
  | [] => true
  | v :: rest => hasForm v && haveForms rest

/-- Whether the entries of a list have forms: the key a name, and the value a form. -/
def haveEntryForms : List (Value × Value) → Bool
  | [] => true
  | (k, v) :: rest => isName k && hasForm v && haveEntryForms rest

end

theorem haveForms_iff {vs : List Value} : haveForms vs = true ↔ ∀ v ∈ vs, hasForm v = true := by
  induction vs with
  | nil => simp [haveForms]
  | cons v rest ih => simp [haveForms, ih]

theorem haveEntryForms_iff {entries : List (Value × Value)} :
    haveEntryForms entries = true ↔ ∀ e ∈ entries, isName e.1 = true ∧ hasForm e.2 = true := by
  induction entries with
  | nil => simp [haveEntryForms]
  | cons e rest ih => simp [haveEntryForms, ih]

/-- Marks do not count for whether a key can be a name, nor for which one. -/
theorem isName_unmarked (key : Value) : isName key.unmarked = isName key := by
  induction key using Value.content.induct with
  | case1 mark v ih => exact ih
  | case2 v h =>
    cases v with
    | shared mark v => exact absurd rfl (h mark v)
    | _ => rfl

theorem nameText_unmarked (key : Value) : nameText key.unmarked = nameText key := by
  induction key using Value.content.induct with
  | case1 mark v ih => exact ih
  | case2 v h =>
    cases v with
    | shared mark v => exact absurd rfl (h mark v)
    | _ => rfl

mutual

/-- Marks do not count for whether there is a form. -/
theorem hasForm_unmarked : (v : Value) → hasForm v.unmarked = hasForm v
  | .shared _ v => hasForm_unmarked v
  | .list items | .tuple items => haveForms_unmarkedAll items
  | .map entries => haveEntryForms_unmarkedEntries entries
  | .set _ => rfl
  | .null | .bool _ | .int _ | .float _ | .text _ | .bytes _ | .date _ | .moment _ | .cycle _ => rfl

theorem haveForms_unmarkedAll : (vs : List Value) → haveForms (Value.unmarkedAll vs) = haveForms vs
  | [] => rfl
  | v :: rest => by
    rw [Value.unmarkedAll, haveForms, hasForm_unmarked v, haveForms_unmarkedAll rest, haveForms]

theorem haveEntryForms_unmarkedEntries : (entries : List (Value × Value)) →
    haveEntryForms (Value.unmarkedEntries entries) = haveEntryForms entries
  | [] => rfl
  | (k, v) :: rest => by
    rw [Value.unmarkedEntries, haveEntryForms, isName_unmarked, hasForm_unmarked v,
      haveEntryForms_unmarkedEntries rest, haveEntryForms]

end

theorem hasForm_rebuild {v : Value} (h : v.isAcyclic = true) : hasForm v.rebuild = hasForm v := by
  rw [← hasForm_unmarked v.rebuild, Value.unmarked_rebuild h, hasForm_unmarked v]

/-! ## What is written -/

theorem exists_integerText_iff {n : Int} :
    (∃ digits, integerText n = .ok digits) ↔ Literal.isSpellable n = true := by
  unfold integerText
  split <;> simp_all

theorem exists_writeName_iff {key : Value} :
    (∃ name, writeName key = .ok name) ↔ isName key = true := by
  unfold writeName isName
  cases key.content with
  | int n => exact exists_bind_pure_iff.trans exists_integerText_iff
  | _ => simp

section Write

variable {around : List Mark} {level : Nat}

theorem exists_writeItems_iff {vs : List Value} :
    (∃ lines, writeItems around level vs = .ok lines) ↔
      ∀ v ∈ vs, ∃ text, writeAt around level v = .ok text := by
  induction vs with
  | nil => exact ⟨fun _ => List.forall_mem_nil _, fun _ => ⟨[], rfl⟩⟩
  | cons v rest ih =>
    rw [List.forall_mem_cons, ← ih, writeItems]
    constructor
    · rintro ⟨_, h⟩
      obtain ⟨line, hline, h⟩ := bind_eq_ok_iff.1 h
      obtain ⟨lines, hlines, -⟩ := bind_eq_ok_iff.1 h
      exact ⟨⟨line, hline⟩, lines, hlines⟩
    · rintro ⟨⟨line, hline⟩, lines, hlines⟩
      exact ⟨_, bind_eq_ok_iff.2 ⟨line, hline, bind_eq_ok_iff.2 ⟨lines, hlines, rfl⟩⟩⟩

theorem exists_writeEntries_iff {entries : List (Value × Value)} :
    (∃ lines, writeEntries around level entries = .ok lines) ↔
      ∀ e ∈ entries, isName e.1 = true ∧ ∃ text, writeAt around level e.2 = .ok text := by
  induction entries with
  | nil => exact ⟨fun _ => List.forall_mem_nil _, fun _ => ⟨[], rfl⟩⟩
  | cons e rest ih =>
    rw [List.forall_mem_cons, ← ih, ← exists_writeName_iff, writeEntries]
    constructor
    · rintro ⟨_, h⟩
      obtain ⟨name, hname, h⟩ := bind_eq_ok_iff.1 h
      obtain ⟨value, hvalue, h⟩ := bind_eq_ok_iff.1 h
      obtain ⟨lines, hlines, -⟩ := bind_eq_ok_iff.1 h
      exact ⟨⟨⟨name, hname⟩, value, hvalue⟩, lines, hlines⟩
    · rintro ⟨⟨⟨name, hname⟩, value, hvalue⟩, lines, hlines⟩
      exact ⟨_, bind_eq_ok_iff.2 ⟨name, hname, bind_eq_ok_iff.2 ⟨value, hvalue,
        bind_eq_ok_iff.2 ⟨lines, hlines, rfl⟩⟩⟩⟩

/-- A value is written exactly if it has a form, where none of its parts stands inside itself. -/
theorem exists_writeAt_iff {v : Value} (acyclic : v.isAcyclicIn around = true) :
    (∃ text, writeAt around level v = .ok text) ↔ hasForm v = true := by
  induction v using Value.induct_parts generalizing around level with | _ v ih
  cases v with
  | shared mark v =>
    -- the writer stops at a mark that it is inside of, and there is none
    obtain ⟨hmark, hv⟩ := Value.isAcyclicIn_shared.1 acyclic
    rw [writeAt, if_neg (by rwa [List.contains_iff_mem])]
    exact ih v List.mem_cons_self hv
  | list items | tuple items =>
    rw [writeAt, exists_bind_pure_iff, exists_writeItems_iff, hasForm, haveForms_iff]
    exact forall₂_congr fun v hv => ih v hv (Value.areAcyclicIn_iff.1 acyclic v hv)
  | map entries =>
    rw [writeAt, exists_bind_pure_iff, exists_writeEntries_iff, hasForm, haveEntryForms_iff]
    exact forall₂_congr fun e he => and_congr_right' <|
      ih e.2 (Value.value_mem_parts he) (Value.haveAcyclicIn_iff.1 acyclic e he)
  | int n =>
    rw [writeAt, exists_bind_pure_iff, exists_integerText_iff, hasForm]
  | _ => simp [writeAt, hasForm]

end Write

/-- A value without cycles is written exactly if it has a form. -/
theorem exists_write_iff {v : Value} (acyclic : v.isAcyclic = true) :
    (∃ text, write v = .ok text) ↔ hasForm v = true := by
  rw [← exists_writeAt_iff acyclic]
  exact exists_bind_pure_iff

/-! ## Surrogates -/

mutual

/-- The texts that are put between quotes when a value is written. -/
def texts : Value → List Text
  | .text t => [t]
  | .list items => textsOfAll items
  | .tuple items => textsOfAll items
  | .map entries => textsOfEntries entries
  | .shared _ v => texts v
  | _ => []

/-- The texts of the values of a list. -/
def textsOfAll : List Value → List Text
  | [] => []
  | v :: rest => texts v ++ textsOfAll rest

/-- The texts of the entries of a list, the name of each in front of those of its value. -/
def textsOfEntries : List (Value × Value) → List Text
  | [] => []
  | (k, v) :: rest => nameText k :: (texts v ++ textsOfEntries rest)

end

mutual

/-- Marks do not count for what stands between quotes. -/
theorem texts_unmarked : (v : Value) → texts v.unmarked = texts v
  | .shared _ v => texts_unmarked v
  | .list items | .tuple items => textsOfAll_unmarkedAll items
  | .map entries => textsOfEntries_unmarkedEntries entries
  | .set _ => rfl
  | .null | .bool _ | .int _ | .float _ | .text _ | .bytes _ | .date _ | .moment _ | .cycle _ => rfl

theorem textsOfAll_unmarkedAll : (vs : List Value) →
    textsOfAll (Value.unmarkedAll vs) = textsOfAll vs
  | [] => rfl
  | v :: rest => by
    rw [Value.unmarkedAll, textsOfAll, texts_unmarked v, textsOfAll_unmarkedAll rest, textsOfAll]

theorem textsOfEntries_unmarkedEntries : (entries : List (Value × Value)) →
    textsOfEntries (Value.unmarkedEntries entries) = textsOfEntries entries
  | [] => rfl
  | (k, v) :: rest => by
    rw [Value.unmarkedEntries, textsOfEntries, nameText_unmarked, texts_unmarked v,
      textsOfEntries_unmarkedEntries rest, textsOfEntries]

end

theorem exists_mem_textsOfEntries_iff {P : Text → Prop} {entries : List (Value × Value)} :
    (∃ t ∈ textsOfEntries entries, P t) ↔
      ∃ e ∈ entries, P (nameText e.1) ∨ ∃ t ∈ texts e.2, P t := by
  induction entries with
  | nil => simp [textsOfEntries]
  | cons e rest ih =>
    rw [List.exists_mem_cons_iff, ← ih, textsOfEntries, List.exists_mem_cons_iff]
    simp only [List.mem_append, or_and_right, exists_or, or_assoc]

theorem texts_rebuild {v : Value} (h : v.isAcyclic = true) : texts v.rebuild = texts v := by
  rw [← texts_unmarked v.rebuild, Value.unmarked_rebuild h, texts_unmarked v]

section Surrogate

variable {c : CodePoint} {around : List Mark} {level : Nat}

theorem mem_itemLines_iff {vs : List Value} {lines : List Text}
    (h : writeItems around level vs = .ok lines)
    (hvs : ∀ v ∈ vs, ∀ text, writeAt around level v = .ok text →
      (c ∈ text ↔ ∃ t ∈ texts v, c ∈ t)) :
    (∃ line ∈ lines, c ∈ line) ↔ ∃ t ∈ textsOfAll vs, c ∈ t := by
  induction vs generalizing lines with
  | nil =>
    cases h
    rfl
  | cons v rest ih =>
    rw [writeItems] at h
    obtain ⟨line, hline, h⟩ := bind_eq_ok_iff.1 h
    obtain ⟨others, hothers, h⟩ := bind_eq_ok_iff.1 h
    cases h
    obtain ⟨hv, hrest⟩ := List.forall_mem_cons.1 hvs
    rw [List.exists_mem_cons_iff, hv line hline, ih hothers hrest, textsOfAll]
    simp only [List.mem_append, or_and_right, exists_or]

variable (hc : c.isSurrogate = true)

include hc

/-- Between brackets, a surrogate stands in one of the lines. -/
theorem mem_bracketed_iff {opening closing : Char} {lines : List Text} :
    c ∈ bracketed opening closing level lines ↔ ∃ line ∈ lines, c ∈ line := by
  refine ⟨fun h => ?_, fun ⟨line, hline, h⟩ => mem_bracketed hline h⟩
  -- brackets, commas and what stands at the end of a line are characters
  have hne := CodePoint.ne_ofChar_of_isSurrogate hc
  cases lines with
  | nil => simp [bracketed, hne] at h
  | cons first others => simpa [bracketed, lineEnd, List.mem_replicate, hne] using h

theorem mem_entryLines_iff {entries : List (Value × Value)} {lines : List Text}
    (h : writeEntries around level entries = .ok lines)
    (hentries : ∀ e ∈ entries, ∀ text, writeAt around level e.2 = .ok text →
      (c ∈ text ↔ ∃ t ∈ texts e.2, c ∈ t)) :
    (∃ line ∈ lines, c ∈ line) ↔ ∃ t ∈ textsOfEntries entries, c ∈ t := by
  induction entries generalizing lines with
  | nil =>
    cases h
    rfl
  | cons e rest ih =>
    rw [writeEntries] at h
    obtain ⟨name, hname, h⟩ := bind_eq_ok_iff.1 h
    obtain ⟨value, hvalue, h⟩ := bind_eq_ok_iff.1 h
    obtain ⟨others, hothers, h⟩ := bind_eq_ok_iff.1 h
    cases h
    obtain ⟨he, hrest⟩ := List.forall_mem_cons.1 hentries
    have hline : c ∈ name ++ Text.ofChars [':', ' '] ++ value ↔
        c ∈ nameText e.1 ∨ ∃ t ∈ texts e.2, c ∈ t := by
      rw [List.mem_append, List.mem_append, or_iff_left (Text.notMem_ofChars hc _),
        writeName_eq_ok hname, mem_quote_iff hc, he value hvalue]
    rw [List.exists_mem_cons_iff, hline, ih hothers hrest, exists_mem_textsOfEntries_iff,
      exists_mem_textsOfEntries_iff, List.exists_mem_cons_iff]

/-- The surrogates of what is written are those of the texts between quotes. -/
theorem mem_iff_of_writeAt {v : Value} {text : Text} (h : writeAt around level v = .ok text) :
    c ∈ text ↔ ∃ t ∈ texts v, c ∈ t := by
  -- what is not between quotes is made of characters
  have hplain := Text.notMem_ofChars hc
  induction v using Value.induct_parts generalizing around level text with | _ v ih
  cases v with
  | shared mark v =>
    rw [writeAt] at h
    split at h
    · cases h
    · exact ih v List.mem_cons_self h
  | list items | tuple items =>
    obtain ⟨lines, hlines, h⟩ := bind_eq_ok_iff.1 h
    cases h
    rw [mem_bracketed_iff hc]
    exact mem_itemLines_iff hlines fun v hv _ hwrite => ih v hv hwrite
  | map entries =>
    obtain ⟨lines, hlines, h⟩ := bind_eq_ok_iff.1 h
    cases h
    rw [mem_bracketed_iff hc]
    exact mem_entryLines_iff hc hlines fun e he _ hwrite => ih e.2 (Value.value_mem_parts he) hwrite
  | text t =>
    cases h
    simp only [texts, List.mem_singleton, exists_eq_left, mem_quote_iff hc]
  | int n =>
    obtain ⟨digits, -, h⟩ := bind_eq_ok_iff.1 h
    cases h
    exact iff_of_false (hplain _) (by simp [texts])
  | null | bool _ | float _ =>
    cases h
    exact iff_of_false (hplain _) (by simp [texts])
  | set items => cases h
  | cycle mark => cases h
  | bytes _ | date _ | moment _ => cases h

theorem mem_iff_of_write {v : Value} {text : Text} (h : write v = .ok text) :
    c ∈ text ↔ ∃ t ∈ texts v, c ∈ t := by
  obtain ⟨line, hline, h⟩ := bind_eq_ok_iff.1 h
  cases h
  rw [← mem_iff_of_writeAt hc hline, List.mem_append, List.mem_singleton]
  exact or_iff_left (CodePoint.ne_ofChar_of_isSurrogate hc '\n')

end Surrogate

end SiteRules.Json
