import SiteRules.Proofs.Yaml.Column
import SiteRules.Yaml.Graph.OfTokens
import SiteRules.Yaml.Writer

/-!
# Names and tags

The name and the tag that are written in front of a node are read as such (`scanAnchor_nameText`,
`scanTag_short`), and the short form of a tag is expanded to the tag (`Tag.exists_short`).
-/

namespace SiteRules.Yaml

variable {c : Cursor} {tail : List Char}

/-! ## Names -/

theorem isNamePart_of_isDigit {d : Char} (h : d.isDigit = true) : isNamePart d = true := by
  simp only [Char.isDigit, Bool.and_eq_true, decide_eq_true_eq] at h
  simp only [isNamePart, Bool.or_eq_true, Bool.and_eq_true, decide_eq_true_eq]
  exact .inl (.inl (.inl (.inl ⟨h.1, h.2⟩)))

theorem isNamePart_of_mem_nameText {n : Nat} : ∀ d ∈ nameText n, isNamePart d = true := by
  refine List.forall_mem_cons.2 ⟨by decide, List.forall_mem_cons.2 ⟨by decide, ?_⟩⟩
  refine List.forall_mem_append.2 ⟨fun d hd => ?_, fun d hd => ?_⟩
  · rw [List.eq_of_mem_replicate hd]
    decide
  · exact isNamePart_of_isDigit (Nat.isDigit_of_mem_toDigits (by decide) (by decide) hd)

/-- The characters of names are written, and no line ends. -/
theorem isWritten_of_isNamePart {d : Char} (h : isNamePart d = true) :
    isWritten d = true ∧ isBreak d = false := by
  simp only [isNamePart, Bool.or_eq_true, Bool.and_eq_true, decide_eq_true_eq] at h
  have hrange : 0x20 < d.toNat ∧ d.toNat < 0x7f := by
    rcases h with (((h | h) | h) | rfl) | rfl
    · exact ⟨Nat.lt_of_lt_of_le (by decide) h.1, Nat.lt_of_le_of_lt h.2 (by decide)⟩
    · exact ⟨Nat.lt_of_lt_of_le (by decide) h.1, Nat.lt_of_le_of_lt h.2 (by decide)⟩
    · exact ⟨Nat.lt_of_lt_of_le (by decide) h.1, Nat.lt_of_le_of_lt h.2 (by decide)⟩
    · decide
    · decide
  have hwritten : isWritten d = true := isWritten_of_toNat (by omega) (by omega)
  have hne : ∀ e : Char, e.toNat ≤ 0x20 ∨ 0x7f ≤ e.toNat → d ≠ e := by
    intro e he
    refine ne_of_toNat ?_
    omega
  refine ⟨hwritten, ?_⟩
  rw [isBreak_of_isWritten hwritten, decide_eq_false (hne '\n' (by decide)),
    decide_eq_false (hne '\x85' (by decide)), decide_eq_false (hne '\u2028' (by decide)),
    decide_eq_false (hne '\u2029' (by decide))]
  rfl

/-- A name is read up to where it ends. -/
theorem scanAnchor_nameText {mark : Char} {n : Nat} (hmark : isWritten mark = true)
    (hrest : c.rest = mark :: nameText n ++ tail)
    (htail : endsToken tail.head? = true ∨ tail.head? = some ':') :
    scanAnchor c = .ok (nameText n, c.advance (nameText n).length.succ) := by
  have hstep : c.step.rest = nameText n ++ tail := by
    rw [Cursor.step_eq hrest hmark]
    rfl
  have hend : ∀ d ∈ tail.head?, isNamePart d = false := by
    intro d hd
    rw [Option.mem_def.1 hd] at htail
    rcases htail with hgap | hcolon
    · simp only [endsToken, isSpace, isBreak, Bool.or_eq_true, decide_eq_true_eq] at hgap
      rcases hgap with (rfl | rfl) | (((rfl | rfl) | rfl) | rfl) | rfl <;> decide
    · cases hcolon
      decide
  have hpeek : (c.step.advance (nameText n).length).peek 0 = tail.head? := by
    rw [Cursor.peek, Cursor.rest_advance hstep, List.head?_eq_getElem?]
  rw [scanAnchor, Cursor.span_eq hstep isNamePart_of_mem_nameText hend]
  dsimp only
  rw [hpeek]
  cases hhead : tail.head? with
  | none => rfl
  | some d =>
    rw [hhead] at htail
    have hended : (isSpace d || isBreak d || "?:,]\x7d%@\x60".toList.contains d) = true := by
      rcases htail with hgap | hcolon
      · rw [Bool.or_eq_true]
        exact .inl hgap
      · cases hcolon
        decide
    dsimp only
    rw [if_neg]
    · rfl
    · rw [hended]
      simp [nameText]

/-! ## Tags -/

theorem isUriPart_of_endsWord (h : endsWord tail.head? = true) :
    ∀ d ∈ tail.head?, isUriPart d = false := by
  intro d hd
  rw [Option.mem_def.1 hd] at h
  simp only [endsWord, isBreak, Bool.or_eq_true, decide_eq_true_eq] at h
  rcases h with rfl | (((rfl | rfl) | rfl) | rfl) | rfl <;> decide

/-- The characters of a name stand for themselves in a tag. -/
theorem scanUriFrom_name {name : List Char} (hname : ∀ d ∈ name, isNamePart d = true)
    (hrest : c.rest = name ++ tail) (htail : endsWord tail.head? = true) {fuel : Nat}
    (hfuel : name.length < fuel) : scanUriFrom fuel c = .ok (name, c.advance name.length) := by
  induction name generalizing c fuel with
  | nil =>
    obtain ⟨fuel, rfl⟩ := Nat.exists_eq_add_one_of_ne_zero (Nat.ne_of_gt hfuel)
    have hpeek : c.peek 0 = tail.head? := by
      rw [Cursor.peek, hrest, List.nil_append, List.head?_eq_getElem?]
    rw [scanUriFrom, hpeek]
    have hpart := isUriPart_of_endsWord htail
    cases hhead : tail.head? with
    | none => rfl
    | some d =>
      have hd := hpart d hhead
      have hpercent : d ≠ '%' := by
        rintro rfl
        cases hd
      dsimp only
      rw [if_neg hpercent, hd]
      rfl
  | cons d name ih =>
    obtain ⟨hd, hname⟩ := List.forall_mem_cons.1 hname
    obtain ⟨fuel, rfl⟩ := Nat.exists_eq_add_one_of_ne_zero (Nat.ne_of_gt (Nat.zero_lt_of_lt hfuel))
    have hstep : c.step.rest = name ++ tail := by
      rw [Cursor.step_eq hrest (isWritten_of_isNamePart hd).1]
      rfl
    have hpercent : d ≠ '%' := by
      rintro rfl
      cases hd
    have hpart : isUriPart d = true := by
      rw [isUriPart, hd]
      rfl
    rw [scanUriFrom, Cursor.peek_zero hrest]
    dsimp only
    rw [if_neg hpercent, if_pos hpart, ih hname hstep (Nat.lt_of_succ_lt_succ hfuel)]
    rfl

/-- The short form of a tag is read as its handle and its name. -/
theorem scanTag_short {name : List Char} (hne : name ≠ []) (hname : ∀ d ∈ name, isNamePart d = true)
    (hrest : c.rest = '!' :: '!' :: name ++ tail) (htail : endsWord tail.head? = true) :
    scanTag c = .ok (⟨some (Text.ofChars ['!', '!']), Text.ofChars name⟩,
      c.advance (name.length + 2)) := by
  have hone : c.step.rest = '!' :: (name ++ tail) := by
    rw [Cursor.step_eq hrest rfl]
    rfl
  have htwo : c.step.step.rest = name ++ tail := by
    rw [Cursor.step_eq hone rfl]
  have hhandle : hasHandle c = true := by
    rw [hasHandle, hrest]
    rfl
  have hscanHandle : scanHandle c = .ok (Text.ofChars ['!', '!'], c.step.step) := by
    have hspan := Cursor.span_eq (c := c.step) (p := isNamePart) hone
      (List.forall_mem_nil _) (by rintro _ ⟨rfl⟩; decide)
    rw [scanHandle, Cursor.peek_zero hrest, Cursor.peek_one hrest, if_neg (by decide),
      if_neg (by simp), hspan]
    dsimp only
    rw [show (c.step.advance ([] : List Char).length).peek 0 = some '!' from
      Cursor.peek_zero hone, if_pos rfl]
    rfl
  have hscanUri : scanUri c.step.step =
      .ok (Text.ofChars name, c.step.step.advance name.length) := by
    obtain ⟨d, rest, rfl⟩ := List.exists_cons_of_ne_nil hne
    have hpart : isUriPart d = true := by
      rw [isUriPart, hname d List.mem_cons_self]
      rfl
    have hlength : (d :: rest).length < c.step.step.rest.length + 1 := by
      rw [htwo, List.length_append]
      omega
    rw [scanUri, Cursor.peek_zero htwo, scanUriFrom_name hname htwo htail hlength]
    dsimp only
    rw [if_neg]
    · rfl
    · rw [hpart]
      decide
  have hend : (c.step.step.advance name.length).peek 0 = tail.head? := by
    rw [Cursor.peek, Cursor.rest_advance htwo, List.head?_eq_getElem?]
  have hplace : c.step.step.advance name.length = c.advance (name.length + 2) := by
    rw [Nat.add_comm, Cursor.advance_add]
    rfl
  have hpeek : c.peek 1 = some '!' := Cursor.peek_one hrest
  have hopens : endsToken (some '!') = false := by decide
  rw [scanTag, hpeek, if_neg (by decide), hopens, if_neg Bool.false_ne_true, if_pos hhandle]
  simp only [hscanHandle, bind, Except.bind, hscanUri, pure, Except.pure, hend, htail, ← hplace,
    if_true]

/-- The short form of a known tag is a name that stands for the tag. -/
theorem Tag.exists_short {tag : Tag} (h : ∀ uri, tag ≠ .unknown uri) :
    ∃ name, tag.short.toList = '!' :: '!' :: name ∧ name ≠ [] ∧
      (∀ d ∈ name, isNamePart d = true) ∧ Tag.ofUri (family ++ Text.ofChars name) = tag := by
  have hshort : ∃ name, tag.short.toList = '!' :: '!' :: name ∧ name ≠ [] ∧
      name.all isNamePart = true ∧ Tag.ofUri (family ++ Text.ofChars name) = tag := by
    cases tag with
    | unknown uri => exact absurd rfl (h uri)
    | null => exact ⟨"null".toList, by decide⟩
    | bool => exact ⟨"bool".toList, by decide⟩
    | int => exact ⟨"int".toList, by decide⟩
    | float => exact ⟨"float".toList, by decide⟩
    | binary => exact ⟨"binary".toList, by decide⟩
    | timestamp => exact ⟨"timestamp".toList, by decide⟩
    | omap => exact ⟨"omap".toList, by decide⟩
    | pairs => exact ⟨"pairs".toList, by decide⟩
    | set => exact ⟨"set".toList, by decide⟩
    | str => exact ⟨"str".toList, by decide⟩
    | seq => exact ⟨"seq".toList, by decide⟩
    | map => exact ⟨"map".toList, by decide⟩
    | merge => exact ⟨"merge".toList, by decide⟩
    | value => exact ⟨"value".toList, by decide⟩
  obtain ⟨name, hname, hne, hall, huri⟩ := hshort
  exact ⟨name, hname, hne, List.all_eq_true.1 hall, huri⟩

end SiteRules.Yaml
