import SiteRules.Proofs.Json.Number
import SiteRules.Proofs.Json.Text
import SiteRules.Proofs.Value.Spellable

/-!
# What is read from the JSON text of a value

JSON has fewer kinds of values than there are, and the names of the entries of its mappings are
texts. So what is read is not always the value that was written but its image (`Json.image`), in
which the keys of mappings have become the texts that spell them, tuples have become lists, and
marks are gone. The text of a value is read as the image, whatever level of indentation it stands at
(`Json.spells_of_writeAt`, `Json.read_of_write`).
-/

namespace SiteRules.Json

/-! ## Images -/

/-- The name under which an entry is written. -/
def nameText (key : Value) : Text :=
  match key.content with
  | .text t => t
  | .null => Text.ofString "null"
  | .bool b => Text.ofString (if b then "true" else "false")
  | .int n => Text.ofString (toString n)
  | .float x => Text.ofString (numberText x)
  | _ => []

mutual

/-- What a value is read as once it has been written. -/
def image : Value → Value
  | .list items => .list (imageAll items)
  | .tuple items => .list (imageAll items)
  | .map entries => .ofEntries (imageEntries entries)
  | .shared _ v => image v
  | .float x => .float x.reread
  | v => v

/-- The images of the values of a list. -/
def imageAll : List Value → List Value
  | [] => []
  | v :: rest => image v :: imageAll rest

/-- The entries of a list as they are read. -/
def imageEntries : List (Value × Value) → List (Value × Value)
  | [] => []
  | (k, v) :: rest => (.text (nameText k), image v) :: imageEntries rest

end

theorem imageAll_eq_map (vs : List Value) : imageAll vs = vs.map image := by
  induction vs with
  | nil => rfl
  | cons v rest ih => rw [imageAll, ih, List.map_cons]

theorem imageEntries_eq_map (entries : List (Value × Value)) :
    imageEntries entries = entries.map fun e => (.text (nameText e.1), image e.2) := by
  induction entries with
  | nil => rfl
  | cons e rest ih => rw [imageEntries, ih, List.map_cons]

theorem integerText_eq_ok {n : Int} {digits : String} (h : integerText n = .ok digits) :
    digits = toString n := by
  unfold integerText at h
  split at h
  · exact (Except.ok.inj h).symm
  · cases h

/-- The name of an entry is written between quotes. -/
theorem writeName_eq_ok {key : Value} {name : Text} (h : writeName key = .ok name) :
    name = quote (nameText key) := by
  unfold writeName at h
  split at h
  · next t heq =>
    rw [nameText, heq]
    exact (Except.ok.inj h).symm
  · next heq =>
    rw [nameText, heq]
    exact (Except.ok.inj h).symm
  · next b heq =>
    rw [nameText, heq]
    exact (Except.ok.inj h).symm
  · next n heq =>
    obtain ⟨digits, hdigits, h⟩ := bind_eq_ok_iff.1 h
    rw [integerText_eq_ok hdigits] at h
    rw [nameText, heq]
    exact (Except.ok.inj h).symm
  · next x heq =>
    rw [nameText, heq]
    exact (Except.ok.inj h).symm
  · cases h

/-! ## Spellings -/

/-- The characters are read as the value, whatever follows them, and hold no carriage return, which
would not be read as such. -/
structure Spells (cs : List Char) (v : Value) : Prop where
  scan : ∀ fuel rest, cs.length ≤ fuel → Ends rest → scanValue fuel (cs ++ rest) = .ok (v, rest)
  noReturn : '\r' ∉ cs

theorem ends_nil : Ends [] := by
  rintro _ ⟨⟩

theorem ends_cons {c : Char} (h : c = ',' ∨ c = '\n') (rest : List Char) : Ends (c :: rest) := by
  rintro _ ⟨⟩
  exact h

/-- What spells a value begins with a character that is no blank, does not close a list and marks no
byte order. -/
theorem Spells.exists_cons {cs : List Char} {v : Value} (h : Spells cs v) :
    ∃ c tail, cs = c :: tail ∧ isBlank c = false ∧ c ≠ ']' ∧ c ≠ '\uFEFF' := by
  have hscan := h.scan cs.length [] (Nat.le_refl _) ends_nil
  rw [List.append_nil] at hscan
  cases cs with
  | nil => cases hscan
  | cons c tail =>
    refine ⟨c, tail, rfl, ?_, ?_, ?_⟩
    · rw [← Bool.not_eq_true]
      intro hblank
      simp only [isBlank, Bool.or_eq_true, decide_eq_true_eq] at hblank
      rcases hblank with ((rfl | rfl) | rfl) | rfl <;> cases hscan
    · rintro rfl
      cases hscan
    · rintro rfl
      cases hscan

/-! ## Texts, names and numbers -/

theorem length_le_length_escape {t : Text} (ht : ∀ c ∈ t, c.isSurrogate = false) :
    t.length ≤ (Text.chars (t.flatMap escape)).length := by
  induction t with
  | nil => exact Nat.zero_le _
  | cons c t ih =>
    obtain ⟨hc, ht⟩ := List.forall_mem_cons.1 ht
    have hone : 0 < (escape c).chars.length := by
      cases escape_cases hc with
      | simple _ _ _ _ _ hchars =>
        rw [hchars]
        exact Nat.succ_pos _
      | control hlow hchars =>
        obtain ⟨_, _, htext, _, _⟩ := escape_control hlow
        rw [hchars, htext]
        exact Nat.succ_pos _
      | plain _ _ _ hchars =>
        rw [hchars]
        exact Nat.succ_pos _
    rw [List.flatMap_cons, Text.chars_append, List.length_append, List.length_cons]
    have hrest := ih ht
    omega

/-- The reader of a text is given enough steps. -/
theorem lt_length_quoted {t : Text} (ht : ∀ c ∈ t, c.isSurrogate = false) (rest : List Char) :
    t.length < (Text.chars (t.flatMap escape) ++ '"' :: rest).length + 1 := by
  have hle := length_le_length_escape ht
  rw [List.length_append]
  omega

theorem spells_quote {t : Text} (ht : ∀ c ∈ t, c.isSurrogate = false) :
    Spells (quote t).chars (.text t) := by
  refine ⟨fun fuel rest hfuel _ => ?_, return_notMem_quote ht⟩
  rw [chars_quote] at hfuel ⊢
  obtain ⟨n, rfl⟩ : ∃ n, fuel = n + 1 := ⟨fuel - 1, by simp at hfuel; omega⟩
  rw [List.cons_append, List.append_assoc, List.singleton_append, scanValue,
    scanText_quote ht (lt_length_quoted ht rest)]
  rfl

/-- What spells neither a text nor a container is left to the reader of names and numbers. -/
theorem spells_of_scanAtom {cs : List Char} {v : Value}
    (hscan : ∀ rest, Ends rest → scanAtom (cs ++ rest) = .ok (v, rest)) (hreturn : '\r' ∉ cs) :
    Spells cs v := by
  refine ⟨fun fuel rest hfuel hrest => ?_, hreturn⟩
  have hnil := hscan [] ends_nil
  rw [List.append_nil] at hnil
  cases cs with
  | nil => cases hnil
  | cons c tail =>
    obtain ⟨n, rfl⟩ : ∃ n, fuel = n + 1 := ⟨fuel - 1, by simp at hfuel; omega⟩
    rw [List.cons_append, scanValue, ← List.cons_append, hscan rest hrest]
    · rintro ⟨⟩
    · rintro _ ⟨⟩
      cases hnil
    · rintro _ ⟨⟩
      cases hnil
    · rintro _ ⟨⟩
      cases hnil

theorem spells_names : ∀ name ∈ names, Spells name.1 name.2 := by
  have hscan : ∀ name ∈ names, ∀ rest, scanAtom (name.1 ++ rest) = .ok (name.2, rest) := by
    simp only [names, List.forall_mem_cons, List.not_mem_nil, false_imp_iff, implies_true, and_true]
    refine ⟨fun _ => rfl, fun _ => rfl, fun _ => rfl, fun _ => rfl, fun _ => rfl, fun _ => rfl⟩
  have hreturn : ∀ name ∈ names, '\r' ∉ name.1 := by
    simp only [names, List.forall_mem_cons, List.not_mem_nil, false_imp_iff, implies_true, and_true]
    decide
  intro name hname
  exact spells_of_scanAtom (fun rest _ => hscan name hname rest) (hreturn name hname)

/-- No number begins with a name. -/
theorem scanAtom_of_scanNumber {cs : List Char} {r : Value × List Char}
    (h : scanNumber cs = .ok r) : scanAtom cs = .ok r := by
  -- a name stops the reader of numbers at its first letter, behind the sign if there is one
  have hnames : ∀ name ∈ names, ∀ rest r, scanNumber (name.1 ++ rest) ≠ .ok r := by
    simp only [names, List.forall_mem_cons, List.not_mem_nil, false_imp_iff, implies_true, and_true]
    refine ⟨?_, ?_, ?_, ?_, ?_, ?_⟩ <;>
      · intro rest r h
        cases h
  have hnone : names.find? (fun name => name.1.isPrefixOf cs) = none := by
    rw [List.find?_eq_none]
    intro name hname hprefix
    obtain ⟨rest, rfl⟩ := List.isPrefixOf_iff_prefix.1 hprefix
    exact hnames name hname rest r h
  rw [scanAtom, hnone]
  exact h

theorem spells_integer {n : Int} (hn : Literal.isSpellable n = true) :
    Spells (Text.ofString (toString n)).chars (.int n) := by
  rw [Text.chars_ofString]
  exact spells_of_scanAtom (fun _ hrest => scanAtom_of_scanNumber (scanNumber_integer hn hrest))
    (return_notMem_toString n)

theorem spells_float (x : Binary64) :
    Spells (Text.ofString (numberText x)).chars (.float x.reread) := by
  rw [Text.chars_ofString]
  cases x with
  | nan label => exact spells_names ("NaN".toList, .float (.nan 0)) (by simp [names])
  | infinite negative =>
    cases negative with
    | false => exact spells_names ("Infinity".toList, .float (.infinite false)) (by simp [names])
    | true => exact spells_names ("-Infinity".toList, .float (.infinite true)) (by simp [names])
  | finite negative significand power =>
    exact spells_of_scanAtom
      (fun _ hrest => scanAtom_of_scanNumber (scanNumber_float negative significand power hrest))
      (return_notMem_text negative significand power)

/-! ## Containers -/

/-- A line end with the indentation of the line after it. -/
def indent (level : Nat) : List Char :=
  '\n' :: List.replicate (2 * level) ' '

/-- What follows the first line of a container: the other lines, each after a comma, and the end of
the last one. -/
def otherLines (level : Nat) (lines : List (List Char)) : List Char :=
  lines.flatMap (fun line => ',' :: (indent (level + 1) ++ line)) ++ indent level

theorem chars_lineEnd (level : Nat) : (lineEnd level).chars = indent level := by
  rw [lineEnd, Text.chars_cons, Text.chars, List.map_replicate]
  rfl

theorem otherLines_cons (level : Nat) (line : List Char) (lines : List (List Char)) :
    otherLines level (line :: lines) =
      ',' :: (indent (level + 1) ++ (line ++ otherLines level lines)) := by
  simp [otherLines]

theorem ends_otherLines (level : Nat) (lines : List (List Char)) (rest : List Char) :
    Ends (otherLines level lines ++ rest) := by
  cases lines with
  | nil => exact ends_cons (.inr rfl) _
  | cons line lines =>
    rw [otherLines_cons]
    exact ends_cons (.inl rfl) _

theorem chars_bracketed (opening closing : Char) (level : Nat) (line : Text) (lines : List Text) :
    (bracketed opening closing level (line :: lines)).chars =
      opening :: (indent (level + 1) ++
        (line.chars ++ (otherLines level (lines.map Text.chars) ++ [closing]))) := by
  have hflat : Text.chars (lines.flatMap fun line =>
        CodePoint.ofChar ',' :: (lineEnd (level + 1) ++ line)) =
      (lines.map Text.chars).flatMap fun line => ',' :: (indent (level + 1) ++ line) := by
    rw [Text.chars, List.map_flatMap, List.flatMap_map]
    refine List.flatMap_congr fun line _ => ?_
    show Text.chars _ = _
    rw [Text.chars_cons, Text.chars_append, chars_lineEnd]
    rfl
  simp only [bracketed, Text.chars_append, Text.chars_cons, Text.chars_nil, chars_lineEnd, hflat,
    CodePoint.toChar_ofChar, otherLines, List.cons_append, List.append_assoc]

section Blanks

variable {c : Char} (hc : isBlank c = false)

include hc

theorem skipBlanks_cons (tail : List Char) : skipBlanks (c :: tail) = c :: tail := by
  rw [skipBlanks, List.dropWhile_cons_of_neg (by simp [hc])]

theorem skipBlanks_indent (level : Nat) (tail : List Char) :
    skipBlanks (indent level ++ c :: tail) = c :: tail := by
  have hblank : ∀ d ∈ indent level, isBlank d = true := by
    refine List.forall_mem_cons.2 ⟨rfl, fun d hd => ?_⟩
    rw [List.eq_of_mem_replicate hd]
    rfl
  rw [skipBlanks, List.dropWhile_append_of_pos hblank]
  exact skipBlanks_cons hc tail

end Blanks

theorem Spells.skipBlanks_eq {line : List Char} {v : Value} (h : Spells line v) (level : Nat)
    (rest : List Char) : skipBlanks (indent level ++ (line ++ rest)) = line ++ rest := by
  obtain ⟨c, tail, rfl, hc, -, -⟩ := h.exists_cons
  rw [List.cons_append]
  exact skipBlanks_indent hc level _

theorem Spells.skipBlanks_space {line : List Char} {v : Value} (h : Spells line v)
    (rest : List Char) : skipBlanks (' ' :: (line ++ rest)) = line ++ rest := by
  obtain ⟨c, tail, rfl, hc, -, -⟩ := h.exists_cons
  exact skipBlanks_cons hc _

/-- The lines of the items of a list are read as the items, up to the bracket that closes it. -/
theorem scanItems_lines {line : List Char} {lines : List (List Char)} {v : Value} {vs : List Value}
    (hline : Spells line v) (hlines : List.Forall₂ Spells lines vs) {level fuel : Nat}
    (hfuel : line.length + (otherLines level lines).length ≤ fuel) (rest : List Char) :
    scanItems fuel (line ++ (otherLines level lines ++ ']' :: rest)) = .ok (v :: vs, rest) := by
  induction hlines generalizing line v fuel with
  | nil =>
    obtain ⟨n, rfl⟩ : ∃ n, fuel = n + 1 := ⟨fuel - 1, by simp [otherLines, indent] at hfuel; omega⟩
    have hscan := hline.scan n (otherLines level [] ++ ']' :: rest)
      (by simp [otherLines, indent] at hfuel; omega) (ends_otherLines level [] _)
    have hblanks : skipBlanks (otherLines level [] ++ ']' :: rest) = ']' :: rest :=
      skipBlanks_indent rfl level rest
    rw [scanItems, hscan]
    dsimp only [bind, Except.bind]
    rw [hblanks]
    rfl
  | @cons line' _ lines _ hline' hlines ih =>
    obtain ⟨n, rfl⟩ : ∃ n, fuel = n + 1 := ⟨fuel - 1, by
      simp [otherLines_cons, indent] at hfuel
      omega⟩
    have hscan := hline.scan n (otherLines level (line' :: lines) ++ ']' :: rest)
      (by simp [otherLines_cons, indent] at hfuel; omega) (ends_otherLines level _ _)
    have hblanks := skipBlanks_cons (c := ',') rfl
      (indent (level + 1) ++ (line' ++ (otherLines level lines ++ ']' :: rest)))
    have hlength : line'.length + (otherLines level lines).length ≤ n := by
      simp [otherLines_cons, indent] at hfuel
      omega
    have hothers := ih hline' hlength
    rw [scanItems, hscan, otherLines_cons]
    dsimp only [bind, Except.bind]
    simp only [List.cons_append, List.append_assoc, hblanks, hline'.skipBlanks_eq, hothers]
    rfl

theorem return_notMem_indent (level : Nat) : '\r' ∉ indent level := by
  simp [indent]

theorem return_notMem_bracketed {opening closing : Char} (hopening : opening ≠ '\r')
    (hclosing : closing ≠ '\r') (level : Nat) {lines : List Text}
    (h : ∀ line ∈ lines, '\r' ∉ line.chars) :
    '\r' ∉ (bracketed opening closing level lines).chars := by
  cases lines with
  | nil =>
    simp [bracketed, CodePoint.toChar_ofChar, hopening.symm, hclosing.symm]
  | cons line lines =>
    obtain ⟨hline, hlines⟩ := List.forall_mem_cons.1 h
    have hothers : '\r' ∉ otherLines level (lines.map Text.chars) := by
      simp only [otherLines, List.mem_append, List.mem_flatMap, List.mem_map, List.mem_cons, not_or]
      refine ⟨?_, return_notMem_indent level⟩
      rintro ⟨_, ⟨other, hother, rfl⟩, hcomma | hindent | hmem⟩
      · cases hcomma
      · exact return_notMem_indent _ hindent
      · exact hlines other hother hmem
    rw [chars_bracketed]
    simp [hopening.symm, hclosing.symm, return_notMem_indent, hline, hothers]

theorem scanValue_list {fuel : Nat} {c : Char} {cs tail rest : List Char} {vs : List Value}
    (hblanks : skipBlanks cs = c :: tail) (hc : c ≠ ']')
    (hitems : scanItems fuel (c :: tail) = .ok (vs, rest)) :
    scanValue (fuel + 1) ('[' :: cs) = .ok (.list vs, rest) := by
  rw [scanValue, hblanks]
  split
  · next heq => exact absurd (List.cons.inj heq).1 hc
  · rw [hitems]
    rfl

theorem scanValue_map {fuel : Nat} {c : Char} {cs tail rest : List Char}
    {entries : List (Value × Value)} (hblanks : skipBlanks cs = c :: tail) (hc : c ≠ '\x7d')
    (hentries : scanEntries fuel (c :: tail) = .ok (entries, rest)) :
    scanValue (fuel + 1) ('\x7b' :: cs) = .ok (.ofEntries entries, rest) := by
  rw [scanValue, hblanks]
  split
  · next heq => exact absurd (List.cons.inj heq).1 hc
  · rw [hentries]
    rfl

/-- The lines of the items of a list between its brackets spell the list. -/
theorem spells_list {lines : List Text} {vs : List Value}
    (h : List.Forall₂ Spells (lines.map Text.chars) vs) (level : Nat) :
    Spells (bracketed '[' ']' level lines).chars (.list vs) := by
  refine ⟨fun fuel rest hfuel _ => ?_, return_notMem_bracketed (by decide) (by decide) level ?_⟩
  · cases lines with
    | nil =>
      cases h
      obtain ⟨n, rfl⟩ : ∃ n, fuel = n + 1 := ⟨fuel - 1, by simp [bracketed] at hfuel; omega⟩
      rfl
    | cons line lines =>
      cases h with
      | cons hline hlines =>
        rw [chars_bracketed] at hfuel ⊢
        simp only [List.length_cons, List.length_append, indent] at hfuel
        obtain ⟨n, rfl⟩ : ∃ n, fuel = n + 1 := ⟨fuel - 1, by omega⟩
        have hlength :
            line.chars.length + (otherLines level (lines.map Text.chars)).length ≤ n := by omega
        have hitems := scanItems_lines hline hlines hlength rest
        have hblanks := hline.skipBlanks_eq (level + 1)
          (otherLines level (lines.map Text.chars) ++ ']' :: rest)
        -- the first character tells the list from an empty one
        obtain ⟨c, tail, hcons, -, hbracket, -⟩ := hline.exists_cons
        rw [hcons, List.cons_append] at hitems hblanks
        rw [hcons]
        simp only [List.cons_append, List.append_assoc, List.nil_append] at hblanks ⊢
        exact scanValue_list hblanks hbracket hitems
  · intro line hline
    obtain ⟨v, -, hspells⟩ := exists_left_of_forall₂ h.flip _ (List.mem_map_of_mem hline)
    exact hspells.noReturn

/-- The characters spell an entry of a mapping, of which the name is a text. -/
def SpellsEntry (cs : List Char) (e : Value × Value) : Prop :=
  ∃ name line, e.1 = .text name ∧ (∀ c ∈ name, c.isSurrogate = false) ∧ Spells line e.2 ∧
    cs = (quote name).chars ++ ':' :: ' ' :: line

section Entry

variable {line : List Char} {e : Value × Value} (h : SpellsEntry line e)

include h

theorem SpellsEntry.noReturn : '\r' ∉ line := by
  obtain ⟨name, value, -, hname, hvalue, rfl⟩ := h
  simp [return_notMem_quote hname, hvalue.noReturn]

theorem SpellsEntry.exists_cons : ∃ tail, line = '"' :: tail := by
  obtain ⟨name, value, -, -, -, rfl⟩ := h
  rw [chars_quote]
  exact ⟨_, rfl⟩

/-- The last entry of a mapping is read from its line. -/
theorem scanEntries_last {fuel : Nat} (hfuel : line.length ≤ fuel) {rest tail : List Char}
    (hrest : Ends rest) (hblanks : skipBlanks rest = '\x7d' :: tail) :
    scanEntries (fuel + 1) (line ++ rest) = .ok ([e], tail) := by
  obtain ⟨name, value, hkey, hname, hvalue, rfl⟩ := h
  obtain ⟨key, v⟩ := e
  cases hkey
  have hscan := hvalue.scan fuel rest (by simp at hfuel; omega) hrest
  have hcolon := skipBlanks_cons (c := ':') rfl (' ' :: (value ++ rest))
  rw [chars_quote]
  simp only [List.cons_append, List.append_assoc, List.nil_append]
  rw [scanEntries, scanText_quote hname (lt_length_quoted hname _)]
  dsimp only [bind, Except.bind]
  simp only [hcolon, hvalue.skipBlanks_space, hscan, hblanks]
  rfl

/-- An entry with others after it. -/
theorem scanEntries_more {fuel : Nat} (hfuel : line.length ≤ fuel) {rest tail tail' : List Char}
    {entries : List (Value × Value)} (hrest : Ends rest) (hblanks : skipBlanks rest = ',' :: tail)
    (hothers : scanEntries fuel (skipBlanks tail) = .ok (entries, tail')) :
    scanEntries (fuel + 1) (line ++ rest) = .ok (e :: entries, tail') := by
  obtain ⟨name, value, hkey, hname, hvalue, rfl⟩ := h
  obtain ⟨key, v⟩ := e
  cases hkey
  have hscan := hvalue.scan fuel rest (by simp at hfuel; omega) hrest
  have hcolon := skipBlanks_cons (c := ':') rfl (' ' :: (value ++ rest))
  rw [chars_quote]
  simp only [List.cons_append, List.append_assoc, List.nil_append]
  rw [scanEntries, scanText_quote hname (lt_length_quoted hname _)]
  dsimp only [bind, Except.bind]
  simp only [hcolon, hvalue.skipBlanks_space, hscan, hblanks, hothers]
  rfl

end Entry

/-- The lines of the entries of a mapping are read as the entries, up to the closing brace. -/
theorem scanEntries_lines {line : List Char} {lines : List (List Char)} {e : Value × Value}
    {entries : List (Value × Value)} (hline : SpellsEntry line e)
    (hlines : List.Forall₂ SpellsEntry lines entries) {level fuel : Nat}
    (hfuel : line.length + (otherLines level lines).length ≤ fuel) (rest : List Char) :
    scanEntries fuel (line ++ (otherLines level lines ++ '\x7d' :: rest)) =
      .ok (e :: entries, rest) := by
  induction hlines generalizing line e fuel with
  | nil =>
    simp only [otherLines, List.flatMap_nil, List.nil_append, indent, List.length_cons] at hfuel
    obtain ⟨n, rfl⟩ : ∃ n, fuel = n + 1 := ⟨fuel - 1, by omega⟩
    exact scanEntries_last hline (by omega) (ends_otherLines level [] _)
      (skipBlanks_indent rfl level rest)
  | @cons line' _ lines _ hline' hlines ih =>
    rw [otherLines_cons] at hfuel ⊢
    simp only [List.length_cons, List.length_append, indent] at hfuel
    obtain ⟨n, rfl⟩ : ∃ n, fuel = n + 1 := ⟨fuel - 1, by omega⟩
    have hlength : line'.length + (otherLines level lines).length ≤ n := by omega
    have hothers := ih hline' hlength
    obtain ⟨tail, htail⟩ := hline'.exists_cons
    have hblanks : skipBlanks (indent (level + 1) ++
        (line' ++ (otherLines level lines ++ '\x7d' :: rest))) =
          line' ++ (otherLines level lines ++ '\x7d' :: rest) := by
      rw [htail, List.cons_append]
      exact skipBlanks_indent rfl _ _
    refine scanEntries_more hline (by omega) (ends_cons (.inl rfl) _) (skipBlanks_cons rfl _) ?_
    rw [List.append_eq, List.append_assoc, List.append_assoc, hblanks]
    exact hothers

/-- The lines of the entries of a mapping between its braces spell the mapping. -/
theorem spells_map {lines : List Text} {entries : List (Value × Value)}
    (h : List.Forall₂ SpellsEntry (lines.map Text.chars) entries) (level : Nat) :
    Spells (bracketed '\x7b' '\x7d' level lines).chars (.ofEntries entries) := by
  refine ⟨fun fuel rest hfuel _ => ?_, return_notMem_bracketed (by decide) (by decide) level ?_⟩
  · cases lines with
    | nil =>
      cases h
      obtain ⟨n, rfl⟩ : ∃ n, fuel = n + 1 := ⟨fuel - 1, by simp [bracketed] at hfuel; omega⟩
      rfl
    | cons line lines =>
      cases h with
      | cons hline hlines =>
        rw [chars_bracketed] at hfuel ⊢
        simp only [List.length_cons, List.length_append, indent] at hfuel
        obtain ⟨n, rfl⟩ : ∃ n, fuel = n + 1 := ⟨fuel - 1, by omega⟩
        have hlength :
            line.chars.length + (otherLines level (lines.map Text.chars)).length ≤ n := by omega
        have hentries := scanEntries_lines hline hlines hlength rest
        obtain ⟨tail, hcons⟩ := hline.exists_cons
        have hblanks := skipBlanks_indent (c := '"') rfl (level + 1)
          (tail ++ (otherLines level (lines.map Text.chars) ++ '\x7d' :: rest))
        rw [hcons, List.cons_append] at hentries
        rw [hcons]
        simp only [List.cons_append, List.append_assoc, List.nil_append] at hblanks ⊢
        exact scanValue_map hblanks (by decide) hentries
  · intro line hline
    obtain ⟨e, -, hspells⟩ := exists_left_of_forall₂ h.flip _ (List.mem_map_of_mem hline)
    exact SpellsEntry.noReturn hspells

/-! ## Values -/

theorem mem_bracketed {opening closing : Char} {level : Nat} {lines : List Text} {line : Text}
    (hline : line ∈ lines) {c : CodePoint} (hc : c ∈ line) :
    c ∈ bracketed opening closing level lines := by
  cases lines with
  | nil => cases hline
  | cons first others =>
    simp only [bracketed, List.mem_append, List.mem_cons, List.mem_flatMap]
    rcases List.mem_cons.1 hline with rfl | hother
    · exact .inl (.inl (.inl (.inr hc)))
    · exact .inl (.inl (.inr ⟨line, hother, .inr hc⟩))

/-- Of two lists that correspond, only what is in them matters. -/
theorem forall₂_imp_of_mem {α β : Type} {R S : α → β → Prop} {as : List α} {bs : List β}
    (h : List.Forall₂ R as bs) (himp : ∀ a ∈ as, ∀ b ∈ bs, R a b → S a b) :
    List.Forall₂ S as bs := by
  obtain ⟨hlength, hzip⟩ := List.forall₂_iff_zip.1 h
  refine List.forall₂_iff_zip.2 ⟨hlength, fun hmem => ?_⟩
  obtain ⟨ha, hb⟩ := List.of_mem_zip hmem
  exact himp _ ha _ hb (hzip hmem)

section Write

variable {around : List Mark} {level : Nat}

/-- The items of a list spell it if each of them is spelled. -/
theorem spells_of_writeItems {vs : List Value} {lines : List Text}
    (h : writeItems around level vs = .ok lines)
    (hspells : ∀ v ∈ vs, ∀ line ∈ lines, writeAt around level v = .ok line →
      Spells line.chars (image v)) :
    List.Forall₂ Spells (lines.map Text.chars) (imageAll vs) := by
  rw [imageAll_eq_map, List.forall₂_map_left_iff, List.forall₂_map_right_iff]
  exact forall₂_imp_of_mem (forall₂_of_writeItems h)
    fun line hline v hv hwrite => hspells v hv line hline hwrite

/-- The entries of a mapping spell it if the values in them are spelled. -/
theorem spells_of_writeEntries {entries : List (Value × Value)} {lines : List Text}
    (h : writeEntries around level entries = .ok lines)
    (hlines : ∀ line ∈ lines, ∀ c ∈ line, c.isSurrogate = false)
    (hspells : ∀ e ∈ entries, ∀ text, writeAt around level e.2 = .ok text →
      (∀ c ∈ text, c.isSurrogate = false) → Spells text.chars (image e.2)) :
    List.Forall₂ SpellsEntry (lines.map Text.chars) (imageEntries entries) := by
  rw [imageEntries_eq_map, List.forall₂_map_left_iff, List.forall₂_map_right_iff]
  refine forall₂_imp_of_mem (forall₂_of_writeEntries h) ?_
  rintro line hline e he ⟨name, value, hname, hvalue, rfl⟩
  -- the line has a surrogate if the name or the value has one
  obtain ⟨hbefore, hafter⟩ := List.forall_mem_append.1 (hlines _ hline)
  rw [writeName_eq_ok hname] at hbefore
  have hquoted := isSurrogate_of_mem_quote (List.forall_mem_append.1 hbefore).1
  refine ⟨nameText e.1, value.chars, rfl, hquoted, hspells e he value hvalue hafter, ?_⟩
  rw [writeName_eq_ok hname, Text.chars_append, Text.chars_append, Text.chars_ofChars,
    List.append_assoc]
  rfl

/-- The text of a value spells its image. -/
theorem spells_of_writeAt {v : Value} {text : Text} (h : writeAt around level v = .ok text)
    (htext : ∀ c ∈ text, c.isSurrogate = false) : Spells text.chars (image v) := by
  induction v using Value.induct_parts generalizing around level text with | _ v ih
  cases v with
  | shared mark v =>
    rw [writeAt] at h
    split at h
    · cases h
    · exact ih v List.mem_cons_self h htext
  | list items =>
    obtain ⟨lines, hlines, h⟩ := bind_eq_ok_iff.1 h
    cases h
    exact spells_list (spells_of_writeItems hlines fun v hv line hline hwrite =>
      ih v hv hwrite fun c hc => htext c (mem_bracketed hline hc)) level
  | tuple items =>
    obtain ⟨lines, hlines, h⟩ := bind_eq_ok_iff.1 h
    cases h
    exact spells_list (spells_of_writeItems hlines fun v hv line hline hwrite =>
      ih v hv hwrite fun c hc => htext c (mem_bracketed hline hc)) level
  | map entries =>
    obtain ⟨lines, hlines, h⟩ := bind_eq_ok_iff.1 h
    cases h
    exact spells_map (spells_of_writeEntries hlines
      (fun line hline c hc => htext c (mem_bracketed hline hc))
      fun e he text hwrite htext => ih e.2 (Value.value_mem_parts he) hwrite htext) level
  | text t =>
    cases h
    exact spells_quote (isSurrogate_of_mem_quote htext)
  | int n =>
    obtain ⟨digits, hdigits, h⟩ := bind_eq_ok_iff.1 h
    cases h
    rw [integerText_eq_ok hdigits]
    exact spells_integer (isSpellable_of_integerText hdigits)
  | float x =>
    cases h
    exact spells_float x
  | bool b =>
    cases h
    rw [Text.chars_ofString]
    cases b with
    | false => exact spells_names ("false".toList, .bool false) (by simp [names])
    | true => exact spells_names ("true".toList, .bool true) (by simp [names])
  | null =>
    cases h
    rw [Text.chars_ofString]
    exact spells_names ("null".toList, .null) (by simp [names])
  | bytes bs => cases h
  | date d => cases h
  | moment m => cases h
  | set items => cases h
  | cycle mark => cases h

end Write

/-! ## Whole texts -/

theorem Spells.read_eq {cs : List Char} {v : Value} (h : Spells cs v) :
    read (cs ++ ['\n']) = .ok v := by
  obtain ⟨c, tail, rfl, hc, -, hmark⟩ := h.exists_cons
  have hscan := h.scan (2 * (c :: tail ++ ['\n']).length + 2) ['\n']
    (by rw [List.length_append]; omega) (ends_cons (.inr rfl) [])
  rw [List.cons_append] at hscan ⊢
  rw [read, skipBlanks_cons hc, hscan]
  · rfl
  · rintro _ ⟨⟩
    exact hmark rfl

/-- The text of a value spells its image and ends the last line. -/
theorem exists_spells_of_write {v : Value} {text : Text} (h : write v = .ok text)
    (htext : ∀ c ∈ text, c.isSurrogate = false) :
    ∃ cs, text.chars = cs ++ ['\n'] ∧ Spells cs (image v) := by
  unfold write at h
  cases hline : writeAt [] 0 v with
  | error e =>
    rw [hline] at h
    cases h
  | ok line =>
    rw [hline] at h
    cases h
    exact ⟨line.chars, Text.chars_append _ _,
      spells_of_writeAt hline (List.forall_mem_append.1 htext).1⟩

/-- The text of a value is read as the image of the value. -/
theorem read_of_write {v : Value} {text : Text} (h : write v = .ok text)
    (htext : ∀ c ∈ text, c.isSurrogate = false) : read text.chars = .ok (image v) := by
  obtain ⟨cs, hchars, hspells⟩ := exists_spells_of_write h htext
  rw [hchars]
  exact hspells.read_eq

/-- The text of a value has line feeds for all line ends. -/
theorem return_notMem_of_write {v : Value} {text : Text} (h : write v = .ok text)
    (htext : ∀ c ∈ text, c.isSurrogate = false) : '\r' ∉ text.chars := by
  obtain ⟨cs, hchars, hspells⟩ := exists_spells_of_write h htext
  rw [hchars, List.mem_append, not_or]
  exact ⟨hspells.noReturn, by decide⟩

end SiteRules.Json
