import SiteRules.Proofs.Yaml.BlockScalar
import SiteRules.Proofs.Yaml.DoubleQuoted
import SiteRules.Proofs.Yaml.Node
import SiteRules.Proofs.Yaml.SingleQuoted

/-!
# Scalars on a line

A scalar with its name and its tag is written as the tokens of a node (`Draft.exists_line`). In
front of a colon it is written on one line, in its spelling (`Style.spelling`).
-/

namespace SiteRules.Yaml

/-! ## Spellings on one line -/

/-- The characters of a scalar on one line. -/
def Style.spelling (style : Style) (t : Text) : List Char :=
  match style with
  | plain => t.map CodePoint.toChar
  | singleQuoted => '\'' :: (Sheet.doubleQuotes t).map CodePoint.toChar ++ ['\'']
  | _ =>
    '"' :: (t.flatMap fun c => if Sheet.isEscaped c then Sheet.escape c else [c.toChar]) ++ ['"']

namespace Sheet

variable {s s' : Sheet} {cs ds : List Char} {indent : Nat}

theorem Prints.eq_of_written (h : Prints s s' cs) (h' : s'.written = ds.reverse ++ s.written) :
    cs = ds :=
  List.reverse_injective (List.append_cancel_right (h.written.symm.trans h'))

theorem Prints.unique (h : Prints s s' cs) (h' : Prints s s' ds) : cs = ds :=
  h.eq_of_written h'.written

theorem putText_putText (s : Sheet) (t u : Text) :
    (s.putText t).putText u = s.putText (t ++ u) := by
  rw [putText, putText, putText, put, put, put, List.map_append, List.reverse_append,
    List.append_assoc, List.length_append, Nat.add_assoc]

theorem putPlainRuns_whole (rs : List (Run × Text)) (s : Sheet) :
    putPlainRuns indent false rs s = s.putText (ofRuns rs) := by
  induction rs generalizing s with
  | nil => rfl
  | cons r rest ih =>
    rw [putPlainRuns, Bool.and_false, if_neg Bool.false_ne_true, ih, putText_putText]
    rfl

theorem putSingleQuotedRuns_whole {rs : List (Run × Text)} (hruns : AreRuns rs)
    (hlines : ∀ c ∈ ofRuns rs, Style.isBreak c = false) (first : Bool) (s : Sheet) :
    putSingleQuotedRuns indent false first rs s = s.putText (doubleQuotes (ofRuns rs)) := by
  induction hruns generalizing first s with
  | nil => rfl
  | @cons kind run rest hne hkind _ _ ih =>
    obtain ⟨hrun, hrest⟩ := List.forall_mem_append.1 hlines
    obtain ⟨c, run', rfl⟩ := List.exists_cons_of_ne_nil hne
    have hall : ofRuns ((kind, c :: run') :: rest) = (c :: run') ++ ofRuns rest := rfl
    have hdouble : ∀ u v : Text, doubleQuotes (u ++ v) = doubleQuotes u ++ doubleQuotes v :=
      fun u v => List.flatMap_append
    rw [hall, hdouble, ← putText_putText]
    cases kind with
    | breaks =>
      have hbreak := Run.of_eq_breaks (hkind c List.mem_cons_self)
      rw [hrun c List.mem_cons_self] at hbreak
      cases hbreak
    | words =>
      rw [putSingleQuotedRuns]
      exact ih hrest _ _
    | blanks =>
      have hblanks : doubleQuotes (c :: run') = c :: run' := by
        rw [doubleQuotes, List.flatMap_congr (g := fun c => [c]), List.flatMap_singleton']
        intro d hd
        rw [Run.of_eq_blanks (hkind d hd)]
        decide
      rw [hblanks, putSingleQuotedRuns]
      simp only [Bool.and_false, Bool.false_and, Bool.false_eq_true, if_false]
      exact ih hrest _ _

theorem putDoubleQuotedFrom_whole {total : Nat} (t : Text) (place : Nat) (held : Text) (s : Sheet) :
    putDoubleQuotedFrom indent false total place held t s =
      s.put (held.reverse.map CodePoint.toChar ++
        t.flatMap fun c => if isEscaped c then escape c else [c.toChar]) := by
  have hput : ∀ (s : Sheet) (cs ds : List Char), (s.put cs).put ds = s.put (cs ++ ds) := by
    intro s cs ds
    rw [put, put, put, List.reverse_append, List.append_assoc, List.length_append, Nat.add_assoc]
  induction t generalizing place held s with
  | nil =>
    rw [putDoubleQuotedFrom, List.flatMap_nil, List.append_nil]
    rfl
  | cons c rest ih =>
    rw [putDoubleQuotedFrom, List.flatMap_cons]
    simp only [Bool.and_false, Bool.false_and, Bool.false_eq_true, if_false]
    split
    · rw [ih, putText, hput, hput]
      simp
    · rw [ih]
      simp

/-- Writes a scalar in a style. -/
def putStyle (s : Sheet) (style : Style) (indent : Nat) (split : Bool) (t : Text) : Sheet :=
  match style with
  | .plain => s.putPlain indent split t
  | .singleQuoted => s.putSingleQuoted indent split t
  | .doubleQuoted => s.putDoubleQuoted indent split t
  | .literal => s.putLiteral indent t

/-- On one line a scalar is written in its spelling. -/
theorem written_spelling (s : Sheet) {t : Text} (hne : t ≠ [])
    (hlines : Style.isMultiline t = false) {style : Style} (hstyle : style ≠ .literal) :
    (s.putStyle style indent false t).written =
      (s.lead true ++ style.spelling t).reverse ++ s.written := by
  have hnone : ∀ c ∈ t, Style.isBreak c = false := fun c hc =>
    Bool.eq_false_iff.2 (List.any_eq_false.1 hlines c hc)
  cases style with
  | plain =>
    show (s.putPlain indent false t).written = _
    rw [putPlain, if_neg (by simpa using hne), putPlainRuns_whole, (runs_spec t).2, lead]
    cases s.spaced <;> simp [putText, put, inScalar, Style.spelling]
  | singleQuoted =>
    show (s.putSingleQuoted indent false t).written = _
    rw [putSingleQuoted, putSingleQuotedRuns_whole (runs_spec t).1 (by rwa [(runs_spec t).2]),
      (runs_spec t).2, mark_eq, mark_eq, lead, lead]
    simp [putText, put, Style.spelling]
  | doubleQuoted =>
    show (s.putDoubleQuoted indent false t).written = _
    rw [putDoubleQuoted, putDoubleQuotedFrom_whole, mark_eq, mark_eq, lead, lead]
    simp [put, Style.spelling]
  | literal => exact absurd rfl hstyle

end Sheet

/-! ## Styles -/

namespace Style

variable {tag : Tag} {t : Text} {asLines asKey : Bool}

theorem of_choose_plain (h : choose tag t asLines asKey = plain) :
    Tag.ofPlain t = tag ∧ allowsPlain t = true := by
  rw [choose] at h
  split at h
  · next hplain =>
    simp only [Bool.and_eq_true, decide_eq_true_eq] at hplain
    exact ⟨hplain.1.1.2, hplain.2⟩
  · split at h
    · cases h
    · split at h <;> cases h

theorem of_choose_singleQuoted (h : choose tag t asLines asKey = singleQuoted) :
    allowsSingleQuoted t = true := by
  rw [choose] at h
  split at h
  · cases h
  · split at h
    · cases h
    · split at h
      · next hsingle =>
        simp only [Bool.and_eq_true] at hsingle
        exact hsingle.1.2
      · cases h

theorem of_choose_literal (h : choose tag t asLines asKey = literal) :
    asLines = true ∧ asKey = false ∧ allowsLiteral t = true := by
  rw [choose] at h
  split at h
  · cases h
  · split at h
    · next hliteral =>
      simp only [Bool.and_eq_true, Bool.not_eq_true'] at hliteral
      exact ⟨hliteral.1.1, hliteral.1.2, hliteral.2⟩
    · split at h <;> cases h

/-- A spelling on one line holds no line end. -/
theorem isBreak_spelling {style : Style} (hlines : isMultiline t = false)
    (hspecial : style = plain ∨ style = singleQuoted → needsEscapes t = false) :
    ∀ d ∈ style.spelling t, Yaml.isBreak d = false := by
  have hnone : ∀ c ∈ t, isBreak c = false := fun c hc =>
    Bool.eq_false_iff.2 (List.any_eq_false.1 hlines c hc)
  have hraw : style = plain ∨ style = singleQuoted → ∀ c ∈ t, Yaml.isBreak c.toChar = false := by
    intro hstyle c hc
    have hescapes := hspecial hstyle
    simp only [needsEscapes, Bool.or_eq_false_iff] at hescapes
    have hwritten := isWritten_of_not_isSpecial
      (Bool.eq_false_iff.2 (List.any_eq_false.1 hescapes.1 c hc))
    rw [hwritten.2.2.1, hnone c hc]
  have hquoted : ∀ (quote : Char) (cs : List Char), Yaml.isBreak quote = false →
      (∀ d ∈ cs, Yaml.isBreak d = false) → ∀ d ∈ quote :: cs ++ [quote], Yaml.isBreak d = false :=
    fun quote cs hquote hcs => List.forall_mem_append.2
      ⟨List.forall_mem_cons.2 ⟨hquote, hcs⟩, List.forall_mem_singleton.2 hquote⟩
  have hdouble : ∀ d ∈ t.flatMap fun c =>
      if Sheet.isEscaped c then Sheet.escape c else [c.toChar], Yaml.isBreak d = false := by
    intro d hd
    obtain ⟨c, -, hd⟩ := List.mem_flatMap.1 hd
    split at hd
    · exact (isWritten_of_mem_escape c d hd).2
    · next hescaped =>
      rw [List.mem_singleton.1 hd]
      exact (exists_char_of_not_isEscaped (Bool.eq_false_iff.2 hescaped)).2.2.1
  cases style with
  | plain => exact List.forall_mem_map.2 (hraw (.inl rfl))
  | singleQuoted =>
    refine hquoted '\'' _ (by decide) (List.forall_mem_map.2 fun c hc => ?_)
    obtain ⟨a, ha, hc⟩ := List.mem_flatMap.1 hc
    have hmem : c = a := by
      split at hc
      · simpa using hc
      · simpa using hc
    rw [hmem]
    exact hraw (.inr rfl) a ha
  | doubleQuoted | literal => exact hquoted '"' _ (by decide) hdouble

end Style

/-! ## Tokens of scalars -/

namespace Draft

/-- The token of a tag in its short form. -/
def tagToken (tag : Tag) : Token :=
  .tag ⟨some (Text.ofChars ['!', '!']), Text.ofChars (tag.short.toList.drop 2)⟩

/-- The token of a name, where there is one. -/
def nameTokens : Option Nat → List Token
  | none => []
  | some n => [.anchor (nameText n)]

/-- The tokens of a scalar: a tag that its spelling does not tell, and the scalar. -/
def scalarTokens (asKey : Bool) (tag : Tag) (content : Text) (asLines : Bool) : List Token :=
  let style := Style.choose tag content asLines asKey
  (if style = .plain ∨ tag = .str then [] else [tagToken tag]) ++ [.scalar (style = .plain) content]

/-- The width of a scalar that stands in front of a colon, with its name and its tag. -/
def keyWidth (name : Option Nat) (tag : Tag) (content : Text) (asLines : Bool) : Nat :=
  let style := Style.choose tag content asLines true
  ((name.map fun n => (nameText n).length + 2).getD 0) +
    (if style = .plain ∨ tag = .str then 0 else tag.short.length + 1) +
    (style.spelling content).length

/-- A scalar in a block at a column can be read back. A line end that is numbered 85 in hexadecimal
would be read as a line feed from between single quotes, and a backslash would be read from between
double quotes where the indentation is past the width of a line and a blank follows an escape. -/
structure ReadsBack (column : Nat) (asKey : Bool) (tag : Tag) (content : Text) (asLines : Bool) :
    Prop where
  known : ∀ uri, tag ≠ .unknown uri
  plain : Style.choose tag content asLines asKey = .plain → content ≠ []
  singleQuoted : Style.choose tag content asLines asKey = .singleQuoted →
    CodePoint.ofChar '\x85' ∉ content
  doubleQuoted : Style.choose tag content asLines asKey = .doubleQuoted → asKey = false →
    column + 2 < Sheet.width ∨ Sheet.holdsEscapedGap content.tail = false
  literal : Style.choose tag content asLines asKey = .literal → ∃ l ls,
    content = Text.ofChars (joinLines (l :: ls)) ∧ IsLine l ∧ ∀ l ∈ ls, IsLine l

open Lexer

variable {column : Nat} {asKey asLines : Bool} {tag : Tag} {content : Text}

/-- A scalar without lines of its own is written as one token. -/
theorem exists_line_style (s : Sheet) (h : ReadsBack column asKey tag content asLines)
    (hstyle : Style.choose tag content asLines asKey ≠ .literal) :
    ∃ cs, Line column s
      (s.putStyle (Style.choose tag content asLines asKey) (column + 2) (!asKey) content) cs
      [.scalar (Style.choose tag content asLines asKey = .plain) content] := by
  have hmark : ∀ (s : Sheet) (quote : Char), (s.mark [quote] false).indented = false := by
    intro s quote
    rw [Sheet.mark_eq, Bool.and_false]
  have hends : ∀ block tail, EndsNode column block tail → Ends block tail := fun _ _ h => h.2
  cases hchoose : Style.choose tag content asLines asKey with
  | plain =>
    have hplain := (Style.of_choose_plain hchoose).2
    obtain ⟨cs, hprints, -, hindented, word, hword⟩ := s.reads_putPlain (!asKey)
      (column + 2) (column + 1) (h.plain hchoose) hplain (by omega) (by omega)
    -- how far the block around a scalar is indented does not change what is written
    have hreads : ∀ block ≤ (column : Int), PlainReads (block + 1) cs content := by
      intro block hblock
      obtain ⟨ds, hprints', hreads, -⟩ := s.reads_putPlain (!asKey) (column + 2) (block + 1)
        (h.plain hchoose) hplain (by omega) (by push_cast; omega)
      rwa [List.append_cancel_left (hprints.unique hprints')]
    exact ⟨_, .node (spelled_plain hword hplain hreads) hprints hindented⟩
  | singleQuoted =>
    obtain ⟨cs, hprints, hreads⟩ := s.reads_putSingleQuoted
      (show 0 < column + 2 by omega) (Style.of_choose_singleQuoted hchoose)
      (h.singleQuoted hchoose)
    rw [List.append_assoc] at hprints
    exact ⟨_, .node ((spelled_quoted hreads).mono hends) hprints (hmark _ _)⟩
  | doubleQuoted =>
    have hpos : (!asKey) = true → 0 < column + 2 := fun _ => Nat.succ_pos _
    obtain ⟨cs, hprints, hreads⟩ := Sheet.reads_putDoubleQuoted hpos s content
      fun hsplit => h.doubleQuoted hchoose (by simpa using hsplit)
    rw [List.append_assoc] at hprints
    exact ⟨_, .node ((spelled_quoted hreads).mono hends) hprints (hmark _ _)⟩
  | literal => exact absurd hchoose hstyle

/-- What is written in front of a colon, on one line. -/
theorem exists_line_spelling (s : Sheet) (h : ReadsBack column true tag content asLines)
    (hne : content ≠ []) (hlines : Style.isMultiline content = false) :
    ∃ cs, Line column s
        (s.putStyle (Style.choose tag content asLines true) (column + 2) false content) cs
        [.scalar (Style.choose tag content asLines true = .plain) content] ∧
      (∀ d ∈ cs, isBreak d = false) ∧ cs.length = (s.lead true).length +
        ((Style.choose tag content asLines true).spelling content).length := by
  have hstyle : Style.choose tag content asLines true ≠ .literal := by
    intro hliteral
    cases (Style.of_choose_literal hliteral).2.1
  obtain ⟨cs, hline⟩ := exists_line_style s h hstyle
  have hcs := hline.prints.eq_of_written (s.written_spelling hne hlines hstyle)
  refine ⟨cs, hline, ?_, ?_⟩
  · rw [hcs]
    refine List.forall_mem_append.2 ⟨isBreak_lead s, Style.isBreak_spelling hlines ?_⟩
    rintro (hplain | hsingle)
    · have hallows := (Style.of_choose_plain hplain).2
      simp only [Style.allowsPlain, Bool.not_eq_true', Bool.or_eq_false_iff] at hallows
      exact hallows.1.1.1
    · have hallows := Style.of_choose_singleQuoted hsingle
      simp only [Style.allowsSingleQuoted, Bool.not_eq_true', Bool.or_eq_false_iff] at hallows
      exact hallows.1
  · rw [hcs, List.length_append]

/-- The sheet behind the mark of a property, and the token of the property. -/
theorem line_property {t : Token} {mark : List Char} {s s' : Sheet} {ds : List Char}
    {ts : List Token} (hspelled : Spelled (fun _ => StartsGap) t mark)
    (hmark : ∀ d ∈ mark, isWritten d = true ∧ isBreak d = false)
    (h : Line column (s.mark mark true) s' ds ts) :
    Line column s s' (s.lead true ++ mark ++ ds) (t :: ts) := by
  have hsheet := s.mark_eq mark true false false
  exact .property hspelled (s.prints_mark _ _ _ hmark) (fun d hd => (hmark d hd).2)
    (by rw [hsheet, Bool.and_false]) (by rw [hsheet]) h

/-- The short form of a tag is found as its token. -/
theorem spelled_short (hknown : ∀ uri, tag ≠ .unknown uri) :
    Spelled (fun _ => StartsGap) (tagToken tag) tag.short.toList ∧
      ∀ d ∈ tag.short.toList, isWritten d = true ∧ isBreak d = false := by
  obtain ⟨name, hshort, hne, hname, -⟩ := Tag.exists_short hknown
  rw [tagToken, hshort]
  exact ⟨spelled_tag hne hname, List.forall_mem_cons.2 ⟨by decide, List.forall_mem_cons.2
    ⟨by decide, fun d hd => isWritten_of_isNamePart (hname d hd)⟩⟩⟩

theorem isWritten_nameText (mark : Char) (hmark : isWritten mark = true ∧ isBreak mark = false)
    (n : Nat) : ∀ d ∈ mark :: nameText n, isWritten d = true ∧ isBreak d = false :=
  List.forall_mem_cons.2
    ⟨hmark, fun d hd => isWritten_of_isNamePart (isNamePart_of_mem_nameText d hd)⟩

/-- A node is found behind its name. -/
theorem exists_line_name (name : Option Nat) (s : Sheet) {s' : Sheet} {ds : List Char}
    {ts : List Token} (h : Line column (putName name s) s' ds ts) :
    ∃ cs, Line column s s' cs (nameTokens name ++ ts) ∧
      ((∀ d ∈ ds, isBreak d = false) → ∀ d ∈ cs, isBreak d = false) ∧
      cs.length + ((putName name s).lead true).length =
        (s.lead true).length + ((name.map fun n => (nameText n).length + 2).getD 0) +
          ds.length := by
  cases name with
  | none => exact ⟨ds, h, id, by rw [putName]; simp; omega⟩
  | some n =>
    have hmark := isWritten_nameText '&' ⟨by decide, by decide⟩ n
    have hspaced : (s.mark ('&' :: nameText n) true).lead true = [' '] := by
      rw [s.mark_eq, Sheet.lead]
      rfl
    refine ⟨_, line_property (spelled_anchor n) hmark h, fun hds => ?_, ?_⟩
    · exact List.forall_mem_append.2 ⟨List.forall_mem_append.2 ⟨isBreak_lead s,
        fun d hd => (hmark d hd).2⟩, hds⟩
    · rw [putName, hspaced]
      simp
      omega

/-- Writes the tag of a scalar that its spelling does not tell. -/
def putTag (asKey : Bool) (tag : Tag) (content : Text) (asLines : Bool) (s : Sheet) : Sheet :=
  if Style.choose tag content asLines asKey = .plain ∨ tag = .str then s
  else s.mark tag.short.toList true

theorem putScalar_eq (indent : Option Nat) (s : Sheet) :
    putScalar indent asKey tag content asLines s =
      (putTag asKey tag content asLines s).putStyle (Style.choose tag content asLines asKey)
        (indent.getD 0 + 2) (!asKey) content := by
  have htag : (if (if Style.choose tag content asLines asKey = .plain then Tag.ofPlain content = tag
      else tag = .str) then s else s.mark tag.short.toList true) =
        putTag asKey tag content asLines s := by
    rw [putTag]
    by_cases hplain : Style.choose tag content asLines asKey = .plain
    · have htag := (Style.of_choose_plain hplain).1
      simp only [hplain, if_true, htag, true_or]
    · simp only [hplain, if_false, false_or]
  rw [putScalar, htag]
  cases Style.choose tag content asLines asKey <;> rfl

/-- A scalar with its tag is written as the tokens of a node. -/
theorem exists_line_scalar (s : Sheet) (h : ReadsBack column asKey tag content asLines)
    (hstyle : Style.choose tag content asLines asKey ≠ .literal) :
    ∃ cs, Line column s (putScalar (some column) asKey tag content asLines s) cs
      (scalarTokens asKey tag content asLines) := by
  rw [putScalar_eq, scalarTokens, putTag]
  dsimp only [Option.getD_some]
  split
  · exact exists_line_style s h hstyle
  · obtain ⟨cs, hline⟩ := exists_line_style (s.mark tag.short.toList true) h hstyle
    obtain ⟨hspelled, hmark⟩ := spelled_short h.known
    exact ⟨_, line_property hspelled hmark hline⟩

/-- A key is written on one line, in its width. -/
theorem exists_line_key (name : Option Nat) (s : Sheet) (hspaced : s.spaced = true)
    (h : ReadsBack column true tag content asLines) (hne : content ≠ [])
    (hlines : Style.isMultiline content = false) :
    ∃ cs, Line column s (putScalar (some column) true tag content asLines (putName name s)) cs
        (nameTokens name ++ scalarTokens true tag content asLines) ∧
      (∀ d ∈ cs, isBreak d = false) ∧ cs.length = keyWidth name tag content asLines := by
  obtain ⟨ds, hline, hinline, hlength⟩ : ∃ ds,
      Line column (putName name s) (putScalar (some column) true tag content asLines
        (putName name s)) ds (scalarTokens true tag content asLines) ∧
      (∀ d ∈ ds, isBreak d = false) ∧ ds.length = ((putName name s).lead true).length +
        (if Style.choose tag content asLines true = .plain ∨ tag = .str then 0
          else tag.short.length + 1) +
        ((Style.choose tag content asLines true).spelling content).length := by
    rw [putScalar_eq, scalarTokens, putTag]
    dsimp only [Option.getD_some]
    split
    · exact exists_line_spelling _ h hne hlines
    · obtain ⟨ds, hline, hinline, hlength⟩ :=
        exists_line_spelling ((putName name s).mark tag.short.toList true) h hne hlines
      obtain ⟨hspelled, hmark⟩ := spelled_short h.known
      have hlead : ((putName name s).mark tag.short.toList true).lead true = [' '] := by
        rw [Sheet.mark_eq, Sheet.lead]
        rfl
      refine ⟨_, line_property hspelled hmark hline, ?_, ?_⟩
      · exact List.forall_mem_append.2 ⟨List.forall_mem_append.2 ⟨isBreak_lead _,
          fun d hd => (hmark d hd).2⟩, hinline⟩
      · rw [List.length_append, List.length_append, hlength, hlead, String.length_toList]
        simp
        omega
  obtain ⟨cs, hname, hinline', hlength'⟩ := exists_line_name name s hline
  refine ⟨cs, hname, hinline' hinline, ?_⟩
  have hlead : s.lead true = [] := by
    rw [Sheet.lead, hspaced]
    rfl
  rw [hlead, hlength, List.length_nil] at hlength'
  rw [keyWidth]
  omega

end Draft

end SiteRules.Yaml
