import SiteRules.Proofs.Number.Decimal
import SiteRules.Proofs.Text.Utf8
import SiteRules.Proofs.Yaml.Quoted

/-!
# Double quotes

What is written between double quotes is read as the text that was written
(`Sheet.reads_putDoubleQuoted`). A line that is broken behind an escape, in front of a blank, is
broken twice where the indentation alone is past the width of a line, and then a backslash is read
that was not in the text. So where lines are broken at all, the indentation must be less than that,
or no blank inside the text may follow an escape (`Sheet.holdsEscapedGap`).
-/

namespace SiteRules.Yaml

/-! ## Code points that stand for themselves -/

/-- A code point that is written as it is, is a character, and a blank if it is a gap at all. -/
theorem exists_char_of_not_isEscaped {c : CodePoint} (h : Sheet.isEscaped c = false) :
    c = CodePoint.ofChar c.toChar ∧ isWritten c.toChar = true ∧ isBreak c.toChar = false ∧
      c.toChar ≠ '"' ∧ c.toChar ≠ '\\' ∧ (isSpace c.toChar = true → c.toChar = ' ') := by
  simp only [Sheet.isEscaped, Bool.or_eq_false_iff, Bool.not_eq_false', Bool.or_eq_true,
    Bool.and_eq_true, decide_eq_true_eq, decide_eq_false_iff_not] at h
  obtain ⟨⟨⟨⟨⟨⟨hquote, hslash⟩, hnext⟩, hline⟩, hparagraph⟩, hmark⟩, hrange⟩ := h
  have hsurrogate : c.isSurrogate = false := by
    rw [CodePoint.isSurrogate, Bool.and_eq_false_iff, decide_eq_false_iff_not,
      decide_eq_false_iff_not]
    omega
  have hchar := CodePoint.ofChar_toChar hsurrogate
  generalize c.toChar = d at hchar ⊢
  subst hchar
  have hval : (CodePoint.ofChar d).val = d.toNat := rfl
  rw [hval] at hmark hrange
  have hlow : ∀ e : Char, e.toNat < 0x20 → d ≠ e := fun e he => ne_of_toNat (by omega)
  refine ⟨rfl, isWritten_of_toNat (by omega) hmark, ?_, ne_of_ofChar_ne hquote,
    ne_of_ofChar_ne hslash, fun hspace => ?_⟩
  · rw [isBreak, decide_eq_false (hlow '\r' (by decide)), decide_eq_false (hlow '\n' (by decide)),
      decide_eq_false (ne_of_ofChar_ne hnext), decide_eq_false (ne_of_ofChar_ne hline),
      decide_eq_false (ne_of_ofChar_ne hparagraph)]
    rfl
  · rw [isSpace, Bool.or_eq_true, decide_eq_true_eq, decide_eq_true_eq] at hspace
    exact hspace.resolve_right (hlow '\t' (by decide))

/-! ## Hexadecimal digits -/

theorem hexDigit_spec {k : Nat} (h : k < 16) : hexValue? (Nat.digitChar k).toUpper = some k ∧
    isWritten (Nat.digitChar k).toUpper = true ∧ isBreak (Nat.digitChar k).toUpper = false := by
  have hall : ∀ k < 16, hexValue? (Nat.digitChar k).toUpper = some k ∧
      isWritten (Nat.digitChar k).toUpper = true ∧ isBreak (Nat.digitChar k).toUpper = false := by
    decide
  exact hall k h

theorem hexNumber?_concat (ds : List Char) (d : Char) : hexNumber? (ds ++ [d]) =
    (hexNumber? ds).bind fun n => (hexValue? d).map (16 * n + ·) := by
  rw [hexNumber?, List.foldlM_append, ← hexNumber?]
  cases hexNumber? ds with
  | none => rfl
  | some n => cases hvalue : hexValue? d <;> simp [hvalue]

/-- The number of hexadecimal digits is the one that they were written for. -/
theorem hexNumber?_toDigits (n : Nat) : hexNumber? ((Nat.toDigits 16 n).map Char.toUpper) = some n ∧
    ∀ d ∈ (Nat.toDigits 16 n).map Char.toUpper, isWritten d = true ∧ isBreak d = false := by
  induction n using Nat.strongRecOn with | _ n ih
  by_cases hlt : n < 16
  · obtain ⟨hvalue, hwritten⟩ := hexDigit_spec hlt
    rw [Nat.toDigits_of_lt_base hlt]
    refine ⟨?_, List.forall_mem_singleton.2 hwritten⟩
    rw [List.map_singleton, ← List.nil_append [Char.toUpper _], hexNumber?_concat, hvalue]
    simp [hexNumber?]
  · obtain ⟨hvalue, hwritten⟩ := hexDigit_spec (Nat.mod_lt n (show 0 < 16 by decide))
    obtain ⟨hfront, hall⟩ := ih (n / 16) (by omega)
    rw [Nat.toDigits_of_base_le (by decide) (by omega), List.map_append, List.map_singleton]
    refine ⟨?_, List.forall_mem_append.2 ⟨hall, List.forall_mem_singleton.2 hwritten⟩⟩
    rw [hexNumber?_concat, hfront, hvalue, Option.bind_some, Option.map_some, Nat.div_add_mod]

theorem hexNumber?_zeros (k : Nat) (ds : List Char) :
    hexNumber? (List.replicate k '0' ++ ds) = hexNumber? ds := by
  induction k with
  | zero => rfl
  | succ k ih =>
    rw [← ih]
    rfl

theorem capitalHex_eq (width n : Nat) : Sheet.capitalHex width n =
    List.replicate (width - (Nat.toDigits 16 n).length) '0' ++
      (Nat.toDigits 16 n).map Char.toUpper := by
  rw [Sheet.capitalHex, hexDigits]
  simp

theorem hexNumber?_capitalHex (width n : Nat) : hexNumber? (Sheet.capitalHex width n) = some n := by
  rw [capitalHex_eq, hexNumber?_zeros]
  exact (hexNumber?_toDigits n).1

theorem length_capitalHex {width n : Nat} (hwidth : 0 < width) (h : n < 16 ^ width) :
    (Sheet.capitalHex width n).length = width := by
  have hle := (Nat.length_toDigits_le_iff (b := 16) (by decide) hwidth).2 h
  rw [capitalHex_eq, List.length_append, List.length_replicate, List.length_map]
  omega

theorem isWritten_of_mem_capitalHex {width n : Nat} :
    ∀ d ∈ Sheet.capitalHex width n, isWritten d = true ∧ isBreak d = false := by
  rw [capitalHex_eq]
  refine List.forall_mem_append.2 ⟨fun d hd => ?_, (hexNumber?_toDigits n).2⟩
  rw [List.eq_of_mem_replicate hd]
  exact ⟨rfl, rfl⟩

/-! ## Escapes -/

/-- The letters of escapes are read as what they are written for. -/
theorem lookup_escapes {c : CodePoint} {letter : Char}
    (h : Sheet.escapeLetters.lookup c.val = some letter) :
    escapes.lookup letter = some (Char.ofNat c.val) ∧ CodePoint.ofChar (Char.ofNat c.val) = c ∧
      isWritten letter = true ∧ isBreak letter = false := by
  have hall : ∀ e ∈ Sheet.escapeLetters, escapes.lookup e.2 = some (Char.ofNat e.1) ∧
      (Char.ofNat e.1).toNat = e.1 ∧ isWritten e.2 = true ∧ isBreak e.2 = false := by decide
  obtain ⟨front, back, heq, -⟩ := List.lookup_eq_some_iff.1 h
  obtain ⟨hletter, hval, hwritten⟩ := hall (c.val, letter) (by
    rw [heq]
    exact List.mem_append_right _ List.mem_cons_self)
  exact ⟨hletter, CodePoint.ext hval, hwritten⟩

variable {cs : List Char} {t : Text}

/-- An escape is read as the code point that it is written for. -/
theorem QuotedReads.escape (h : QuotedReads true cs t) (c : CodePoint) :
    QuotedReads true (Sheet.escape c ++ cs) (c :: t) := by
  rw [Sheet.escape]
  split
  · next letter hletter =>
    obtain ⟨hlookup, hchar, -⟩ := lookup_escapes hletter
    rw [← hchar]
    exact h.letter hlookup
  · have hnumber : ∀ (letter : Char) (width : Nat), 0 < width → c.val < 16 ^ width →
        numericEscapes.lookup letter = some width →
        QuotedReads true ('\\' :: letter :: Sheet.capitalHex width c.val ++ cs) (c :: t) := by
      intro letter width hwidth hlt hletter
      refine QuotedReads.number h ?_ (hexNumber?_capitalHex width c.val)
      rw [length_capitalHex hwidth hlt, hletter]
    have hlt := c.isLt
    split
    · exact hnumber 'x' 2 (by decide) (by omega) rfl
    · split
      · exact hnumber 'u' 4 (by decide) (by omega) rfl
      · exact hnumber 'U' 8 (by decide) (by omega) rfl

theorem isWritten_of_mem_escape (c : CodePoint) :
    ∀ d ∈ Sheet.escape c, isWritten d = true ∧ isBreak d = false := by
  rw [Sheet.escape]
  split
  · next letter hletter =>
    obtain ⟨-, -, hwritten⟩ := lookup_escapes hletter
    exact List.forall_mem_cons.2 ⟨⟨rfl, rfl⟩, List.forall_mem_singleton.2 hwritten⟩
  · split
    · exact List.forall_mem_cons.2 ⟨⟨rfl, rfl⟩, List.forall_mem_cons.2 ⟨⟨rfl, rfl⟩,
        isWritten_of_mem_capitalHex⟩⟩
    · split
      · exact List.forall_mem_cons.2 ⟨⟨rfl, rfl⟩, List.forall_mem_cons.2 ⟨⟨rfl, rfl⟩,
          isWritten_of_mem_capitalHex⟩⟩
      · exact List.forall_mem_cons.2 ⟨⟨rfl, rfl⟩, List.forall_mem_cons.2 ⟨⟨rfl, rfl⟩,
          isWritten_of_mem_capitalHex⟩⟩

theorem exists_escape_eq (c : CodePoint) : ∃ rest, Sheet.escape c = '\\' :: rest := by
  rw [Sheet.escape]
  split
  · exact ⟨_, rfl⟩
  · split
    · exact ⟨_, rfl⟩
    · split <;> exact ⟨_, rfl⟩

/-! ## Runs of code points -/

/-- A code point that is written as it is, is read as it is. -/
theorem QuotedReads.raw (h : QuotedReads true cs t) (hgoes : GoesOn cs) {c : CodePoint}
    (hc : Sheet.isEscaped c = false) :
    QuotedReads true (c.toChar :: cs) (c :: t) ∧ GoesOn (c.toChar :: cs) := by
  obtain ⟨hchar, -, hbreak, hquote, hslash, hblank⟩ := exists_char_of_not_isEscaped hc
  rw [hchar, CodePoint.toChar_ofChar]
  by_cases hspace : isSpace c.toChar = true
  · rw [hblank hspace]
    exact ⟨h.blank hgoes, goesOn_blank hgoes⟩
  · rw [Bool.not_eq_true] at hspace
    exact ⟨h.char hquote (fun _ => hslash) hspace hbreak, goesOn_cons hspace hbreak⟩

namespace Sheet

theorem prints_putText (s : Sheet) {u : Text} (h : ∀ c ∈ u, isEscaped c = false) :
    Prints s (s.putText u) (u.map CodePoint.toChar) := by
  refine prints_put s (List.forall_mem_map.2 fun c hc => ?_)
  obtain ⟨-, hwritten, hbreak, -⟩ := exists_char_of_not_isEscaped (h c hc)
  exact ⟨hwritten, hbreak⟩

/-- What is written where a line is broken between double quotes. -/
def quotedBreak (indent : Nat) (next : Option CodePoint) : List Char :=
  '\\' :: ('\n' :: List.replicate indent ' ') ++
    if next = some (CodePoint.ofChar ' ') then ['\\'] else []

theorem prints_breakQuoted {s : Sheet} (h : s.indented = false) (indent : Nat)
    (next : Option CodePoint) :
    Prints s (s.breakQuoted indent next) (quotedBreak indent next) ∧
      (s.breakQuoted indent next).indented = false ∧
      (s.breakQuoted indent next).column ≤ indent + 1 := by
  have hslash : ∀ s : Sheet, Prints s (s.put ['\\']) ['\\'] := fun s =>
    prints_put s (List.forall_mem_singleton.2 ⟨rfl, rfl⟩)
  have hgap : (s.put ['\\']).gap indent = '\n' :: List.replicate indent ' ' := by
    have hline : (s.put ['\\']).needsLine indent = true := by
      rw [needsLine, show (s.put ['\\']).indented = false from h]
      rfl
    rw [gap, hline]
    rfl
  have hindent := prints_indentTo (s.put ['\\']) indent
  rw [hgap] at hindent
  have hline : Prints s ((s.put ['\\']).indentTo indent).inScalar _ :=
    ((hslash s).trans hindent).of_eq rfl rfl rfl rfl
  have hcolumn : ((s.put ['\\']).indentTo indent).column = indent := by
    rw [indentTo_eq]
  rw [breakQuoted, quotedBreak]
  split
  · refine ⟨hline.trans (hslash _), rfl, Nat.le_of_eq ?_⟩
    show ((s.put ['\\']).indentTo indent).column + 1 = indent + 1
    rw [hcolumn]
  · refine ⟨?_, rfl, ?_⟩
    · rw [List.append_nil]
      exact hline
    · show ((s.put ['\\']).indentTo indent).column ≤ indent + 1
      rw [hcolumn]
      exact Nat.le_succ _

end Sheet

/-- A broken line goes on with the text that follows. A blank there stands behind a backslash. -/
theorem QuotedReads.broken {indent : Nat} {next : Option CodePoint} {t : Text} {cs : List Char}
    (hindent : 0 < indent) (h : QuotedReads true cs t)
    (hblank : next = some (CodePoint.ofChar ' ') →
      ∃ more u, cs = ' ' :: more ∧ t = CodePoint.ofChar ' ' :: u ∧ QuotedReads true more u)
    (hother : next ≠ some (CodePoint.ofChar ' ') →
      ∀ d ∈ cs.head?, isSpace d = false ∧ isBreak d = false) :
    QuotedReads true (Sheet.quotedBreak indent next ++ cs) t := by
  obtain ⟨n, rfl⟩ := Nat.exists_eq_add_one_of_ne_zero (Nat.ne_of_gt hindent)
  rw [Sheet.quotedBreak]
  by_cases hnext : next = some (CodePoint.ofChar ' ')
  · obtain ⟨more, u, rfl, rfl, hmore⟩ := hblank hnext
    rw [if_pos hnext, List.append_assoc]
    exact (QuotedReads.letter hmore rfl).continued (by
      rintro _ ⟨rfl⟩
      exact ⟨rfl, rfl⟩)
  · rw [if_neg hnext, List.append_nil]
    exact h.continued (hother hnext)

namespace Sheet

/-! ## What is written -/

/-- Whether a blank that is not the last code point follows an escape. -/
def holdsEscapedGap : Text → Bool
  | c :: d :: rest =>
    (isEscaped c && d = CodePoint.ofChar ' ' && !rest.isEmpty) || holdsEscapedGap (d :: rest)
  | _ => false

theorem holdsEscapedGap_tail {t : Text} (h : holdsEscapedGap t = false) :
    holdsEscapedGap t.tail = false := by
  match t with
  | [] | [c] => rfl
  | c :: d :: rest => exact (Bool.or_eq_false_iff.1 h).2

/-- A blank behind an escape is the last code point, where no other one is held. -/
theorem eq_nil_of_holdsEscapedGap {c : CodePoint} {rest : Text} (hc : isEscaped c = true)
    (h : holdsEscapedGap (c :: CodePoint.ofChar ' ' :: rest) = false) : rest = [] := by
  have hgap := (Bool.or_eq_false_iff.1 h).1
  rw [hc, decide_eq_true rfl, Bool.true_and, Bool.true_and, Bool.not_eq_false'] at hgap
  exact List.isEmpty_iff.1 hgap

/-- What has been written for a text between double quotes, behind what was held back, is read as
the text. A blank that fits on its line or that nothing follows is written as it is. -/
structure PrintsQuoted (s s' : Sheet) (held t : Text) (cs : List Char) : Prop where
  prints : Prints s s' (held.reverse.map CodePoint.toChar ++ cs)
  reads : QuotedReads true cs t
  goesOn : GoesOn cs
  head : t.head? ≠ some (CodePoint.ofChar ' ') →
    ∀ d ∈ cs.head?, isSpace d = false ∧ isBreak d = false
  fits : t.head? = some (CodePoint.ofChar ' ') → s.column + held.length ≤ width ∨ t.tail = [] →
    ∃ more, cs = ' ' :: more ∧ QuotedReads true more t.tail

/-- Code points that are held back are written in front of what follows. -/
theorem prints_held {s : Sheet} {held : Text} (h : ∀ c ∈ held, isEscaped c = false) :
    Prints s (s.putText held.reverse) (held.reverse.map CodePoint.toChar) :=
  prints_putText s fun c hc => h c (List.mem_reverse.1 hc)

theorem not_isEscaped_blank : isEscaped (CodePoint.ofChar ' ') = false := by decide

section From

variable {indent total : Nat} {split : Bool} (hindent : split = true → 0 < indent)

include hindent

section Code

variable {place : Nat} {c : CodePoint} {rest : Text}
  (ih : ∀ (held : Text) (s : Sheet), s.indented = false → (∀ c ∈ held, isEscaped c = false) →
    ∃ cs, PrintsQuoted s (putDoubleQuotedFrom indent split total (place + 1) held rest s) held
      rest cs)
  {held : Text} {s : Sheet} (hs : s.indented = false) (hheld : ∀ c ∈ held, isEscaped c = false)

include ih hs hheld

/-- An escape, and the rest behind it. -/
theorem PrintsQuoted.escape (hc : isEscaped c = true) (hroom : split = true → 0 < place →
      indent < width ∨ holdsEscapedGap (c :: rest) = false) : ∃ cs,
    PrintsQuoted s (putDoubleQuotedFrom indent split total place held (c :: rest) s) held
      (c :: rest) cs := by
  have hwritten : Prints s ((s.putText held.reverse).put (Sheet.escape c))
      (held.reverse.map CodePoint.toChar ++ Sheet.escape c) :=
    (prints_held hheld).trans (prints_put _ (isWritten_of_mem_escape c))
  have hindented : ((s.putText held.reverse).put (Sheet.escape c)).indented = false := hs
  obtain ⟨letters, hletters⟩ := exists_escape_eq c
  have hblank : c ≠ CodePoint.ofChar ' ' := by
    rintro rfl
    rw [not_isEscaped_blank] at hc
    cases hc
  -- whatever follows, what is written for the text begins with the backslash of the escape
  have hmake : ∀ {s' : Sheet} {cs : List Char},
      Prints ((s.putText held.reverse).put (Sheet.escape c)) s' cs → QuotedReads true cs rest →
      PrintsQuoted s s' held (c :: rest) (Sheet.escape c ++ cs) := by
    intro s' cs hprints hreads
    refine ⟨?_, hreads.escape c, ?_, fun _ => ?_, fun hhead _ => ?_⟩
    · rw [← List.append_assoc]
      exact hwritten.trans hprints
    · rw [hletters]
      exact goesOn_cons rfl rfl
    · rw [hletters]
      rintro _ ⟨rfl⟩
      exact ⟨rfl, rfl⟩
    · exact absurd (Option.some.inj hhead) hblank
  rw [putDoubleQuotedFrom, if_pos hc]
  dsimp only
  split
  · next hbreak =>
    -- the line is broken behind the escape
    simp only [Bool.and_eq_true, decide_eq_true_eq] at hbreak
    obtain ⟨⟨⟨hplace, -⟩, hsplit⟩, -⟩ := hbreak
    obtain ⟨hprints, hline, hcolumn⟩ := prints_breakQuoted hindented indent rest.head?
    obtain ⟨cs, hcs⟩ := ih [] _ hline (List.forall_mem_nil _)
    refine ⟨_, hmake (hprints.trans hcs.prints) (hcs.reads.broken (hindent hsplit) ?_ hcs.head)⟩
    intro hnext
    obtain ⟨u, rfl⟩ := List.head?_eq_some_iff.1 hnext
    have hfits := (hroom hsplit hplace).imp hcolumn.trans fun hgap =>
      eq_nil_of_holdsEscapedGap hc hgap
    obtain ⟨more, hmore, hreads⟩ := hcs.fits rfl hfits
    exact ⟨more, u, hmore, rfl, hreads⟩
  · obtain ⟨cs, hcs⟩ := ih [] _ hindented (List.forall_mem_nil _)
    exact ⟨_, hmake hcs.prints hcs.reads⟩

/-- A code point that is written as it is, and the rest behind it. -/
theorem PrintsQuoted.raw (hc : isEscaped c = false)
    (hplace : place + (c :: rest).length = total) : ∃ cs,
    PrintsQuoted s (putDoubleQuotedFrom indent split total place held (c :: rest) s) held
      (c :: rest) cs := by
  obtain ⟨hchar, -, hbreak, -, -, hspace⟩ := exists_char_of_not_isEscaped hc
  have hblank : c = CodePoint.ofChar ' ' → c.toChar = ' ' := by
    rintro rfl
    rfl
  have hhead : c ≠ CodePoint.ofChar ' ' → isSpace c.toChar = false := fun hne => by
    by_contra hgap
    rw [Bool.not_eq_false] at hgap
    exact hne (hchar.trans (congrArg CodePoint.ofChar (hspace hgap)))
  rw [putDoubleQuotedFrom, hc, if_neg Bool.false_ne_true]
  split
  · next hlong =>
    -- the line is broken in front of the code point
    simp only [Bool.and_eq_true, decide_eq_true_eq] at hlong
    obtain ⟨⟨⟨⟨-, hinside⟩, hsplit⟩, -⟩, hpast⟩ := hlong
    obtain ⟨hprints, hline, -⟩ :=
      prints_breakQuoted (s := s.putText held.reverse) hs indent (some c)
    obtain ⟨cs, hcs⟩ := ih [c] _ hline (List.forall_mem_singleton.2 hc)
    obtain ⟨hreads, -⟩ := hcs.reads.raw hcs.goesOn hc
    refine ⟨quotedBreak indent (some c) ++ c.toChar :: cs, ?_,
      hreads.broken (hindent hsplit) ?_ ?_, goesOn_cons rfl rfl, ?_, ?_⟩
    · exact (prints_held hheld).trans (hprints.trans hcs.prints)
    · intro hnext
      cases hnext
      exact ⟨cs, rest, rfl, rfl, hcs.reads⟩
    · rintro hne _ ⟨rfl⟩
      exact ⟨hhead fun heq => hne (congrArg some heq), hbreak⟩
    · rintro - _ ⟨rfl⟩
      exact ⟨rfl, rfl⟩
    · rintro - (hfits | hend)
      · exact absurd hpast (Nat.not_lt.2 hfits)
      · rw [show rest = [] from hend] at hplace
        exact absurd hinside (Nat.not_lt.2 (le_of_eq hplace.symm))
  · obtain ⟨cs, hcs⟩ := ih (c :: held) s hs (List.forall_mem_cons.2 ⟨hc, hheld⟩)
    obtain ⟨hreads, hgoes⟩ := hcs.reads.raw hcs.goesOn hc
    refine ⟨c.toChar :: cs, ?_, hreads, hgoes, ?_, ?_⟩
    · have hprints := hcs.prints
      rw [List.reverse_cons, List.map_append, List.append_assoc] at hprints
      exact hprints
    · rintro hne _ ⟨rfl⟩
      exact ⟨hhead fun heq => hne (congrArg some heq), hbreak⟩
    · intro hnext _
      exact ⟨cs, by rw [hblank (Option.some.inj hnext)], hcs.reads⟩

end Code

/-- From any place on, what is written is read as the rest of the text. No line is broken behind the
first code point of the whole text. -/
theorem exists_printsQuoted (t : Text) (place : Nat) (held : Text) (s : Sheet)
    (hs : s.indented = false) (hheld : ∀ c ∈ held, isEscaped c = false)
    (hplace : place + t.length = total)
    (hroom : split = true → indent < width ∨
      holdsEscapedGap (if place = 0 then t.tail else t) = false) : ∃ cs,
    PrintsQuoted s (putDoubleQuotedFrom indent split total place held t s) held t cs := by
  induction t generalizing place held s with
  | nil =>
    refine ⟨[], ?_, quotedReads_nil, goesOn_nil, fun _ _ hd => ?_, fun hhead => ?_⟩
    · rw [List.append_nil, putDoubleQuotedFrom]
      exact prints_held hheld
    · cases hd
    · cases hhead
  | cons c rest ih =>
    have hbehind : split = true → indent < width ∨ holdsEscapedGap rest = false := fun hsplit =>
      (hroom hsplit).imp_right fun hgap => by
        split at hgap
        · exact hgap
        · exact holdsEscapedGap_tail hgap
    have hnext := fun held s hs hheld => ih (place + 1) held s hs hheld
      (by rw [← hplace, List.length_cons]; omega)
      (by rwa [if_neg (Nat.succ_ne_zero place)])
    cases hc : isEscaped c with
    | true =>
      refine PrintsQuoted.escape hindent hnext hs hheld hc fun hsplit hpos => ?_
      have hhere := hroom hsplit
      rwa [if_neg (Nat.ne_of_gt hpos)] at hhere
    | false => exact PrintsQuoted.raw hindent hnext hs hheld hc hplace

/-- What is written between double quotes is read as the text. -/
theorem reads_putDoubleQuoted (s : Sheet) (t : Text)
    (hroom : split = true → indent < width ∨ holdsEscapedGap t.tail = false) : ∃ cs,
    Prints s (s.putDoubleQuoted indent split t) (s.lead true ++ '"' :: cs ++ ['"']) ∧
      QuotedReads true cs t := by
  have hmark : ∀ d ∈ ['"'], isWritten d = true ∧ isBreak d = false :=
    List.forall_mem_singleton.2 ⟨rfl, rfl⟩
  have hopen := prints_mark s true false false hmark
  have hindented : (s.mark ['"'] true).indented = false := by
    rw [mark_eq]
    exact Bool.and_false _
  obtain ⟨cs, hcs⟩ := exists_printsQuoted hindent t 0 [] _ hindented (List.forall_mem_nil _)
    (Nat.zero_add _) (by rwa [if_pos rfl])
  refine ⟨cs, ?_, hcs.reads⟩
  have hclose := prints_mark (putDoubleQuotedFrom indent split t.length 0 [] t (s.mark ['"'] true))
    false false false hmark
  have hall := (hopen.trans hcs.prints).trans hclose
  rw [show lead _ false = [] from if_pos (by simp), List.append_assoc (s.lead true)] at hall
  exact hall

end From

end Sheet

end SiteRules.Yaml
