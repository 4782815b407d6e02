import SiteRules.Proofs.Yaml.Column

/-!
# Reading between quotes

What a reader makes of the characters between two quotes, piece by piece from the front
(`QuotedReads`): characters that stand for themselves, blanks, escapes, and lines that are folded.
-/

namespace SiteRules.Yaml

/-- The quote that opens and closes a scalar. -/
def quoteMark (double : Bool) : Char := if double then '"' else '\''

/-- The characters in front of a closing quote are read as a text, whatever stands behind the quote.
Another single quote cannot stand behind a single one. -/
def QuotedReads (double : Bool) (cs : List Char) (t : Text) : Prop :=
  ∀ (c : Cursor) (tail : List Char) (fuel : Nat), c.rest = cs ++ quoteMark double :: tail →
    (double = false → tail.head? ≠ some '\'') → c.rest.length < fuel →
    scanQuotedFrom double fuel c = .ok (t, c.advance (cs.length + 1))

variable {double : Bool} {cs : List Char} {t : Text} {c : Cursor}

theorem quotedReads_nil : QuotedReads double [] [] := by
  intro c tail fuel hrest htail hfuel
  obtain ⟨fuel, rfl⟩ := Nat.exists_eq_add_one_of_ne_zero (Nat.ne_of_gt (Nat.zero_lt_of_lt hfuel))
  have hpeek := Cursor.peek_one hrest
  rw [scanQuotedFrom]
  split
  · next heq =>
    rw [hrest] at heq
    cases heq
  · next d _ heq =>
    rw [hrest] at heq
    cases heq
    rw [if_neg, if_pos]
    · rfl
    · cases double <;> rfl
    · rw [hpeek]
      cases double with
      | false => simp [htail rfl]
      | true => simp

/-- The step of the scanner at a character. -/
theorem scanQuotedFrom_cons {d : Char} {rest : List Char} (hrest : c.rest = d :: rest)
    (fuel : Nat) : scanQuotedFrom double (fuel + 1) c =
      if (!double && d = '\'' && c.peek 1 = some '\'') = true then do
        let (t, c) ← scanQuotedFrom double fuel (c.advance 2)
        return (CodePoint.ofChar '\'' :: t, c)
      else if d = quoteMark double then .ok ([], c.step)
      else if (double && d = '\\') = true then do
        let (part, c) ← scanEscape c.step
        let (t, c) ← scanQuotedFrom double fuel c
        return (part ++ t, c)
      else if (isSpace d || isBreak d) = true then do
        let (blanks, c) := c.span isSpace
        match c.lineBreak? with
        | some (b, c) =>
          let (breaks, c) ← scanQuotedBreaks (c.rest.length + 1) c
          let (t, c) ← scanQuotedFrom double fuel c
          return (folded b breaks ++ t, c)
        | none =>
          if c.rest.isEmpty then throw .malformed
          let (t, c) ← scanQuotedFrom double fuel c
          return (Text.ofChars blanks ++ t, c)
      else do
        let (t, c) ← scanQuotedFrom double fuel c.step
        return (CodePoint.ofChar d :: t, c) := by
  rw [scanQuotedFrom]
  split
  · next heq =>
    rw [hrest] at heq
    cases heq
  · next heq =>
    rw [hrest] at heq
    cases heq
    rfl

/-! ## Characters -/

/-- What is left behind the first characters is shorter. -/
theorem length_rest_lt (front : List Char) {rest : List Char} {fuel : Nat}
    (hrest : c.rest = front ++ rest) (hfront : front ≠ [])
    (hfuel : c.rest.length < fuel + 1) : rest.length < fuel := by
  have hpos := List.length_pos_iff.2 hfront
  rw [hrest, List.length_append] at hfuel
  omega

/-- The scanner goes on behind what it has read, with less fuel. -/
theorem QuotedReads.next (h : QuotedReads double cs t) (front : List Char) {tail : List Char}
    {fuel : Nat}
    (hrest : c.rest = front ++ (cs ++ quoteMark double :: tail)) (hfront : front ≠ [])
    (htail : double = false → tail.head? ≠ some '\'') (hfuel : c.rest.length < fuel + 1) :
    scanQuotedFrom double fuel (c.advance front.length) =
      .ok (t, c.advance ((front ++ cs).length + 1)) := by
  have hbehind := Cursor.rest_advance hrest
  have hlt := length_rest_lt _ hrest hfront hfuel
  rw [List.length_append, Nat.add_assoc, Cursor.advance_add]
  exact h _ _ _ hbehind htail (by rwa [hbehind])

theorem QuotedReads.char (h : QuotedReads double cs t) {d : Char} (hquote : d ≠ quoteMark double)
    (hescape : double = true → d ≠ '\\') (hspace : isSpace d = false)
    (hbreak : isBreak d = false) : QuotedReads double (d :: cs) (CodePoint.ofChar d :: t) := by
  intro c tail fuel hrest htail hfuel
  obtain ⟨fuel, rfl⟩ := Nat.exists_eq_add_one_of_ne_zero (Nat.ne_of_gt (Nat.zero_lt_of_lt hfuel))
  have hnext := h.next [d] hrest (List.cons_ne_nil _ _) htail hfuel
  have hpair : ¬(!double && d = '\'' && c.peek 1 = some '\'') = true := by
    cases double with
    | false => simp [show d ≠ '\'' from hquote]
    | true => simp
  have hslash : ¬(double && d = '\\') = true := by
    cases double with
    | false => simp
    | true => simp [hescape rfl]
  rw [scanQuotedFrom_cons hrest, if_neg hpair, if_neg hquote, if_neg hslash, hspace, hbreak,
    if_neg (by simp), show c.step = c.advance [d].length from rfl, hnext]
  rfl

/-- Two single quotes stand for one. -/
theorem QuotedReads.pair (h : QuotedReads false cs t) :
    QuotedReads false ('\'' :: '\'' :: cs) (CodePoint.ofChar '\'' :: t) := by
  intro c tail fuel hrest htail hfuel
  obtain ⟨fuel, rfl⟩ := Nat.exists_eq_add_one_of_ne_zero (Nat.ne_of_gt (Nat.zero_lt_of_lt hfuel))
  have hnext := h.next ['\'', '\''] hrest (List.cons_ne_nil _ _) htail hfuel
  have hpeek : c.peek 1 = some '\'' := by
    rw [Cursor.peek_one hrest]
    rfl
  rw [scanQuotedFrom_cons hrest, hpeek, if_pos (by simp),
    show c.advance 2 = c.advance ['\'', '\''].length from rfl, hnext]
  rfl

/-! ## Blanks -/

theorem isSpace_quoteMark (double : Bool) : isSpace (quoteMark double) = false := by
  cases double <;> rfl

theorem isBreak_quoteMark (double : Bool) : isBreak (quoteMark double) = false := by
  cases double <;> rfl

/-- A blank or a tab is neither a quote nor a backslash. -/
theorem not_special_of_gap {d : Char} (h : isSpace d = true ∨ isBreak d = true) :
    d ≠ '\'' ∧ d ≠ quoteMark double ∧ d ≠ '\\' := by
  have hne : ∀ e, isSpace e = false → isBreak e = false → d ≠ e := by
    rintro e hspace hbreak rfl
    rw [hspace, hbreak] at h
    simp at h
  exact ⟨hne _ rfl rfl, hne _ (isSpace_quoteMark _) (isBreak_quoteMark _), hne _ rfl rfl⟩

/-- The step of the scanner at a blank, a tab or a line end. -/
theorem scanQuotedFrom_gap {d : Char} {rest : List Char} (hrest : c.rest = d :: rest)
    (h : isSpace d = true ∨ isBreak d = true) (fuel : Nat) :
    scanQuotedFrom double (fuel + 1) c = do
        let (blanks, c) := c.span isSpace
        match c.lineBreak? with
        | some (b, c) =>
          let (breaks, c) ← scanQuotedBreaks (c.rest.length + 1) c
          let (t, c) ← scanQuotedFrom double fuel c
          return (folded b breaks ++ t, c)
        | none =>
          if c.rest.isEmpty then throw .malformed
          let (t, c) ← scanQuotedFrom double fuel c
          return (Text.ofChars blanks ++ t, c) := by
  obtain ⟨hsingle, hquote, hslash⟩ := not_special_of_gap h
  rw [scanQuotedFrom_cons hrest, if_neg (by simp [hsingle]), if_neg hquote,
    if_neg (by simp [hslash]), if_pos (by simpa using h)]

/-- A run of blanks and tabs that no line end follows. -/
theorem scanQuotedFrom_blanks {blanks rest : List Char} {d : Char}
    (hrest : c.rest = blanks ++ d :: rest) (hne : blanks ≠ [])
    (hblanks : ∀ b ∈ blanks, isSpace b = true) (hspace : isSpace d = false)
    (hbreak : isBreak d = false) (fuel : Nat) :
    scanQuotedFrom double (fuel + 1) c = do
      let (t, c) ← scanQuotedFrom double fuel (c.advance blanks.length)
      return (Text.ofChars blanks ++ t, c) := by
  obtain ⟨b, more, rfl⟩ := List.exists_cons_of_ne_nil hne
  have hspan := Cursor.span_eq hrest hblanks (by rintro _ ⟨rfl⟩; exact hspace)
  have hbehind := Cursor.rest_advance hrest
  have hnone : (c.advance (b :: more).length).lineBreak? = none :=
    Cursor.lineBreak?_eq_none (by rw [hbehind]; rintro _ ⟨rfl⟩; exact hbreak)
  rw [scanQuotedFrom_gap hrest (.inl (hblanks b List.mem_cons_self)), hspan]
  dsimp only
  rw [hnone, hbehind]
  rfl

/-- No line ends behind the blanks in front of some characters. -/
def GoesOn (cs : List Char) : Prop :=
  ∀ d ∈ (cs.dropWhile isSpace).head?, isBreak d = false

theorem goesOn_nil : GoesOn [] :=
  fun _ hd => by cases hd

theorem goesOn_blank {rest : List Char} (h : GoesOn rest) : GoesOn (' ' :: rest) := by
  rw [GoesOn, List.dropWhile_cons_of_pos rfl]
  exact h

theorem goesOn_cons {d : Char} {rest : List Char} (hspace : isSpace d = false)
    (hbreak : isBreak d = false) : GoesOn (d :: rest) := by
  rw [GoesOn, List.dropWhile_cons_of_neg (Bool.eq_false_iff.1 hspace)]
  rintro _ ⟨rfl⟩
  exact hbreak

/-- A blank stands for itself unless a line ends behind the blanks. -/
theorem QuotedReads.blank (h : QuotedReads double cs t) (hnext : GoesOn cs) :
    QuotedReads double (' ' :: cs) (CodePoint.ofChar ' ' :: t) := by
  intro c tail fuel hrest htail hfuel
  obtain ⟨fuel, rfl⟩ := Nat.exists_eq_add_one_of_ne_zero (Nat.ne_of_gt (Nat.zero_lt_of_lt hfuel))
  -- the blanks that follow are read together with this one
  have hblanks : ∀ b ∈ cs.takeWhile isSpace, isSpace b = true := fun b hb =>
    List.mem_takeWhile_imp hb
  obtain ⟨d, rest, hd, hspace, hbreak⟩ : ∃ d rest,
      cs.dropWhile isSpace ++ quoteMark double :: tail = d :: rest ∧ isSpace d = false ∧
        isBreak d = false := by
    cases hdrop : cs.dropWhile isSpace with
    | nil => exact ⟨_, _, rfl, isSpace_quoteMark _, isBreak_quoteMark _⟩
    | cons d rest =>
      have hhead := List.head?_dropWhile_not isSpace cs
      rw [hdrop] at hhead
      rw [GoesOn, hdrop] at hnext
      exact ⟨d, _, rfl, by simpa using hhead, hnext d rfl⟩
  have hsplit : cs ++ quoteMark double :: tail = cs.takeWhile isSpace ++ d :: rest := by
    rw [← hd, ← List.append_assoc, List.takeWhile_append_dropWhile]
  have hwhole : c.rest = (' ' :: cs.takeWhile isSpace) ++ d :: rest := by
    rw [hrest, List.cons_append, hsplit, List.cons_append]
  have hscan := h.next [' '] hrest (List.cons_ne_nil _ _) htail hfuel
  rw [scanQuotedFrom_blanks hwhole (List.cons_ne_nil _ _)
    (List.forall_mem_cons.2 ⟨rfl, hblanks⟩) hspace hbreak]
  cases hmore : cs.takeWhile isSpace with
  | nil =>
    rw [hscan]
    rfl
  | cons b more =>
    -- from the next blank on the scanner reads the rest of the run, and goes on at the same place
    have hbehind : (c.advance [' '].length).rest = cs ++ quoteMark double :: tail :=
      Cursor.rest_advance hrest
    have hstep : (c.advance [' '].length).rest = (b :: more) ++ d :: rest := by
      rw [hbehind, hsplit, hmore]
    have hfrom := h (c.advance [' '].length) tail (fuel + 1) hbehind htail (by
        rw [hbehind]
        exact Nat.lt_succ_of_lt (length_rest_lt [' '] hrest (List.cons_ne_nil _ _) hfuel))
    rw [scanQuotedFrom_blanks hstep (List.cons_ne_nil _ _) (hmore ▸ hblanks) hspace hbreak,
      ← Cursor.advance_add] at hfrom
    obtain ⟨⟨u, e⟩, hrun, heq⟩ := bind_eq_ok_iff.1 hfrom
    have hlength : (' ' :: b :: more).length = [' '].length + (b :: more).length := by
      rw [← List.length_append]
      rfl
    rw [hlength, hrun]
    cases heq
    rfl

/-! ## Line ends -/

theorem atDocumentMark_eq_false (h : ∀ d ∈ c.rest.head?, d ≠ '-' ∧ d ≠ '.') :
    c.atDocumentMark = false := by
  rw [Cursor.atDocumentMark]
  split
  · next heq =>
    rw [heq] at h
    exact absurd rfl (h _ rfl).1
  · next heq =>
    rw [heq] at h
    exact absurd rfl (h _ rfl).2
  · rfl

theorem not_mark_of_gap {d : Char} (h : isSpace d = true ∨ isBreak d = true) :
    d ≠ '-' ∧ d ≠ '.' := by
  have hne : ∀ e, isSpace e = false → isBreak e = false → d ≠ e := by
    rintro e hspace hbreak rfl
    rw [hspace, hbreak] at h
    simp at h
  exact ⟨hne _ rfl rfl, hne _ rfl rfl⟩

theorem isSpace_of_isBreak {d : Char} (h : isBreak d = true) : isSpace d = false := by
  by_contra hspace
  rw [Bool.not_eq_false, isSpace, Bool.or_eq_true, decide_eq_true_eq, decide_eq_true_eq] at hspace
  rcases hspace with rfl | rfl <;> cases h

/-- Line ends are read with the indentation of the line behind them. -/
theorem scanQuotedBreaks_eq (fuel : Nat) {bs rest : List Char} {n : Nat}
    (hrest : c.rest = bs ++ (List.replicate (n + 1) ' ' ++ rest))
    (hbs : ∀ b ∈ bs, isBreak b = true ∧ isWritten b = true)
    (hnext : ∀ d ∈ rest.head?, isSpace d = false ∧ isBreak d = false) (hfuel : bs.length < fuel) :
    scanQuotedBreaks fuel c = .ok (bs.map readBreak, c.advance (bs.length + (n + 1))) := by
  induction bs generalizing c fuel with
  | nil =>
    obtain ⟨fuel, rfl⟩ := Nat.exists_eq_add_one_of_ne_zero (Nat.ne_of_gt hfuel)
    rw [List.nil_append] at hrest
    have hmark : c.atDocumentMark = false :=
      atDocumentMark_eq_false (by rw [hrest]; rintro _ ⟨rfl⟩; exact ⟨by decide, by decide⟩)
    have hspan := Cursor.span_eq (p := isSpace) hrest
      (fun d hd => by rw [List.eq_of_mem_replicate hd]; rfl) (fun d hd => (hnext d hd).1)
    have hnone : (c.advance (List.replicate (n + 1) ' ').length).lineBreak? = none :=
      Cursor.lineBreak?_eq_none (by
        rw [Cursor.rest_advance hrest]
        exact fun d hd => (hnext d hd).2)
    rw [scanQuotedBreaks, hmark, if_neg Bool.false_ne_true, Cursor.skip, hspan]
    dsimp only
    rw [hnone, List.length_replicate, List.length_nil, Nat.zero_add]
    rfl
  | cons b bs ih =>
    obtain ⟨fuel, rfl⟩ := Nat.exists_eq_add_one_of_ne_zero (Nat.ne_of_gt (Nat.zero_lt_of_lt hfuel))
    obtain ⟨⟨hbreak, hwritten⟩, hmore⟩ := List.forall_mem_cons.1 hbs
    have hmark : c.atDocumentMark = false :=
      atDocumentMark_eq_false (by rw [hrest]; rintro _ ⟨rfl⟩; exact not_mark_of_gap (.inr hbreak))
    have hspan : c.span isSpace = ([], c.advance 0) :=
      Cursor.span_eq hrest (List.forall_mem_nil _) (by
        rintro _ ⟨rfl⟩
        exact isSpace_of_isBreak hbreak)
    have hskip : c.skip isSpace = c := by
      rw [Cursor.skip, hspan]
      rfl
    have hstep : c.step.rest = bs ++ (List.replicate (n + 1) ' ' ++ rest) := by
      rw [Cursor.step_rest, hrest]
      rfl
    rw [scanQuotedBreaks, hmark, if_neg Bool.false_ne_true, hskip]
    dsimp only
    rw [Cursor.lineBreak?_eq_some hrest hbreak hwritten]
    dsimp only
    rw [ih _ hstep hmore (Nat.lt_of_succ_lt_succ hfuel), List.length_cons, Nat.succ_add,
      List.map_cons]
    rfl

/-- Line ends are folded. -/
theorem QuotedReads.lines (h : QuotedReads double cs t) {b : Char} {bs : List Char} {n : Nat}
    (hbs : ∀ d ∈ b :: bs, isBreak d = true ∧ isWritten d = true)
    (hnext : ∀ d ∈ cs.head?, isSpace d = false ∧ isBreak d = false) :
    QuotedReads double ((b :: bs ++ List.replicate (n + 1) ' ') ++ cs)
      (folded (readBreak b) (bs.map readBreak) ++ t) := by
  intro c tail fuel hrest htail hfuel
  obtain ⟨fuel, rfl⟩ := Nat.exists_eq_add_one_of_ne_zero (Nat.ne_of_gt (Nat.zero_lt_of_lt hfuel))
  obtain ⟨⟨hbreak, hwritten⟩, hmore⟩ := List.forall_mem_cons.1 hbs
  rw [List.append_assoc] at hrest
  have hscan := h.next _ hrest (List.cons_ne_nil _ _) htail hfuel
  have hspan : c.span isSpace = ([], c) :=
    Cursor.span_eq hrest (List.forall_mem_nil _) (by
      rintro _ ⟨rfl⟩
      exact isSpace_of_isBreak hbreak)
  have hstep : c.step.rest =
      bs ++ (List.replicate (n + 1) ' ' ++ (cs ++ quoteMark double :: tail)) := by
    rw [Cursor.step_rest, hrest, ← List.append_assoc bs]
    rfl
  have hhead : ∀ d ∈ (cs ++ quoteMark double :: tail).head?,
      isSpace d = false ∧ isBreak d = false := by
    cases cs with
    | nil =>
      rintro _ ⟨rfl⟩
      exact ⟨isSpace_quoteMark _, isBreak_quoteMark _⟩
    | cons d rest =>
      rintro _ ⟨rfl⟩
      exact hnext d rfl
  have hbreaks := scanQuotedBreaks_eq (c.step.rest.length + 1) hstep hmore hhead (by
    rw [hstep, List.length_append]
    omega)
  rw [scanQuotedFrom_gap hrest (.inr hbreak), hspan]
  dsimp only
  rw [Cursor.lineBreak?_eq_some hrest hbreak hwritten]
  dsimp only
  rw [hbreaks, show c.step.advance (bs.length + (n + 1)) =
    c.advance (b :: bs ++ List.replicate (n + 1) ' ').length by
      rw [List.cons_append, List.length_cons, List.length_append, List.length_replicate]
      rfl]
  show (do
    let (t, c) ← scanQuotedFrom double fuel _
    return (folded (readBreak b) (bs.map readBreak) ++ t, c)) = _
  rw [hscan]
  rfl

/-! ## Escapes -/

/-- An escape stands for what the scanner makes of the characters behind its backslash. -/
theorem QuotedReads.escaped (h : QuotedReads true cs t) (escape : List Char) (part : Text)
    (hscan : ∀ {c : Cursor} {rest : List Char}, c.rest = escape ++ (cs ++ '"' :: rest) →
      scanEscape c = .ok (part, c.advance escape.length)) :
    QuotedReads true ('\\' :: escape ++ cs) (part ++ t) := by
  intro c tail fuel hrest htail hfuel
  obtain ⟨fuel, rfl⟩ := Nat.exists_eq_add_one_of_ne_zero (Nat.ne_of_gt (Nat.zero_lt_of_lt hfuel))
  rw [List.append_assoc] at hrest
  have hnext := h.next _ hrest (List.cons_ne_nil _ _) htail hfuel
  have hstep : c.step.rest = escape ++ (cs ++ '"' :: tail) := by
    rw [Cursor.step_rest, hrest]
    rfl
  rw [scanQuotedFrom_cons hrest, if_neg (by simp), if_neg (by decide), if_pos (by simp),
    hscan hstep]
  show (do
    let (t, c) ← scanQuotedFrom true fuel (c.advance ('\\' :: escape).length)
    return (part ++ t, c)) = _
  rw [hnext]
  rfl

/-- The escape of a character that has a letter of its own. -/
theorem QuotedReads.letter (h : QuotedReads true cs t) {letter e : Char}
    (hletter : escapes.lookup letter = some e) :
    QuotedReads true ('\\' :: letter :: cs) (CodePoint.ofChar e :: t) := by
  refine h.escaped [letter] [CodePoint.ofChar e] fun {c rest} hrest => ?_
  rw [scanEscape, Cursor.peek_zero hrest]
  dsimp only
  rw [hletter]
  rfl

/-- The escape of a code point by its number. -/
theorem QuotedReads.number (h : QuotedReads true cs t) {letter : Char} {digits : List Char}
    {p : CodePoint} (hletter : numericEscapes.lookup letter = some digits.length)
    (hdigits : hexNumber? digits = some p.val) :
    QuotedReads true ('\\' :: letter :: digits ++ cs) (p :: t) := by
  have hnone : escapes.lookup letter = none := by
    obtain ⟨front, back, heq, -⟩ := List.lookup_eq_some_iff.1 hletter
    have hmem : (letter, digits.length) ∈ numericEscapes := by
      rw [heq]
      exact List.mem_append_right _ List.mem_cons_self
    have hall : ∀ entry ∈ numericEscapes, escapes.lookup entry.1 = none := by decide
    exact hall _ hmem
  have hpoint : codePointOf p.val = .ok p := by
    rw [codePointOf, dif_pos p.isLt]
  refine h.escaped _ [p] fun {c rest} hrest => ?_
  have hstep : c.step.rest = digits ++ (cs ++ '"' :: rest) := by
    rw [Cursor.step_rest, hrest]
    rfl
  have htake : c.step.rest.take digits.length = digits := by
    rw [hstep, List.take_left]
  rw [scanEscape, Cursor.peek_zero hrest]
  dsimp only
  rw [hnone, hletter]
  dsimp only
  rw [htake, if_neg (Nat.lt_irrefl _), hdigits]
  dsimp only
  rw [hpoint]
  rfl

/-- A backslash at the end of a line takes the line end and the indentation away. -/
theorem QuotedReads.continued (h : QuotedReads true cs t) {n : Nat}
    (hnext : ∀ d ∈ cs.head?, isSpace d = false ∧ isBreak d = false) :
    QuotedReads true ('\\' :: ('\n' :: List.replicate (n + 1) ' ') ++ cs) t := by
  refine h.escaped _ [] fun {c rest} hrest => ?_
  have hhead : ∀ d ∈ (cs ++ '"' :: rest).head?, isSpace d = false ∧ isBreak d = false := by
    cases cs with
    | nil =>
      rintro _ ⟨rfl⟩
      exact ⟨rfl, rfl⟩
    | cons d more =>
      rintro _ ⟨rfl⟩
      exact hnext d rfl
  have hstep : c.step.rest = [] ++ (List.replicate (n + 1) ' ' ++ (cs ++ '"' :: rest)) := by
    rw [Cursor.step_rest, hrest]
    rfl
  have hskip : c.skipLineBreak = c.step := by
    rw [Cursor.skipLineBreak, Cursor.lineBreak?_eq_some hrest rfl rfl]
    rfl
  rw [scanEscape, Cursor.peek_zero hrest]
  dsimp only
  rw [show escapes.lookup '\n' = none from rfl, show numericEscapes.lookup '\n' = none from rfl]
  dsimp only
  rw [if_pos (show isBreak '\n' = true from rfl), hskip,
    scanQuotedBreaks_eq _ hstep (List.forall_mem_nil _) hhead (Nat.succ_pos _), List.length_cons,
    List.length_replicate]
  simp only [List.length_nil, Nat.zero_add]
  rfl

end SiteRules.Yaml
