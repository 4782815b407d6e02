import SiteRules.Proofs.Yaml.Runs

/-!
# Plain scalars

What is written without quotes is read as the text that was written
(`Sheet.reads_putPlain`). Where the scalar ends is told by what stands behind it: the colon of an
entry, or a line that is indented less.
-/

namespace SiteRules.Yaml

/-! ## Where a plain scalar ends -/

/-- What stands behind a plain scalar: a colon, or a line that begins in front of a column. -/
inductive EndsScalar (least : Int) : List Char → Prop
  | colon {rest : List Char} (h : endsToken rest.head? = true) : EndsScalar least (':' :: rest)
  | line {k : Nat} {rest : List Char} (hk : (k : Int) < least)
      (h : ∀ d ∈ rest.head?, isSpace d = false ∧ isBreak d = false) :
      EndsScalar least ('\n' :: (List.replicate k ' ' ++ rest))

/-- What a reader has passed over behind a plain scalar: nothing, or a line end with blanks. -/
inductive Passed : List Char → Bool → List Char → Prop
  | nothing {rest : List Char} : Passed (':' :: rest) false []
  | line {k j : Nat} {rest : List Char} (h : j ≤ k) :
      Passed ('\n' :: (List.replicate k ' ' ++ rest)) true ('\n' :: List.replicate j ' ')

/-- The characters in front of the end of a plain scalar are read as a text. -/
def PlainReads (least : Int) (cs : List Char) (t : Text) : Prop :=
  ∀ (c : Cursor) (tail : List Char) (fuel : Nat), c.rest = cs ++ tail → EndsScalar least tail →
    least ≤ c.column + 1 → c.rest.length < fuel → ∃ ended passed, Passed tail ended passed ∧
      scanPlainFrom false least fuel c = (t, ended, c.advance (cs ++ passed).length)

/-! ## Words -/

/-- A word of a plain scalar: it has no blanks and does not end in a colon. -/
structure IsWord (cs : List Char) : Prop where
  ne_nil : cs ≠ []
  inline : ∀ d ∈ cs, isWritten d = true ∧ isSpace d = false ∧ isBreak d = false
  last : cs.getLast? ≠ some ':'

theorem plainRun_word {cs tail : List Char} (h : ∀ d ∈ cs, isSpace d = false ∧ isBreak d = false)
    (hlast : cs.getLast? ≠ some ':') (htail : plainRun false tail = []) :
    plainRun false (cs ++ tail) = cs := by
  induction cs with
  | nil => exact htail
  | cons d rest ih =>
    obtain ⟨⟨hspace, hbreak⟩, hrest⟩ := List.forall_mem_cons.1 h
    have hgoes : endsPlain false d (rest ++ tail).head? = false := by
      rw [endsPlain, hspace, hbreak]
      cases rest with
      | nil =>
        have hcolon : d ≠ ':' := fun heq => hlast (by rw [heq]; rfl)
        simp [hcolon]
      | cons e more =>
        obtain ⟨hespace, hebreak⟩ := hrest e List.mem_cons_self
        simp [endsToken, hespace, hebreak]
    have hmore : rest.getLast? ≠ some ':' := by
      cases rest with
      | nil => simp
      | cons e more => rwa [List.getLast?_cons_cons] at hlast
    rw [List.cons_append, plainRun, hgoes, if_neg Bool.false_ne_true, ih hrest hmore]

theorem plainRun_ends {least : Int} {tail : List Char} (h : EndsScalar least tail) :
    plainRun false tail = [] := by
  cases h with
  | colon h =>
    rw [plainRun, endsPlain, h]
    rfl
  | line => rfl

/-! ## Between words -/

variable {c : Cursor} {least : Int}

theorem scanPlainSpaces_colon {rest : List Char} (hrest : c.rest = ':' :: rest) :
    scanPlainSpaces c = ([], false, c) := by
  have hspan : c.span (· = ' ') = ([], c) :=
    Cursor.span_eq hrest (List.forall_mem_nil _) (by rintro _ ⟨rfl⟩; rfl)
  have hnone : c.lineBreak? = none :=
    Cursor.lineBreak?_eq_none (by rw [hrest]; rintro _ ⟨rfl⟩; rfl)
  rw [scanPlainSpaces, hspan]
  dsimp only
  rw [hnone]
  rfl

/-- Blanks inside a line. -/
theorem scanPlainSpaces_blanks {blanks rest : List Char} {d : Char}
    (hrest : c.rest = blanks ++ d :: rest) (hblanks : ∀ b ∈ blanks, b = ' ')
    (hspace : isSpace d = false) (hbreak : isBreak d = false) :
    scanPlainSpaces c = (Text.ofChars blanks, false, c.advance blanks.length) := by
  have hd : ∀ e ∈ (d :: rest).head?, (fun x : Char => decide (x = ' ')) e = false := by
    rintro _ ⟨rfl⟩
    rw [decide_eq_false_iff_not]
    rintro rfl
    cases hspace
  have hspan := Cursor.span_eq (p := (· = ' ')) hrest
    (fun b hb => decide_eq_true (hblanks b hb)) hd
  have hnone : (c.advance blanks.length).lineBreak? = none :=
    Cursor.lineBreak?_eq_none (by
      rw [Cursor.rest_advance hrest]
      rintro _ ⟨rfl⟩
      exact hbreak)
  rw [scanPlainSpaces, hspan]
  dsimp only
  rw [hnone]

theorem plainBreaks_blanks {k fuel : Nat} {rest : List Char}
    (hrest : c.rest = List.replicate k ' ' ++ rest)
    (hnext : ∀ d ∈ rest.head?, isSpace d = false ∧ isBreak d = false) (hfuel : k < fuel) :
    plainBreaks fuel c = (some [], c.advance k) := by
  induction k generalizing c fuel with
  | zero =>
    obtain ⟨fuel, rfl⟩ := Nat.exists_eq_add_one_of_ne_zero (Nat.ne_of_gt hfuel)
    have hrest' : c.rest = rest := hrest
    have hnone : c.lineBreak? = none :=
      Cursor.lineBreak?_eq_none (by rw [hrest']; exact fun d hd => (hnext d hd).2)
    rw [plainBreaks]
    split
    · next hpeek =>
      have hspace := (hnext ' ' (by
        rw [← hrest', List.head?_eq_getElem?]
        exact hpeek)).1
      cases hspace
    · rw [hnone]
      rfl
  | succ k ih =>
    obtain ⟨fuel, rfl⟩ := Nat.exists_eq_add_one_of_ne_zero (Nat.ne_of_gt (Nat.zero_lt_of_lt hfuel))
    have hpeek := Cursor.peek_zero hrest
    have hstep : c.step.rest = List.replicate k ' ' ++ rest := by
      rw [Cursor.step_rest, hrest]
      rfl
    rw [plainBreaks, hpeek]
    dsimp only
    rw [ih hstep (Nat.lt_of_succ_lt_succ hfuel)]
    rfl

/-- A line end with the blanks behind it. -/
theorem scanPlainSpaces_line {k : Nat} {rest : List Char}
    (hrest : c.rest = '\n' :: (List.replicate k ' ' ++ rest))
    (hnext : ∀ d ∈ rest.head?, isSpace d = false ∧ isBreak d = false)
    (hmark : c.step.atDocumentMark = false) :
    scanPlainSpaces c = ([CodePoint.ofChar ' '], true, c.advance (k + 1)) := by
  have hspan : c.span (· = ' ') = ([], c) :=
    Cursor.span_eq hrest (List.forall_mem_nil _) (by rintro _ ⟨rfl⟩; rfl)
  have hstep : c.step.rest = List.replicate k ' ' ++ rest := by
    rw [Cursor.step_rest, hrest]
    rfl
  rw [scanPlainSpaces, hspan]
  dsimp only
  rw [Cursor.lineBreak?_eq_some hrest rfl rfl]
  dsimp only
  rw [hmark, if_neg Bool.false_ne_true, plainBreaks_blanks hstep hnext (by
    rw [hstep, List.length_append, List.length_replicate]
    omega)]
  rfl

/-- At a mark between documents the scalar ends. -/
theorem scanPlainSpaces_mark {rest : List Char} (hrest : c.rest = '\n' :: rest)
    (hmark : c.step.atDocumentMark = true) : scanPlainSpaces c = ([], true, c.step) := by
  have hspan : c.span (· = ' ') = ([], c) :=
    Cursor.span_eq hrest (List.forall_mem_nil _) (by rintro _ ⟨rfl⟩; rfl)
  rw [scanPlainSpaces, hspan]
  dsimp only
  rw [Cursor.lineBreak?_eq_some hrest rfl rfl]
  dsimp only
  rw [hmark, if_pos rfl]

/-! ## Reading words -/

/-- The scanner goes on with characters that begin with a word, which is no comment. -/
def OpensWord (cs : List Char) : Prop :=
  ∃ d rest, cs = d :: rest ∧ isSpace d = false ∧ isBreak d = false ∧ d ≠ '#' ∧
    (d = ':' → ∃ e more, rest = e :: more ∧ isSpace e = false ∧ isBreak e = false)

theorem IsWord.opens {cs : List Char} (h : IsWord cs) (hcomment : cs.head? ≠ some '#')
    (rest : List Char) : OpensWord (cs ++ rest) := by
  obtain ⟨d, more, rfl⟩ := List.exists_cons_of_ne_nil h.ne_nil
  obtain ⟨⟨-, hspace, hbreak⟩, hmore⟩ := List.forall_mem_cons.1 h.inline
  refine ⟨d, more ++ rest, rfl, hspace, hbreak, fun heq => hcomment (congrArg some heq), ?_⟩
  rintro rfl
  cases more with
  | nil => exact absurd rfl h.last
  | cons e others =>
    obtain ⟨-, hother⟩ := hmore e List.mem_cons_self
    exact ⟨e, others ++ rest, rfl, hother⟩

theorem OpensWord.plainRun_ne_nil {cs tail : List Char} (h : OpensWord cs) :
    plainRun false (cs ++ tail) ≠ [] := by
  obtain ⟨d, rest, rfl, hspace, hbreak, -, hcolon⟩ := h
  have hgoes : endsPlain false d (rest ++ tail).head? = false := by
    rw [endsPlain, hspace, hbreak]
    by_cases hd : d = ':'
    · obtain ⟨e, more, rfl, hespace, hebreak⟩ := hcolon hd
      simp [endsToken, hespace, hebreak]
    · simp [hd]
  rw [List.cons_append, plainRun, hgoes, if_neg Bool.false_ne_true]
  exact List.cons_ne_nil _ _

variable {cs ds : List Char} {t : Text}

theorem IsWord.advance (h : IsWord cs) {tail : List Char} (hrest : c.rest = cs ++ tail) :
    (c.advance cs.length).rest = tail ∧ c.column < (c.advance cs.length).column := by
  have hpos := List.length_pos_iff.2 h.ne_nil
  rw [Cursor.advance_eq hrest fun d hd => (h.inline d hd).1,
    columnAfter_inline _ fun d hd => (h.inline d hd).2.2]
  exact ⟨rfl, Nat.lt_add_of_pos_right hpos⟩

/-- The last word. -/
theorem IsWord.plainReads (h : IsWord cs) : PlainReads least cs (Text.ofChars cs) := by
  intro c tail fuel hrest hends _ hfuel
  obtain ⟨fuel, rfl⟩ := Nat.exists_eq_add_one_of_ne_zero (Nat.ne_of_gt (Nat.zero_lt_of_lt hfuel))
  have hrun : plainRun false c.rest = cs := by
    rw [hrest]
    exact plainRun_word (fun d hd => (h.inline d hd).2) h.last (plainRun_ends hends)
  obtain ⟨hbehind, -⟩ := h.advance hrest
  rw [scanPlainFrom, hrun]
  cases hends with
  | colon hcolon =>
    refine ⟨false, [], .nothing, ?_⟩
    rw [scanPlainSpaces_colon hbehind, List.append_nil]
    rfl
  | @line k rest hk hnext =>
    -- The line end is passed, and the indentation behind it, up to a mark of a document.
    cases hmark : (c.advance cs.length).step.atDocumentMark with
    | true =>
      refine ⟨true, '\n' :: List.replicate 0 ' ', .line (Nat.zero_le _), ?_⟩
      rw [scanPlainSpaces_mark hbehind hmark, List.length_append, Cursor.advance_add]
      rfl
    | false =>
      refine ⟨true, '\n' :: List.replicate k ' ', .line (Nat.le_refl _), ?_⟩
      have hadvance := Cursor.advance_eq (c := c.advance cs.length)
        hbehind (List.forall_mem_cons.2 ⟨rfl, fun d hd => by
          rw [List.eq_of_mem_replicate hd]
          rfl⟩)
      have hcolumn : ((c.advance cs.length).advance (k + 1)).column = k := by
        rw [show k + 1 = ('\n' :: List.replicate k ' ').length by simp, hadvance]
        show columnAfter _ ([] ++ '\n' :: List.replicate k ' ') = k
        rw [columnAfter_line _ rfl (fun d hd => by rw [List.eq_of_mem_replicate hd]; rfl),
          List.length_replicate]
      rw [scanPlainSpaces_line hbehind hnext hmark]
      dsimp only
      rw [if_pos (by simp [hcolumn, hk]), ← Cursor.advance_add, List.length_append,
        List.length_cons, List.length_replicate]

/-- A word, what parts it from the next one, and the rest. -/
theorem IsWord.plainReads_append (h : IsWord cs) {gap : List Char} {spaces : Text}
    (hgap : gap ≠ []) (hspaces : spaces ≠ []) (hopens : OpensWord ds)
    (hends : ∀ rest, plainRun false (gap ++ rest) = []) (hds : PlainReads least ds t)
    (hscan : ∀ {c : Cursor} {tail : List Char}, c.rest = gap ++ (ds ++ tail) →
      least ≤ c.column → ∃ ended, scanPlainSpaces c = (spaces, ended, c.advance gap.length) ∧
        least ≤ (c.advance gap.length).column) :
    PlainReads least (cs ++ gap ++ ds) (Text.ofChars cs ++ spaces ++ t) := by
  intro c tail fuel hrest hends' hleast hfuel
  obtain ⟨fuel, rfl⟩ := Nat.exists_eq_add_one_of_ne_zero (Nat.ne_of_gt (Nat.zero_lt_of_lt hfuel))
  rw [List.append_assoc, List.append_assoc] at hrest
  have hrun : plainRun false c.rest = cs := by
    rw [hrest]
    exact plainRun_word (fun d hd => (h.inline d hd).2) h.last (hends _)
  obtain ⟨hbehind, hcolumn⟩ := h.advance hrest
  obtain ⟨ended, hspaces', hle⟩ := hscan hbehind (by omega)
  have hnext : ((c.advance cs.length).advance gap.length).rest = ds ++ tail :=
    Cursor.rest_advance hbehind
  have hshort : ((c.advance cs.length).advance gap.length).rest.length < fuel := by
    have hpos := List.length_pos_iff.2 hgap
    rw [hnext]
    rw [hrest, List.length_append, List.length_append] at hfuel
    omega
  obtain ⟨ended', passed, hpassed, hread⟩ := hds _ tail fuel hnext hends' (by omega) hshort
  refine ⟨ended', passed, hpassed, ?_⟩
  have hcomment : ((c.advance cs.length).advance gap.length).peek 0 ≠ some '#' := by
    obtain ⟨d, rest, rfl, -, -, hne, -⟩ := hopens
    rw [Cursor.peek_zero hnext]
    exact fun heq => hne (Option.some.inj heq)
  -- Neither a comment nor a lower column ends the text behind the gap, and a further word is there.
  have hgoes : ¬(spaces.isEmpty || ((c.advance cs.length).advance gap.length).peek 0 = some '#' ||
      (!false && (((c.advance cs.length).advance gap.length).column : Int) < least)) = true := by
    simp [hspaces, hcomment, Int.not_lt.2 hle]
  have hmore :
      ¬(plainRun false ((c.advance cs.length).advance gap.length).rest).isEmpty = true := by
    rw [hnext, List.isEmpty_iff]
    exact hopens.plainRun_ne_nil
  rw [scanPlainFrom, hrun, hspaces']
  dsimp only
  rw [if_neg hgoes, if_neg hmore, hread]
  dsimp only
  rw [← Cursor.advance_add, ← Cursor.advance_add]
  simp only [List.length_append, Nat.add_assoc]

/-- Blanks part two words. -/
theorem IsWord.plainReads_blanks (h : IsWord cs) {k : Nat} (hk : 0 < k) (hopens : OpensWord ds)
    (hds : PlainReads least ds t) : PlainReads least (cs ++ List.replicate k ' ' ++ ds)
      (Text.ofChars cs ++ List.replicate k (CodePoint.ofChar ' ') ++ t) := by
  obtain ⟨k, rfl⟩ := Nat.exists_eq_add_one_of_ne_zero (Nat.ne_of_gt hk)
  refine h.plainReads_append (List.cons_ne_nil _ _) (List.cons_ne_nil _ _) hopens (fun _ => rfl) hds
    fun {c tail} hrest hleast => ?_
  obtain ⟨d, rest, rfl, hspace, hbreak, -⟩ := hopens
  have hblanks : ∀ b ∈ List.replicate (k + 1) ' ', b = ' ' :=
    fun b hb => List.eq_of_mem_replicate hb
  refine ⟨false, ?_, ?_⟩
  · rw [scanPlainSpaces_blanks (d := d) hrest hblanks hspace hbreak,
      Text.ofChars, List.map_replicate]
  · rw [Cursor.advance_eq hrest fun d hd => by rw [hblanks d hd]; rfl,
      columnAfter_inline _ fun d hd => by rw [hblanks d hd]; rfl]
    show least ≤ ((c.column + (List.replicate (k + 1) ' ').length : Nat) : Int)
    omega

/-- A line end in the place of a blank parts two words. -/
theorem IsWord.plainReads_fold (h : IsWord cs) {indent : Nat} (hindent : 0 < indent)
    (hleast : least ≤ indent) (hopens : OpensWord ds) (hds : PlainReads least ds t) :
    PlainReads least (cs ++ ('\n' :: List.replicate indent ' ') ++ ds)
      (Text.ofChars cs ++ [CodePoint.ofChar ' '] ++ t) := by
  refine h.plainReads_append (List.cons_ne_nil _ _) (List.cons_ne_nil _ _) hopens (fun _ => rfl) hds
    fun {c tail} hrest _ => ?_
  obtain ⟨d, rest, rfl, hspace, hbreak, -⟩ := hopens
  have hblank : ∀ b ∈ List.replicate indent ' ', b = ' ' := fun b hb => List.eq_of_mem_replicate hb
  have hmark : c.step.atDocumentMark = false := by
    obtain ⟨n, rfl⟩ := Nat.exists_eq_add_one_of_ne_zero (Nat.ne_of_gt hindent)
    rw [Cursor.atDocumentMark, Cursor.step_rest, hrest]
    rfl
  refine ⟨true, ?_, ?_⟩
  · rw [scanPlainSpaces_line (k := indent) hrest (by rintro _ ⟨rfl⟩; exact ⟨hspace, hbreak⟩) hmark,
      List.length_cons, List.length_replicate]
  · rw [Cursor.advance_eq hrest (List.forall_mem_cons.2 ⟨rfl, fun d hd => by
      rw [hblank d hd]
      rfl⟩)]
    show least ≤ ((columnAfter _ ([] ++ '\n' :: List.replicate indent ' ') : Nat) : Int)
    rw [columnAfter_line _ rfl fun d hd => by rw [hblank d hd]; rfl, List.length_replicate]
    exact hleast

/-! ## Writing words -/

namespace Sheet

/-- The runs of a plain scalar: words and blanks by turns, from a word to a word. No word ends in a
colon, and none but the first can begin with a number sign. -/
inductive PlainRuns : List (Run × Text) → Prop
  | last {run : Text} (h : IsWord (run.map CodePoint.toChar))
      (hchar : ∀ c ∈ run, c = CodePoint.ofChar c.toChar) : PlainRuns [(.words, run)]
  | more {run : Text} {k : Nat} {run' : Text} {rest : List (Run × Text)}
      (h : IsWord (run.map CodePoint.toChar)) (hchar : ∀ c ∈ run, c = CodePoint.ofChar c.toChar)
      (hk : 0 < k) (hcomment : (run'.map CodePoint.toChar).head? ≠ some '#')
      (hrest : PlainRuns ((.words, run') :: rest)) :
      PlainRuns ((.words, run) :: (.blanks, List.replicate k (CodePoint.ofChar ' ')) ::
        (.words, run') :: rest)

variable {indent : Nat} {split : Bool}

theorem prints_word (s : Sheet) {run : Text} (h : IsWord (run.map CodePoint.toChar)) :
    Prints s (s.putText run) (run.map CodePoint.toChar) :=
  prints_put s fun d hd => ⟨(h.inline d hd).1, (h.inline d hd).2.2⟩

theorem prints_blanks (s : Sheet) (k : Nat) :
    Prints s (s.putText (List.replicate k (CodePoint.ofChar ' '))) (List.replicate k ' ') := by
  rw [putText, List.map_replicate]
  refine prints_put s fun d hd => ?_
  rw [List.eq_of_mem_replicate hd]
  exact ⟨rfl, rfl⟩

/-- The runs of a plain scalar are read as their text. They begin with the first word. -/
theorem PlainRuns.exists_reads {rs : List (Run × Text)} (h : PlainRuns rs) (hindent : 0 < indent)
    (hleast : least ≤ indent) {s : Sheet} (hs : s.indented = false) : ∃ cs,
      Prints s (putPlainRuns indent split rs s) cs ∧ PlainReads least cs (ofRuns rs) ∧
        (putPlainRuns indent split rs s).indented = false ∧
        ∀ r ∈ rs.head?, ∃ more, cs = r.2.map CodePoint.toChar ++ more ∧
          ∀ d ∈ more.head?, isSpace d = true ∨ isBreak d = true := by
  induction h generalizing s with
  | @last run h hchar =>
    refine ⟨run.map CodePoint.toChar, prints_word s h, ?_, hs, ?_⟩
    · have hreads : PlainReads least _ _ := h.plainReads
      rw [ofChars_map_toChar hchar] at hreads
      rw [ofRuns, List.flatMap_singleton]
      exact hreads
    · rintro _ ⟨rfl⟩
      exact ⟨[], (List.append_nil _).symm, fun _ hd => by cases hd⟩
  | @more run k run' rest h hchar hk hcomment hrest ih =>
    have hword := prints_word s h
    have hword' : IsWord (run'.map CodePoint.toChar) := by
      cases hrest <;> assumption
    have htext : ofRuns ((.words, run) :: (.blanks, List.replicate k (CodePoint.ofChar ' ')) ::
        (.words, run') :: rest) = run ++ List.replicate k (CodePoint.ofChar ' ') ++
          ofRuns ((.words, run') :: rest) := by
      simp [ofRuns]
    have hopens : ∀ {cs : List Char}, (∀ r ∈ ((Run.words, run') :: rest).head?,
        ∃ more, cs = r.2.map CodePoint.toChar ++ more ∧
          ∀ d ∈ more.head?, isSpace d = true ∨ isBreak d = true) → OpensWord cs := by
      intro cs hcs
      obtain ⟨more, rfl, -⟩ := hcs _ rfl
      exact hword'.opens hcomment more
    have hchars := ofChars_map_toChar hchar
    rw [htext, putPlainRuns, putPlainRuns]
    simp only [reduceCtorEq, decide_false, Bool.false_and, Bool.false_eq_true, if_false]
    split
    · next hfold =>
      -- one blank, past the width of a line: the next word begins on the next line
      simp only [Bool.and_eq_true, decide_eq_true_eq, List.length_replicate] at hfold
      obtain rfl : k = 1 := hfold.1.1.2
      obtain ⟨cs, hprints, hreads, hend, hhead⟩ :=
        ih (s := ((s.putText run).indentTo indent).inScalar) rfl
      have hline : (s.putText run).needsLine indent = true := by
        rw [needsLine, show (s.putText run).indented = false from hs]
        rfl
      have hgap := prints_indentTo (s.putText run) indent
      rw [gap, if_pos hline] at hgap
      have hall := (hword.trans hgap).trans
        (hprints.of_eq (t := (s.putText run).indentTo indent) rfl rfl rfl rfl)
      have hfolded := h.plainReads_fold hindent hleast (hopens hhead) hreads
      rw [hchars] at hfolded
      refine ⟨_, hall, hfolded, hend, ?_⟩
      rintro _ ⟨rfl⟩
      exact ⟨_, List.append_assoc _ _ _, by rintro _ ⟨rfl⟩; exact .inr rfl⟩
    · obtain ⟨cs, hprints, hreads, hend, hhead⟩ := ih (s := (s.putText run).putText
        (List.replicate k (CodePoint.ofChar ' '))) hs
      have hparted := h.plainReads_blanks hk (hopens hhead) hreads
      rw [hchars] at hparted
      refine ⟨_, (hword.trans (prints_blanks _ k)).trans hprints, hparted, hend, ?_⟩
      rintro _ ⟨rfl⟩
      refine ⟨_, List.append_assoc _ _ _, ?_⟩
      obtain ⟨n, rfl⟩ := Nat.exists_eq_add_one_of_ne_zero (Nat.ne_of_gt hk)
      rintro _ ⟨rfl⟩
      exact .inl rfl

/-! ## Texts that are written plain -/

/-- What holds of the code points of a text behind a point in it, of which no colon ends a word. -/
theorem holdsMark_append {u v : Text} {previous : CodePoint} (hne : u ≠ [])
    (h : Style.holdsMark previous (u ++ v) = false) :
    (∃ last, Style.holdsMark last v = false ∧ u.getLast? = some last) ∧
      (u.getLast? = some (CodePoint.ofChar ':') → Style.isGap v.head? = false) ∧
      (u.head? = some (CodePoint.ofChar '#') → Style.isGap (some previous) = false) := by
  induction u generalizing previous with
  | nil => exact absurd rfl hne
  | cons c rest ih =>
    rw [List.cons_append, Style.holdsMark] at h
    simp only [Bool.or_eq_false_iff, Bool.and_eq_false_iff, decide_eq_false_iff_not] at h
    obtain ⟨⟨hcolon, hcomment⟩, hrest⟩ := h
    have hfirst : (c :: rest).head? = some (CodePoint.ofChar '#') →
        Style.isGap (some previous) = false := fun heq =>
      hcomment.resolve_left fun hne => hne (Option.some.inj heq)
    cases rest with
    | nil =>
      refine ⟨⟨c, hrest, rfl⟩, fun heq => ?_, hfirst⟩
      exact hcolon.resolve_left fun hne => hne (Option.some.inj heq)
    | cons d more =>
      obtain ⟨hlast, hend, -⟩ := ih (List.cons_ne_nil _ _) hrest
      rw [List.getLast?_cons_cons]
      exact ⟨hlast, hend, hfirst⟩

theorem getLast?_ofRuns {kind : Run} {run : Text} {rest : List (Run × Text)} (hne : rest ≠ [])
    (hruns : AreRuns ((kind, run) :: rest)) :
    (ofRuns ((kind, run) :: rest)).getLast? = (ofRuns rest).getLast? := by
  obtain ⟨⟨kind', run'⟩, more, rfl⟩ := List.exists_cons_of_ne_nil hne
  have hne' : ofRuns ((kind', run') :: more) ≠ [] := by
    cases hruns with
    | cons _ _ _ hmore =>
      cases hmore with
      | cons hne' _ _ _ => simp [ofRuns, hne']
  show (run ++ ofRuns ((kind', run') :: more)).getLast? = _
  rw [List.getLast?_append, List.getLast?_eq_some_getLast hne', Option.some_or]

/-- A run of words whose last code point is no colon. -/
theorem isWord_of_words {run : Text} (hne : run ≠ [])
    (hspecial : ∀ c ∈ run, Style.isSpecial c = false) (hkind : ∀ c ∈ run, Run.of c = .words)
    (hlast : run.getLast? ≠ some (CodePoint.ofChar ':')) :
    IsWord (run.map CodePoint.toChar) ∧ ∀ c ∈ run, c = CodePoint.ofChar c.toChar := by
  have hchar := fun c hc => exists_char_of_words (hspecial c hc) (hkind c hc)
  refine ⟨⟨by simpa using hne, ?_, fun heq => hlast ?_⟩, fun c hc => (hchar c hc).1⟩
  · refine List.forall_mem_map.2 fun c hc => ?_
    obtain ⟨-, hwritten, hbreak, hspace⟩ := hchar c hc
    exact ⟨hwritten, hspace, hbreak⟩
  · rw [List.getLast?_map] at heq
    obtain ⟨c, hc, hcolon⟩ := Option.map_eq_some_iff.1 heq
    rw [hc, (hchar c (List.mem_of_getLast? hc)).1, hcolon]

theorem ne_breaks_of_inline {kind : Run} {run : Text} (hne : run ≠ [])
    (hkind : ∀ c ∈ run, Run.of c = kind) (hinline : ∀ c ∈ run, Style.isBreak c = false) :
    kind ≠ .breaks := by
  rintro rfl
  obtain ⟨c, more, rfl⟩ := List.exists_cons_of_ne_nil hne
  have hfalse := hinline c List.mem_cons_self
  rw [Run.of_eq_breaks (hkind c List.mem_cons_self)] at hfalse
  cases hfalse

/-- Behind a word that is not the last one there are blanks and a further word, if no lines end and
no blanks end the text. -/
theorem exists_blanks_words {run run' : Text} {kind : Run} {rest : List (Run × Text)}
    (hruns : AreRuns ((.words, run) :: (kind, run') :: rest))
    (hinline : ∀ c ∈ ofRuns ((.words, run) :: (kind, run') :: rest), Style.isBreak c = false)
    (hlast : ∀ c ∈ (ofRuns ((.words, run) :: (kind, run') :: rest)).getLast?,
      c ≠ CodePoint.ofChar ' ') :
    kind = .blanks ∧ ∃ run'' rest', rest = (.words, run'') :: rest' := by
  have hwhole := hruns
  rw [show ofRuns ((Run.words, run) :: (kind, run') :: rest) = run ++ (run' ++ ofRuns rest)
    from rfl] at hinline
  cases hruns with
  | cons _ _ hother hrest =>
  cases hrest with
  | cons hrun' hkind' hother' hrest' =>
  have hbreaks := ne_breaks_of_inline hrun' hkind' fun c hc => hinline c (by simp [hc])
  obtain rfl : kind = .blanks := by
    cases kind with
    | words => exact absurd rfl (hother _ rfl)
    | breaks => exact absurd rfl hbreaks
    | blanks => rfl
  cases rest with
  | nil =>
    rw [getLast?_ofRuns (List.cons_ne_nil _ _) hwhole, ofRuns, List.flatMap_singleton,
      List.getLast?_eq_some_getLast hrun'] at hlast
    exact absurd (Run.of_eq_blanks (hkind' _ (List.getLast_mem hrun'))) (hlast _ rfl)
  | cons r rest' =>
    obtain ⟨kind'', run''⟩ := r
    cases hrest' with
    | cons hrun'' hkind'' _ _ =>
      have hbreaks'' := ne_breaks_of_inline hrun'' hkind'' fun c hc =>
        hinline c (by simp [ofRuns, hc])
      cases kind'' with
      | words => exact ⟨rfl, run'', rest', rfl⟩
      | breaks => exact absurd rfl hbreaks''
      | blanks => exact absurd rfl (hother' _ rfl)

/-- A word behind blanks does not begin as a comment does, where no marks are held. -/
theorem head?_ne_comment {run more : Text} {previous : CodePoint}
    (hblank : previous = CodePoint.ofChar ' ')
    (hspecial : ∀ c ∈ run, Style.isSpecial c = false)
    (hmarks : Style.holdsMark previous (run ++ more) = false) :
    (run.map CodePoint.toChar).head? ≠ some '#' := by
  intro heq
  rw [List.head?_map] at heq
  obtain ⟨c, hc, htoChar⟩ := Option.map_eq_some_iff.1 heq
  have hrun : run ≠ [] := by
    rintro rfl
    cases hc
  obtain ⟨-, -, hfirst⟩ := holdsMark_append hrun hmarks
  have hchar := (isWritten_of_not_isSpecial (hspecial c (List.mem_of_mem_head? hc))).1
  have hgap := hfirst (by rw [hc, hchar, htoChar])
  rw [hblank] at hgap
  cases hgap

/-- Runs without line ends that begin and end in a word, with no marks in between. -/
theorem plainRuns_of_runs : ∀ {rs : List (Run × Text)} {previous : CodePoint}, rs ≠ [] →
    AreRuns rs → (∀ c ∈ ofRuns rs, Style.isSpecial c = false ∧ Style.isBreak c = false) →
    (∀ r ∈ rs.head?, r.1 = .words) →
    (∀ c ∈ (ofRuns rs).getLast?, c ≠ CodePoint.ofChar ' ') →
    Style.holdsMark previous (ofRuns rs) = false → PlainRuns rs
  | [], _, hne, _, _, _, _, _ => absurd rfl hne
  | [(kind, run)], previous, _, hruns, hall, hhead, _, hmarks => by
    obtain rfl : kind = .words := hhead _ rfl
    cases hruns with
    | cons hrun hkind _ _ =>
      rw [ofRuns, List.flatMap_singleton] at hall hmarks
      rw [← List.append_nil run] at hmarks
      obtain ⟨-, hcolon, -⟩ := holdsMark_append hrun hmarks
      obtain ⟨hword, hchar⟩ := isWord_of_words hrun (fun c hc => (hall c hc).1) hkind
        fun heq => by cases hcolon heq
      exact .last hword hchar
  | (kind, run) :: (kind', run') :: rest, previous, _, hruns, hall, hhead, hlast, hmarks => by
    obtain rfl : kind = .words := hhead _ rfl
    obtain ⟨rfl, run'', rest', rfl⟩ := exists_blanks_words hruns (fun c hc => (hall c hc).2) hlast
    have hwhole := hruns
    cases hruns with
    | cons hrun hkind hother hrest =>
    have hblanks := hrest
    cases hrest with
    | cons hrun' hkind' hother' hrest' =>
    rw [show ofRuns ((Run.words, run) :: (Run.blanks, run') :: (Run.words, run'') :: rest') =
      run ++ (run' ++ (run'' ++ ofRuns rest')) from rfl] at hall hmarks
    have hreplicate := eq_replicate_of_blanks hkind'
    obtain ⟨⟨last, hmarks', -⟩, hcolon, -⟩ := holdsMark_append hrun hmarks
    obtain ⟨⟨blank, hmarks'', hblank⟩, -, -⟩ := holdsMark_append hrun' hmarks'
    -- A colon at the end of the word would be a mark, because a blank is behind it.
    have hword := isWord_of_words hrun (fun c hc => (hall c (by simp [hc])).1) hkind fun heq => by
      have hgap := hcolon heq
      rw [hreplicate] at hgap
      obtain ⟨k, hk⟩ := Nat.exists_eq_add_one_of_ne_zero (List.length_pos_iff.2 hrun').ne'
      rw [hk] at hgap
      cases hgap
    have hcomment := head?_ne_comment
      (Run.of_eq_blanks (hkind' blank (List.mem_of_getLast? hblank)))
      (fun c hc => (hall c (by simp [hc])).1) hmarks''
    rw [hreplicate]
    refine .more hword.1 hword.2 (List.length_pos_iff.2 hrun') hcomment
      (plainRuns_of_runs (List.cons_ne_nil _ _) hrest' ?_ ?_ ?_ hmarks'')
    · exact fun c hc => hall c (List.mem_append_right _ (List.mem_append_right _ hc))
    · rintro _ ⟨rfl⟩
      rfl
    · rw [getLast?_ofRuns (List.cons_ne_nil _ _) hwhole,
        getLast?_ofRuns (List.cons_ne_nil _ _) hblanks] at hlast
      exact hlast

/-- A text begins with a word, and what is written for it begins with the characters of the word. -/
structure BeginsWith (word t : Text) (cs : List Char) : Prop where
  isWord : IsWord (word.map CodePoint.toChar)
  chars : ∀ c ∈ word, c = CodePoint.ofChar c.toChar
  text : ∃ rest, t = word ++ rest ∧ ∀ c ∈ rest.head?, c = CodePoint.ofChar ' '
  written : ∃ more, cs = word.map CodePoint.toChar ++ more ∧
    ∀ d ∈ more.head?, isSpace d = true ∨ isBreak d = true

theorem plainRuns_of_allowsPlain {t : Text} (hne : t ≠ []) (h : Style.allowsPlain t = true) :
    PlainRuns (runs t) := by
  simp only [Style.allowsPlain, Style.needsEscapes, Style.isMultiline, Style.hasLooseEnds,
    Bool.not_eq_true', Bool.or_eq_false_iff] at h
  obtain ⟨⟨⟨⟨hspecial, -⟩, hlines⟩, hhead, hlast⟩, hmarks⟩ := h
  obtain ⟨hruns, htext⟩ := runs_spec t
  have hall : ∀ c ∈ t, Style.isSpecial c = false ∧ Style.isBreak c = false := fun c hc =>
    ⟨Bool.eq_false_iff.2 (List.any_eq_false.1 hspecial c hc),
      Bool.eq_false_iff.2 (List.any_eq_false.1 hlines c hc)⟩
  obtain ⟨first, rest, rfl⟩ := List.exists_cons_of_ne_nil hne
  -- the first code point is checked apart from the others
  have hmark : Style.holdsMark first (first :: rest) = false := by
    simp only [Style.hasMarks, Style.opensMarked, Bool.or_eq_false_iff] at hmarks
    obtain ⟨⟨-, hopens, hgap⟩, hholds⟩ := hmarks
    have hnone : ∀ e : Char,
        Style.isOneOf "#,[]\x7b\x7d&*!|>'\"%@\x60" (CodePoint.ofChar e) = true →
        first ≠ CodePoint.ofChar e := by
      rintro e he rfl
      rw [he] at hopens
      cases hopens
    have hcolon : first = CodePoint.ofChar ':' → Style.isGap rest.head? = false := by
      rintro rfl
      exact hgap
    rw [Style.holdsMark, hholds, decide_eq_false (hnone '#' rfl)]
    by_cases hfirst : first = CodePoint.ofChar ':'
    · rw [hcolon hfirst]
      simp
    · simp [hfirst]
  have hrs : runs (first :: rest) ≠ [] := fun heq => by
    rw [heq] at htext
    cases htext
  refine plainRuns_of_runs hrs hruns (by rwa [htext]) ?_ ?_ (by rwa [htext])
  · intro r hr
    obtain ⟨more, hmore⟩ := List.head?_eq_some_iff.1 hr
    rw [hmore] at hruns htext
    obtain ⟨kind, run⟩ := r
    cases hruns with
    | cons hrun hkind _ _ =>
      obtain ⟨c, others, rfl⟩ := List.exists_cons_of_ne_nil hrun
      obtain rfl : c = first := (List.cons.inj htext).1
      have hloose : ¬(Style.isBlank c || Style.isBreak c) = true := by
        intro heq
        rw [List.head?_cons, Option.any_some, heq] at hhead
        cases hhead
      rw [← hkind c List.mem_cons_self, Run.of]
      simp only [Style.isBlank, Bool.or_eq_true, decide_eq_true_eq, not_or] at hloose
      rw [if_neg hloose.1, if_neg hloose.2]
  · rw [htext]
    rintro c hc rfl
    rw [Option.mem_def.1 hc] at hlast
    cases hlast

/-- What is written without quotes is read as the text. -/
theorem reads_putPlain (s : Sheet) (split : Bool) (indent : Nat) (least : Int) {t : Text}
    (hne : t ≠ []) (h : Style.allowsPlain t = true)
    (hindent : 0 < indent) (hleast : least ≤ indent) : ∃ cs,
      Prints s (s.putPlain indent split t) (s.lead true ++ cs) ∧ PlainReads least cs t ∧
        (s.putPlain indent split t).indented = false ∧ ∃ word, BeginsWith word t cs := by
  have hplain := plainRuns_of_allowsPlain hne h
  have htext := (runs_spec t).2
  have hlead : Prints s (if s.spaced then s else s.put [' ']).inScalar (s.lead true) := by
    rw [lead]
    cases s.spaced with
    | true => exact (Prints.refl s).of_eq rfl rfl rfl rfl
    | false =>
      exact (prints_put s (List.forall_mem_singleton.2 ⟨rfl, rfl⟩)).of_eq
        rfl rfl rfl rfl
  have hputs : s.putPlain indent split t =
      putPlainRuns indent split (runs t) (if s.spaced then s else s.put [' ']).inScalar := by
    rw [putPlain, if_neg (by simpa using hne)]
  obtain ⟨cs, hprints, hreads, hend, hhead⟩ := hplain.exists_reads hindent hleast
    (s := (if s.spaced then s else s.put [' ']).inScalar) rfl
  rw [htext] at hreads
  rw [hputs]
  refine ⟨cs, hlead.trans hprints, hreads, hend, ?_⟩
  generalize hrs : runs t = rs at hplain hhead htext
  cases hplain with
  | @last run h hchar =>
    refine ⟨run, h, hchar, ⟨[], ?_, fun _ hc => by cases hc⟩, hhead _ rfl⟩
    rw [← htext, ofRuns, List.flatMap_singleton, List.append_nil]
  | @more run k run' rest h hchar hk _ _ =>
    refine ⟨run, h, hchar, ⟨_, htext.symm, ?_⟩, hhead _ rfl⟩
    obtain ⟨n, rfl⟩ := Nat.exists_eq_add_one_of_ne_zero (Nat.ne_of_gt hk)
    rintro _ ⟨rfl⟩
    rfl

end Sheet

end SiteRules.Yaml
