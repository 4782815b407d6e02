import SiteRules.Proofs.Yaml.Runs
import SiteRules.Text.Base64

/-!
# Lines of their own

Bytes are written as lines of their own, each indented, and read as the text of the lines
(`scanBlock_lines`).
-/

namespace SiteRules.Yaml

/-- The lines of a text, each with its line end. -/
def joinLines (ls : List (List Char)) : List Char :=
  ls.flatMap fun l => l ++ ['\n']

/-- The lines as they are written behind an indentation. -/
def indentLines (indent : Nat) (ls : List (List Char)) : List Char :=
  ls.flatMap fun l => List.replicate indent ' ' ++ (l ++ ['\n'])

/-- A line that is not empty and holds nothing but visible characters of basic Latin. -/
structure IsLine (l : List Char) : Prop where
  ne_nil : l ≠ []
  visible : ∀ d ∈ l, 0x20 < d.toNat ∧ d.toNat < 0x7f

/-- Neither blanks nor line ends are in a line. -/
theorem IsLine.inline {l : List Char} (h : IsLine l) :
    ∀ d ∈ l, isWritten d = true ∧ isSpace d = false ∧ isBreak d = false := by
  intro d hd
  have hvisible := h.visible d hd
  have hne : ∀ e : Char, e.toNat ≤ 0x20 ∨ 0x7f ≤ e.toNat → d ≠ e := by
    intro e he
    refine ne_of_toNat ?_
    omega
  refine ⟨isWritten_of_toNat (by omega) (by omega), ?_, ?_⟩
  · rw [isSpace, decide_eq_false (hne ' ' (by decide)), decide_eq_false (hne '\t' (by decide))]
    rfl
  · rw [isBreak, decide_eq_false (hne '\r' (by decide)), decide_eq_false (hne '\n' (by decide)),
      decide_eq_false (hne '\x85' (by decide)), decide_eq_false (hne '\u2028' (by decide)),
      decide_eq_false (hne '\u2029' (by decide))]
    rfl

/-! ## Reading -/

section Reading

variable {c : Cursor} {indent : Nat}

theorem advance_blanks {k : Nat} {rest : List Char}
    (hrest : c.rest = List.replicate k ' ' ++ rest) :
    (c.advance k).rest = rest ∧ (c.advance k).column = c.column + k := by
  rw [Cursor.advance_blanks hrest]
  exact ⟨rfl, rfl⟩

/-- The blanks in front of the first line tell its indentation. -/
theorem scanBlockIndentation_blanks (fuel : Nat) {k greatest : Nat} {rest : List Char}
    (hrest : c.rest = List.replicate k ' ' ++ rest) (hgreatest : greatest ≤ c.column)
    (hnext : ∀ d ∈ rest.head?, isSpace d = false ∧ isBreak d = false) (hfuel : k < fuel) :
    scanBlockIndentation fuel greatest c =
      ([], if k = 0 then greatest else c.column + k, c.advance k) := by
  induction k generalizing c greatest fuel with
  | zero =>
    obtain ⟨fuel, rfl⟩ := Nat.exists_eq_add_one_of_ne_zero (Nat.ne_of_gt hfuel)
    have hrest' : c.rest = rest := hrest
    have hnone : c.lineBreak? = none :=
      Cursor.lineBreak?_eq_none (by rw [hrest']; exact fun d hd => (hnext d hd).2)
    rw [scanBlockIndentation]
    split
    · next hpeek =>
      have hspace := (hnext ' ' (by
        rw [← hrest', List.head?_eq_getElem?]
        exact hpeek)).1
      cases hspace
    · rw [hnone]
      rfl
  | succ k ih =>
    obtain ⟨fuel, rfl⟩ := Nat.exists_eq_add_one_of_ne_zero (Nat.ne_of_gt (Nat.zero_lt_of_lt hfuel))
    have hone : c.step.rest = List.replicate k ' ' ++ rest ∧ c.step.column = c.column + 1 :=
      advance_blanks (k := 1) hrest
    have hmax : max greatest c.step.column = c.step.column := by
      rw [hone.2]
      omega
    rw [scanBlockIndentation, Cursor.peek_zero hrest]
    dsimp only
    rw [hmax, ih _ hone.1 (Nat.le_refl _) (Nat.lt_of_succ_lt_succ hfuel), hone.2,
      if_neg (Nat.succ_ne_zero k)]
    refine Prod.ext rfl (Prod.ext ?_ rfl)
    show (if k = 0 then c.column + 1 else c.column + 1 + k) = c.column + (k + 1)
    by_cases hk : k = 0
    · rw [if_pos hk, hk]
    · rw [if_neg hk]
      omega

/-- Blanks are skipped up to the indentation. -/
theorem skipIndent_blanks {k fuel : Nat} {rest : List Char}
    (hrest : c.rest = List.replicate k ' ' ++ rest) (hcolumn : c.column + k ≤ indent)
    (hnext : c.column + k = indent ∨ ∀ d ∈ rest.head?, isSpace d = false) (hfuel : k ≤ fuel) :
    skipIndent indent fuel c = c.advance k := by
  induction k generalizing c fuel with
  | zero =>
    have hrest' : c.rest = rest := hrest
    cases fuel with
    | zero => rfl
    | succ fuel =>
      rw [skipIndent, if_neg]
      · rfl
      · rw [Bool.and_eq_true, decide_eq_true_eq, decide_eq_true_eq]
        rintro ⟨hlt, hpeek⟩
        rcases hnext with heq | hspace
        · omega
        · have hblank := hspace ' ' (by
            rw [← hrest', List.head?_eq_getElem?]
            exact hpeek)
          cases hblank
  | succ k ih =>
    obtain ⟨fuel, rfl⟩ := Nat.exists_eq_add_one_of_ne_zero (Nat.ne_of_gt (Nat.zero_lt_of_lt hfuel))
    have hone : c.step.rest = List.replicate k ' ' ++ rest ∧ c.step.column = c.column + 1 :=
      advance_blanks (k := 1) hrest
    have hlt : c.column < indent := by omega
    rw [skipIndent, Cursor.peek_zero hrest, decide_eq_true hlt, if_pos (by simp)]
    refine ih hone.1 (by rw [hone.2]; omega) (hnext.imp_left fun heq => ?_)
      (Nat.le_of_succ_le_succ hfuel)
    rw [hone.2]
    omega

/-- No line is empty, so that only the indentation is skipped in front of one. -/
theorem scanBlockBreaks_blanks (indent fuel : Nat) {k : Nat} {rest : List Char}
    (hrest : c.rest = List.replicate k ' ' ++ rest) (hcolumn : c.column + k ≤ indent)
    (hnext : ∀ d ∈ rest.head?, isSpace d = false ∧ isBreak d = false) (hfuel : 0 < fuel) :
    scanBlockBreaks indent fuel c = ([], c.advance k) := by
  obtain ⟨fuel, rfl⟩ := Nat.exists_eq_add_one_of_ne_zero (Nat.ne_of_gt hfuel)
  have hnone : (c.advance k).lineBreak? = none :=
    Cursor.lineBreak?_eq_none (by
      rw [(advance_blanks hrest).1]
      exact fun d hd => (hnext d hd).2)
  rw [scanBlockBreaks, skipIndent_blanks hrest hcolumn (.inr fun d hd => (hnext d hd).1) (by omega)]
  dsimp only
  rw [hnone]

/-- What stands behind a line: the indentation of the next one, or of less. -/
theorem scanBlockLine {l rest : List Char} {k : Nat} (hl : IsLine l)
    (hrest : c.rest = l ++ '\n' :: (List.replicate k ' ' ++ rest)) (hcolumn : c.column = indent)
    (hk : k ≤ indent) (hnext : ∀ d ∈ rest.head?, isSpace d = false ∧ isBreak d = false)
    (breaks last : List Char) (fuel : Nat) :
    scanBlockLines false indent breaks last (fuel + 1) c =
      (let e := c.advance (l.length + (1 + k))
      if k = indent && !rest.isEmpty then
        let lines := scanBlockLines false indent [] ['\n'] fuel e
        { lines with content := (breaks ++ l) ++ ['\n'] ++ lines.content }
      else ⟨breaks ++ l, ['\n'], [], e⟩) := by
  have hnonempty : c.rest.isEmpty = false := by
    rw [hrest]
    simp
  have hspan := Cursor.span_eq (p := fun d => !isBreak d) hrest
    (fun d hd => by rw [(hl.inline d hd).2.2]; rfl) (by rintro _ ⟨rfl⟩; rfl)
  have hbehind := Cursor.rest_advance hrest
  have hbreak := Cursor.lineBreak?_eq_some hbehind rfl rfl
  have hstep : (c.advance l.length).step.rest = List.replicate k ' ' ++ rest ∧
      (c.advance l.length).step.column = 0 := by
    rw [Cursor.step_eq hbehind rfl]
    exact ⟨rfl, rfl⟩
  have hblanks := advance_blanks hstep.1
  have hbreaks := scanBlockBreaks_blanks indent
    ((c.advance l.length).step.rest.length + 1) hstep.1 (by rw [hstep.2]; omega) hnext
    (Nat.succ_pos _)
  have hplace : (c.advance l.length).step.advance k = c.advance (l.length + (1 + k)) := by
    rw [Cursor.advance_add, Nat.add_comm 1 k]
    rfl
  rw [hplace] at hblanks hbreaks
  rw [scanBlockLines, hcolumn, hnonempty, hspan]
  simp only [decide_true, Bool.not_false, Bool.and_self, if_true]
  rw [hbreak]
  dsimp only
  rw [hbreaks, hblanks.1, hblanks.2, hstep.2, Nat.zero_add]
  simp only [Bool.false_and, Bool.false_eq_true, if_false]
  rfl

variable {l more : List Char} {ls : List (List Char)} {k : Nat}

theorem IsLine.opens (h : IsLine l) (rest : List Char) :
    ∀ d ∈ (l ++ rest).head?, isSpace d = false ∧ isBreak d = false := by
  intro d hd
  cases l with
  | nil => exact absurd rfl h.ne_nil
  | cons e l =>
    cases hd
    exact (h.inline d List.mem_cons_self).2

/-- Every line up to one that is indented less is read as it was written. -/
theorem scanBlockLines_lines (fuel : Nat) (hl : IsLine l) (hls : ∀ l ∈ ls, IsLine l)
    (hrest : c.rest = l ++ '\n' :: (indentLines indent ls ++ (List.replicate k ' ' ++ more)))
    (hcolumn : c.column = indent) (hk : k < indent)
    (hmore : ∀ d ∈ more.head?, isSpace d = false ∧ isBreak d = false)
    (hfuel : ls.length < fuel) (breaks last : List Char) :
    ∃ content, content ++ ['\n'] = breaks ++ joinLines (l :: ls) ∧
      scanBlockLines false indent breaks last fuel c =
        ⟨content, ['\n'], [], c.advance ((l ++ '\n' :: indentLines indent ls).length + k)⟩ := by
  induction ls generalizing l c fuel breaks last with
  | nil =>
    obtain ⟨fuel, rfl⟩ := Nat.exists_eq_add_one_of_ne_zero (Nat.ne_of_gt hfuel)
    refine ⟨breaks ++ l, by simp [joinLines], ?_⟩
    rw [scanBlockLine hl hrest hcolumn (Nat.le_of_lt hk) hmore]
    dsimp only
    rw [decide_eq_false (Nat.ne_of_lt hk), Bool.false_and, if_neg Bool.false_ne_true]
    congr 2
    simp only [indentLines, List.flatMap_nil, List.length_append, List.length_singleton]
    omega
  | cons next ls ih =>
    obtain ⟨hnext, hls⟩ := List.forall_mem_cons.1 hls
    obtain ⟨fuel, rfl⟩ := Nat.exists_eq_add_one_of_ne_zero (Nat.ne_of_gt (Nat.zero_lt_of_lt hfuel))
    have hrest' : c.rest = l ++ '\n' :: (List.replicate indent ' ' ++
        (next ++ '\n' :: (indentLines indent ls ++ (List.replicate k ' ' ++ more)))) := by
      rw [hrest]
      simp [indentLines]
    have hplace := advance_blanks (k := indent) (c := c.advance (l.length + 1)) (by
      have hfront : c.rest = (l ++ ['\n']) ++ (List.replicate indent ' ' ++
          (next ++ '\n' :: (indentLines indent ls ++ (List.replicate k ' ' ++ more)))) := by
        rw [hrest', List.append_assoc]
        rfl
      have hbehind := Cursor.rest_advance hfront
      rw [List.length_append, List.length_singleton] at hbehind
      exact hbehind)
    -- The line end leads to the first column, and the indentation from there to the next line.
    have hzero : (c.advance (l.length + 1)).column = 0 := by
      have hbehind := Cursor.rest_advance hrest'
      rw [Cursor.advance_add]
      show (c.advance l.length).step.column = 0
      rw [Cursor.step_eq hbehind rfl]
      rfl
    rw [← Cursor.advance_add, hzero, Nat.zero_add, Nat.add_assoc] at hplace
    obtain ⟨content, hcontent, hlines⟩ :=
      ih _ hnext hls hplace.1 hplace.2 (Nat.lt_of_succ_lt_succ hfuel) [] ['\n']
    refine ⟨(breaks ++ l) ++ ['\n'] ++ content, ?_, ?_⟩
    · rw [List.append_assoc, hcontent]
      simp [joinLines]
    · rw [scanBlockLine hl hrest' hcolumn (Nat.le_refl _) (hnext.opens _)]
      dsimp only
      rw [decide_eq_true rfl, Bool.true_and, if_pos (by simp), hlines]
      dsimp only
      rw [← Cursor.advance_add]
      congr 2
      simp only [indentLines, List.flatMap_cons, List.length_append, List.length_cons,
        List.length_replicate, List.length_nil]
      omega

/-- Nothing but a line end is behind the mark of lines of their own. -/
theorem scanBlockHeader_line {rest : List Char} (hrest : c.rest = '\n' :: rest) :
    scanBlockHeader c = .ok (.one, none, c) := by
  have hdigit : indentation? (some '\n') = none := by decide
  have hsign : Chomping.ofSign? (some '\n') = none := by decide
  have hend : endsWord (some '\n') = true := by decide
  rw [scanBlockHeader, Cursor.peek_zero hrest, hsign, hdigit]
  dsimp only
  rw [Cursor.peek_zero hrest, hend]
  rfl

theorem scanLineRest_line {rest : List Char} (hrest : c.rest = '\n' :: rest) :
    scanLineRest c = .ok c.step := by
  have hspan : c.span (fun d => decide (d = ' ')) = ([], c.advance 0) :=
    Cursor.span_eq hrest (List.forall_mem_nil _) (by rintro _ ⟨rfl⟩; rfl)
  have hskip : c.skip (fun d => decide (d = ' ')) = c := by
    rw [Cursor.skip, hspan]
    rfl
  have hcomment : c.skipComment = c := by
    rw [Cursor.skipComment, Cursor.peek_zero hrest, if_neg (by decide)]
  have hend : endsLine (some '\n') = true := by decide
  rw [scanLineRest, hskip, hcomment, Cursor.peek_zero hrest, if_pos hend, Cursor.skipLineBreak,
    Cursor.lineBreak?_eq_some hrest rfl rfl]
  rfl

theorem length_le_indentLines (n : Nat) (ls : List (List Char)) :
    ls.length ≤ (indentLines n ls).length := by
  induction ls with
  | nil => exact Nat.zero_le _
  | cons l ls ih =>
    rw [indentLines] at ih
    rw [indentLines, List.flatMap_cons, List.length_append]
    simp only [List.length_append, List.length_cons, List.length_replicate]
    omega

/-- The mark in front of lines of their own, and the lines behind it. -/
theorem scanBlock_lines (outer : Int) (hl : IsLine l) (hls : ∀ l ∈ ls, IsLine l)
    (hrest : c.rest = '|' :: '\n' :: (indentLines indent (l :: ls) ++
      (List.replicate k ' ' ++ more)))
    (houter : max 1 (outer + 1).toNat ≤ indent) (hk : k < indent)
    (hmore : ∀ d ∈ more.head?, isSpace d = false ∧ isBreak d = false) :
    scanBlock false outer c = .ok (Text.ofChars (joinLines (l :: ls)),
      c.advance (2 + (indentLines indent (l :: ls)).length + k)) := by
  have hmark : c.step.rest = '\n' :: (indentLines indent (l :: ls) ++
      (List.replicate k ' ' ++ more)) := by
    rw [Cursor.step_eq hrest rfl]
  have hlines : c.step.step.rest = List.replicate indent ' ' ++
      (l ++ '\n' :: (indentLines indent ls ++ (List.replicate k ' ' ++ more))) ∧
      c.step.step.column = 0 := by
    rw [Cursor.step_eq hmark rfl]
    exact ⟨by simp [indentLines], rfl⟩
  have hlength : indent + ls.length < c.step.step.rest.length + 1 := by
    have hcount := length_le_indentLines indent ls
    rw [hlines.1]
    simp only [List.length_append, List.length_cons, List.length_replicate]
    omega
  have hindent : indent ≠ 0 := by omega
  have hfirst := advance_blanks hlines.1
  rw [hlines.2, Nat.zero_add] at hfirst
  obtain ⟨content, hcontent, hscan⟩ := scanBlockLines_lines (c.step.step.rest.length + 1)
    hl hls hfirst.1 hfirst.2 hk hmore (by omega) [] []
  have hblanks := scanBlockIndentation_blanks (c.step.step.rest.length + 1)
    hlines.1 (Nat.zero_le _) (hl.opens _) (by omega)
  rw [hlines.2, Nat.zero_add, if_neg hindent] at hblanks
  rw [scanBlock, scanBlockHeader_line hmark]
  simp only [bind, Except.bind, scanLineRest_line hmark, hblanks, Nat.max_eq_right houter, hscan,
    hcontent, List.nil_append, ← Cursor.advance_add]
  have hplace : ∀ n, c.step.step.advance n = c.advance (2 + n) := by
    intro n
    rw [Cursor.advance_add]
    rfl
  rw [hplace]
  show Except.ok _ = Except.ok _
  congr 3
  simp only [indentLines, List.flatMap_cons, List.length_append, List.length_cons,
    List.length_replicate, List.length_nil]
  omega

end Reading

/-! ## Writing -/

section Writing

variable {l : List Char} {ls : List (List Char)}

/-- The visible code points of basic Latin. -/
theorem visible_spec {c : CodePoint} (h : 0x20 < c.val ∧ c.val < 0x7f) :
    Sheet.Run.of c = .words ∧ Style.isSpecial c = false ∧ Style.isBlank c = false ∧
      Style.isBreak c = false :=
  CodePoint.forall_basicLatin (P := fun c => 0x20 < c.val ∧ c.val < 0x7f →
    Sheet.Run.of c = .words ∧ Style.isSpecial c = false ∧ Style.isBlank c = false ∧
      Style.isBreak c = false) (by decide) (by omega) h

theorem IsLine.codePoints (h : IsLine l) : ∀ c ∈ Text.ofChars l, 0x20 < c.val ∧ c.val < 0x7f :=
  List.forall_mem_map.2 h.visible

/-- The runs of lines: the text of each, and its line end. -/
def lineRuns (ls : List (List Char)) : List (Sheet.Run × Text) :=
  ls.flatMap fun l => [(.words, Text.ofChars l), (.breaks, Text.ofChars ['\n'])]

theorem areRuns_lineRuns (h : ∀ l ∈ ls, IsLine l) : Sheet.AreRuns (lineRuns ls) := by
  induction ls with
  | nil => exact .nil
  | cons l ls ih =>
    obtain ⟨hl, hls⟩ := List.forall_mem_cons.1 h
    refine .cons (List.map_eq_nil_iff.not.2 hl.ne_nil)
      (fun c hc => (visible_spec (hl.codePoints c hc)).1) (by rintro _ ⟨rfl⟩; decide)
      (.cons (List.cons_ne_nil _ _) (List.forall_mem_singleton.2 (by decide)) ?_ (ih hls))
    cases ls with
    | nil => exact fun r hr => by cases hr
    | cons l ls =>
      rintro _ ⟨rfl⟩
      show Sheet.Run.words ≠ .breaks
      decide

theorem ofRuns_lineRuns (ls : List (List Char)) :
    Sheet.ofRuns (lineRuns ls) = Text.ofChars (joinLines ls) := by
  induction ls with
  | nil => rfl
  | cons l ls ih =>
    rw [joinLines, List.flatMap_cons, Text.ofChars, List.map_append, List.map_append, lineRuns,
      List.flatMap_cons, Sheet.ofRuns, List.flatMap_append]
    exact congrArg₂ _ (by simp [Text.ofChars]) ih

theorem toChars_ofChars (cs : List Char) : (Text.ofChars cs).map CodePoint.toChar = cs := by
  rw [Text.ofChars, List.map_map]
  exact (List.map_congr_left fun d _ => CodePoint.toChar_ofChar d).trans (List.map_id _)

/-- At the beginning of a line the lines are written behind the indentation. -/
theorem Sheet.putLiteralRuns_lineRuns (indent : Nat) (ls : List (List Char)) (written : List Char) :
    putLiteralRuns indent (lineRuns ls) ⟨written, 0, true, true⟩ =
      ⟨(indentLines indent ls).reverse ++ written, 0, true, true⟩ := by
  induction ls generalizing written with
  | nil => rfl
  | cons l ls ih =>
    have hgap : gap ⟨written, 0, true, true⟩ indent = List.replicate indent ' ' := by
      rw [gap, if_neg]
      · rfl
      · simp [needsLine]
    have hline : (((Sheet.indentTo ⟨written, 0, true, true⟩ indent).putText
        (Text.ofChars l)).putBreaks (Text.ofChars ['\n'])) =
          ⟨(List.replicate indent ' ' ++ (l ++ ['\n'])).reverse ++ written, 0, true, true⟩ := by
      rw [indentTo_eq, hgap, putText, toChars_ofChars]
      simp [putBreaks, put, breakWith, Text.ofChars, CodePoint.toChar_ofChar]
    rw [lineRuns, List.flatMap_cons]
    show putLiteralRuns indent (lineRuns ls) _ = _
    rw [if_pos rfl]
    show putLiteralRuns indent (lineRuns ls) (((Sheet.indentTo ⟨written, 0, true, true⟩
      indent).putText (Text.ofChars l)).putBreaks (Text.ofChars ['\n'])) = _
    rw [hline, ih]
    simp [indentLines]

/-- Lines end in a line end behind something visible. -/
theorem exists_joinLines_eq (hl : IsLine l) (hls : ∀ l ∈ ls, IsLine l) :
    ∃ front d, joinLines (l :: ls) = front ++ [d, '\n'] ∧ 0x20 < d.toNat ∧ d.toNat < 0x7f := by
  induction ls generalizing l with
  | nil =>
    obtain hnil | ⟨front, d, rfl⟩ := List.eq_nil_or_concat l
    · exact absurd hnil hl.ne_nil
    · exact ⟨front, d, by simp [joinLines], hl.visible d (by simp)⟩
  | cons next ls ih =>
    obtain ⟨hnext, hls⟩ := List.forall_mem_cons.1 hls
    obtain ⟨front, d, hfront, hd⟩ := ih hnext hls
    refine ⟨l ++ '\n' :: front, d, ?_, hd⟩
    have hcons : joinLines (l :: next :: ls) = l ++ '\n' :: joinLines (next :: ls) := by
      simp [joinLines]
    rw [hcons, hfront, List.append_assoc]
    rfl

theorem Sheet.literalHints_joinLines (hl : IsLine l) (hls : ∀ l ∈ ls, IsLine l) :
    literalHints (Text.ofChars (joinLines (l :: ls))) = [] := by
  have hhead : ((Text.ofChars (joinLines (l :: ls))).head?.any fun (c : CodePoint) =>
      c = ' ' || Style.isBreak c) = false := by
    obtain ⟨d, rest, rfl⟩ := List.exists_cons_of_ne_nil hl.ne_nil
    have hvisible := visible_spec (hl.codePoints _ List.mem_cons_self)
    show (decide (CodePoint.ofChar d = CodePoint.ofChar ' ') || _) = false
    rw [hvisible.2.2.2, Bool.or_false]
    exact hvisible.2.2.1
  obtain ⟨front, d, hfront, hd⟩ := exists_joinLines_eq hl hls
  have hlast := (visible_spec (c := CodePoint.ofChar d) hd).2.2.2
  have hbreak : Style.isBreak (CodePoint.ofChar '\n') = true := by decide
  have hreverse : (Text.ofChars (joinLines (l :: ls))).reverse =
      CodePoint.ofChar '\n' :: CodePoint.ofChar d :: (Text.ofChars front).reverse := by
    rw [hfront]
    simp [Text.ofChars]
  rw [literalHints, hhead, hreverse]
  simp [hbreak, hlast]

/-- Lines are written behind their mark, and the sheet is left at the beginning of a line. -/
theorem Sheet.putLiteral_lines (s : Sheet) (indent : Nat) (hl : IsLine l)
    (hls : ∀ l ∈ ls, IsLine l) :
    s.putLiteral indent (Text.ofChars (joinLines (l :: ls))) =
      ⟨(s.lead true ++ '|' :: '\n' :: indentLines indent (l :: ls)).reverse ++ s.written,
        0, true, true⟩ := by
  have hlines := List.forall_mem_cons.2 ⟨hl, hls⟩
  have hruns : runs (Text.ofChars (joinLines (l :: ls))) = lineRuns (l :: ls) := by
    rw [← ofRuns_lineRuns, runs_ofRuns (areRuns_lineRuns hlines)]
  obtain ⟨front, d, hfront, -⟩ := exists_joinLines_eq hl hls
  have hlast : (Text.ofChars (joinLines (l :: ls))).getLast?.any Style.isBreak = true := by
    have hbreak : Style.isBreak (CodePoint.ofChar '\n') = true := by decide
    rw [hfront]
    simp [Text.ofChars, hbreak]
  rw [putLiteral, literalHints_joinLines hl hls, hruns, hlast, mark_eq, breakWith,
    putLiteralRuns_lineRuns]
  simp

theorem columnAfter_indentLines (indent : Nat) (ls : List (List Char)) :
    columnAfter 0 (indentLines indent ls) = 0 := by
  induction ls with
  | nil => rfl
  | cons l ls ih =>
    have hcons : indentLines indent (l :: ls) =
        (List.replicate indent ' ' ++ l ++ ['\n']) ++ indentLines indent ls := by
      simp [indentLines]
    rw [hcons, columnAfter_append, columnAfter_line _ (by decide) (List.forall_mem_nil _)]
    exact ih

theorem isWritten_indentLines (indent : Nat) (h : ∀ l ∈ ls, IsLine l) :
    ∀ d ∈ indentLines indent ls, isWritten d = true := by
  intro d hd
  obtain ⟨l, hl, hd⟩ := List.mem_flatMap.1 hd
  rcases List.mem_append.1 hd with hblank | hd
  · rw [List.eq_of_mem_replicate hblank]
    decide
  · rcases List.mem_append.1 hd with hline | hbreak
    · exact ((h l hl).inline d hline).1
    · rw [List.mem_singleton.1 hbreak]
      decide

theorem Sheet.prints_putLiteral (s : Sheet) (indent : Nat) (hl : IsLine l)
    (hls : ∀ l ∈ ls, IsLine l) :
    Prints s (s.putLiteral indent (Text.ofChars (joinLines (l :: ls))))
      (s.lead true ++ '|' :: '\n' :: indentLines indent (l :: ls)) := by
  rw [s.putLiteral_lines indent hl hls]
  refine ⟨rfl, ?_, ?_⟩
  · rw [columnAfter_append]
    exact (columnAfter_indentLines indent (l :: ls)).symm
  · refine List.forall_mem_append.2 ⟨?_, List.forall_mem_cons.2 ⟨by decide, List.forall_mem_cons.2
      ⟨by decide, isWritten_indentLines indent (List.forall_mem_cons.2 ⟨hl, hls⟩)⟩⟩⟩
    rw [lead]
    split
    · exact List.forall_mem_nil _
    · exact List.forall_mem_singleton.2 (by decide)

end Writing

end SiteRules.Yaml
