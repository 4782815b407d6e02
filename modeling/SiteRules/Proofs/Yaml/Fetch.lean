import SiteRules.Proofs.Yaml.Column
import SiteRules.Yaml.Token.Lexer

/-!
# Steps of the lexer

One state of the lexer leads to another if all that is found from the other is found from the first
(`Lexer.Leads`). Between two tokens the lexer passes over what is written to get to a column, and
closes the blocks that are indented further (`Lexer.At.arrive`). The marks of items and entries are
found there.
-/

namespace SiteRules.Yaml

/-- What stands behind layout: the end of the text, or something that is no layout. -/
def Opens (more : List Char) : Prop :=
  ∀ d ∈ more.head?, isSpace d = false ∧ isBreak d = false ∧ d ≠ '#'

namespace Lexer

variable {l l' l'' : Lexer} {k n : Nat} {more : List Char}

/-! ## Runs -/

theorem run_succ {ts : List Token} (h : l.run n = (ts, none)) : l.run (n + 1) = (ts, none) := by
  induction n generalizing l with
  | zero => cases h
  | succ n ih =>
    rw [run] at h
    rw [run]
    split at h
    · next hdone => rw [if_pos hdone, h]
    · next hdone =>
      rw [if_neg hdone]
      split at h
      · cases h
      · exact ih h

theorem run_add {ts : List Token} (h : l.run n = (ts, none)) (k : Nat) :
    l.run (n + k) = (ts, none) := by
  induction k with
  | zero => exact h
  | succ k ih => exact run_succ ih

/-- What is found from one state up to the end of the text is found from another, if both may take
as many steps as there are characters to come, and some more. -/
def Leads (l l' : Lexer) : Prop :=
  ∀ ts n, l'.run (l'.cursor.rest.length + n) = (ts, none) →
    l.run (l.cursor.rest.length + n) = (ts, none)

theorem Leads.refl (l : Lexer) : Leads l l :=
  fun _ _ h => h

theorem Leads.trans (h : Leads l l') (h' : Leads l' l'') : Leads l l'' :=
  fun ts n hrun => h ts n (h' ts n hrun)

/-- Two states from which the same is fetched find the same. -/
theorem run_of_fetch_eq {ts : List Token} (hdone : l.done = false) (hdone' : l'.done = false)
    (hfetch : l.fetch = l'.fetch) (h : l'.run n = (ts, none)) : l.run n = (ts, none) := by
  cases n with
  | zero => cases h
  | succ n =>
    rw [run, hdone', if_neg Bool.false_ne_true] at h
    rw [run, hdone, if_neg Bool.false_ne_true, hfetch]
    split at h
    · cases h
    · exact h

theorem Leads.of_fetch_eq (hdone : l.done = false) (hdone' : l'.done = false)
    (hfetch : l.fetch = l'.fetch) (hrest : l'.cursor.rest.length ≤ l.cursor.rest.length) :
    Leads l l' := by
  intro ts n hrun
  obtain ⟨k, hk⟩ := Nat.exists_eq_add_of_le hrest
  have hsame := run_add (run_of_fetch_eq hdone hdone' hfetch hrun) k
  rwa [Nat.add_right_comm, ← hk] at hsame

/-- A step that goes past some characters leads to every state from which the same is fetched as
from the next one. -/
theorem Leads.of_fetch {next : Lexer} (hdone : l.done = false) (hfetch : l.fetch = .ok next)
    (hnext : next = l' ∨ next.done = false ∧ l'.done = false ∧ next.fetch = l'.fetch)
    (hrest : l'.cursor.rest.length < l.cursor.rest.length) : Leads l l' := by
  intro ts n hrun
  have hsame : next.run (l'.cursor.rest.length + n) = (ts, none) := by
    rcases hnext with rfl | ⟨hdone, hdone', hfetch⟩
    · exact hrun
    · exact run_of_fetch_eq hdone hdone' hfetch hrun
  have hstep : l.run (l'.cursor.rest.length + n + 1) = (ts, none) := by
    rw [run, hdone, if_neg Bool.false_ne_true, hfetch]
    exact hsame
  obtain ⟨k, hk⟩ := Nat.exists_eq_add_of_lt hrest
  have hadd := run_add hstep k
  rwa [show l'.cursor.rest.length + n + 1 + k = l.cursor.rest.length + n from by omega] at hadd

/-! ## Layout -/

theorem skip_blanks {c : Cursor} (hrest : c.rest = List.replicate k ' ' ++ more) (h : Opens more) :
    (c.skip fun d => decide (d = ' ')).skipComment = c.advance k := by
  have hspan := Cursor.span_eq (p := fun d => decide (d = ' ')) hrest
    (fun d hd => decide_eq_true (List.eq_of_mem_replicate hd)) (by
      intro d hd
      refine decide_eq_false ?_
      rintro rfl
      cases (h _ hd).1)
  rw [List.length_replicate] at hspan
  rw [Cursor.skip, hspan, Cursor.skipComment, if_neg]
  intro hpeek
  rw [Cursor.peek, Cursor.advance_blanks hrest, ← List.head?_eq_getElem?] at hpeek
  exact (h _ hpeek).2.2 rfl

theorem skipToToken_blanks (hrest : l.cursor.rest = List.replicate k ' ' ++ more) (h : Opens more)
    (fuel : Nat) :
    skipToToken (fuel + 1) l = { l with cursor := l.cursor.advance k } := by
  have hnone : (l.cursor.advance k).lineBreak? = none :=
    Cursor.lineBreak?_eq_none (by
      rw [Cursor.advance_blanks hrest]
      exact fun d hd => (h d hd).2.1)
  rw [skipToToken, skip_blanks hrest h, hnone]

/-- A line end allows a key to follow. -/
theorem skipToToken_line (hrest : l.cursor.rest = '\n' :: (List.replicate k ' ' ++ more))
    (h : Opens more) (hlevel : l.flowLevel = 0) (fuel : Nat) :
    skipToToken (fuel + 2) l =
      { l with cursor := l.cursor.advance (k + 1), keyAllowed := true } := by
  have hskip : (l.cursor.skip fun d => decide (d = ' ')).skipComment = l.cursor := by
    have hspan := Cursor.span_eq (c := l.cursor) (p := fun d => decide (d = ' '))
      hrest (List.forall_mem_nil _) (by rintro _ ⟨rfl⟩; rfl)
    have hpeek : l.cursor.peek 0 = some '\n' := Cursor.peek_zero hrest
    rw [Cursor.skip, hspan]
    show l.cursor.skipComment = _
    rw [Cursor.skipComment, hpeek, if_neg (by decide)]
  have hstep : l.cursor.step.rest = List.replicate k ' ' ++ more := by
    rw [Cursor.step_eq hrest rfl]
  have hflow : (l.keyAllowed || !l.inFlow) = true := by
    rw [inFlow, hlevel]
    simp
  rw [skipToToken, hskip, Cursor.lineBreak?_eq_some hrest rfl rfl]
  dsimp only
  rw [hflow, skipToToken_blanks hstep h]
  rfl

/-- Blanks in front of the next token do not change what is fetched. -/
theorem fetch_blanks (hrest : l.cursor.rest = List.replicate k ' ' ++ more) (h : Opens more) :
    fetch { l with cursor := l.cursor.advance k } = l.fetch := by
  have hplace : (l.cursor.advance k).rest = List.replicate 0 ' ' ++ more := by
    rw [Cursor.advance_blanks hrest]
    rfl
  have hskip := skipToToken_blanks (l := { l with cursor := l.cursor.advance k }) hplace h
  rw [fetch, fetch, hskip, skipToToken_blanks hrest h]
  rfl

/-! ## Blocks that are closed -/

theorem unwindFrom_of_le {column : Int} (h : l.indent ≤ column) (indents : List Int) :
    unwindFrom column indents l = l := by
  cases indents with
  | nil => rfl
  | cons outer rest => rw [unwindFrom, if_neg (by omega)]

theorem unwind_of_le {column : Int} (h : l.indent ≤ column) : l.unwind column = l := by
  rw [unwind]
  split
  · rfl
  · exact unwindFrom_of_le h _

/-- What is closed does not depend on where the lexer is. -/
theorem unwindFrom_with (column : Int) (indents : List Int) (l : Lexer) (cursor : Cursor)
    (keyAllowed : Bool) (candidates : List (Nat × KeyCandidate)) :
    unwindFrom column indents { l with cursor, keyAllowed, candidates } =
      { unwindFrom column indents l with cursor, keyAllowed, candidates } := by
  induction indents generalizing l with
  | nil => rfl
  | cons outer rest ih =>
    rw [unwindFrom, unwindFrom]
    show (if column < l.indent then _ else _) = _
    split
    · exact ih { l.push .blockEnd with indent := outer, indents := rest }
    · rfl

theorem unwind_with (column : Int) (l : Lexer) (cursor : Cursor) (keyAllowed : Bool)
    (candidates : List (Nat × KeyCandidate)) :
    unwind { l with cursor, keyAllowed, candidates } column =
      { l.unwind column with cursor, keyAllowed, candidates } := by
  rw [unwind, unwind]
  show (if l.inFlow = true then _ else _) = _
  split
  · rfl
  · exact unwindFrom_with _ _ _ _ _ _

/-- What closing blocks leaves as it is. -/
theorem unwindFrom_frame (column : Int) (indents : List Int) (l : Lexer) :
    (unwindFrom column indents l).cursor = l.cursor ∧
      (unwindFrom column indents l).flowLevel = l.flowLevel ∧
      (unwindFrom column indents l).done = l.done ∧
      (l.count = l.found.length → (unwindFrom column indents l).count =
        (unwindFrom column indents l).found.length) := by
  induction indents generalizing l with
  | nil => exact ⟨rfl, rfl, rfl, id⟩
  | cons outer rest ih =>
    rw [unwindFrom]
    split
    · obtain ⟨hcursor, hlevel, hdone, hcount⟩ := ih { l.push .blockEnd with
        indent := outer, indents := rest }
      exact ⟨hcursor, hlevel, hdone, fun h => hcount (congrArg (· + 1) h)⟩
    · exact ⟨rfl, rfl, rfl, id⟩

theorem unwind_frame (column : Int) (l : Lexer) : (l.unwind column).cursor = l.cursor ∧
    (l.unwind column).flowLevel = l.flowLevel ∧ (l.unwind column).done = l.done ∧
      (l.count = l.found.length → (l.unwind column).count = (l.unwind column).found.length) := by
  rw [unwind]
  split
  · exact ⟨rfl, rfl, rfl, id⟩
  · exact unwindFrom_frame _ _ _

theorem unwindFrom_unwindFrom {column column' : Int} (h : column ≤ column') (l : Lexer) :
    unwindFrom column (unwindFrom column' l.indents l).indents (unwindFrom column' l.indents l) =
      unwindFrom column l.indents l := by
  generalize hindents : l.indents = indents
  induction indents generalizing l with
  | nil =>
    show unwindFrom column l.indents l = _
    rw [hindents]
  | cons outer rest ih =>
    rw [unwindFrom]
    split
    · next hlt =>
      rw [unwindFrom, if_pos (by omega)]
      exact ih _ rfl
    · rw [hindents]

/-- Blocks can be closed in two steps. -/
theorem unwind_unwind {column column' : Int} (h : column ≤ column') (l : Lexer) :
    (l.unwind column').unwind column = l.unwind column := by
  have hlevel := (unwind_frame column' l).2.1
  by_cases hflow : l.inFlow = true
  · have hsame : ∀ c, l.unwind c = l := fun c => if_pos hflow
    rw [hsame, hsame]
  · have hunwound : ¬(l.unwind column').inFlow = true := by
      rw [inFlow, hlevel]
      exact hflow
    rw [unwind, if_neg hunwound, unwind, if_neg hflow, unwind, if_neg hflow]
    exact unwindFrom_unwindFrom h l

/-! ## Keys that may have begun -/

/-- A candidate on an earlier line cannot be a key any more. -/
theorem dropStale_earlier (h : ∀ e ∈ l.candidates, e.2.required = false ∧
    e.2.line < l.cursor.line) : l.dropStale = .ok { l with candidates := [] } := by
  have hstale : ∀ e ∈ l.candidates, l.isStale e.2 = true := by
    intro e he
    have hlt := (h e he).2
    rw [isStale, decide_eq_true (show e.2.line ≠ l.cursor.line by omega), Bool.true_or]
  rw [dropStale, if_neg]
  · rw [List.filter_eq_nil_iff.2 fun e he => by rw [hstale e he]; decide]
  · rw [List.any_eq_true]
    rintro ⟨e, he, hboth⟩
    rw [(h e he).1, Bool.and_false] at hboth
    cases hboth

/-- What need not be a key can be dropped. -/
theorem dropStale_optional (h : ∀ e ∈ l.candidates, e.2.required = false) :
    ∃ kept, l.dropStale = .ok kept ∧ kept.candidates ⊆ l.candidates := by
  refine ⟨{ l with candidates := l.candidates.filter fun e => !l.isStale e.2 }, ?_,
    List.filter_subset_self _⟩
  rw [dropStale, if_neg]
  rw [List.any_eq_true]
  rintro ⟨e, he, hboth⟩
  rw [h e he, Bool.and_false] at hboth
  cases hboth

theorem dropCandidate_optional (h : ∀ e ∈ l.candidates, e.1 = l.flowLevel ∧ e.2.required = false) :
    l.dropCandidate = .ok { l with candidates := [] } := by
  rw [dropCandidate]
  cases hlookup : l.candidates.lookup l.flowLevel with
  | none =>
    have hnil : l.candidates = [] := by
      rw [List.lookup_eq_none_iff] at hlookup
      refine List.eq_nil_iff_forall_not_mem.2 fun e he => ?_
      have hne := hlookup e he
      simp [(h e he).1] at hne
    rw [← hnil]
  | some k =>
    obtain ⟨before, behind, heq, -⟩ := List.lookup_eq_some_iff.1 hlookup
    have hmem : (l.flowLevel, k) ∈ l.candidates := by
      rw [heq]
      exact List.mem_append_right _ List.mem_cons_self
    dsimp only
    rw [(h _ hmem).2, if_neg Bool.false_ne_true,
      List.filter_eq_nil_iff.2 fun e he => by simp [(h e he).1]]

/-! ## Sheets that are read -/

/-- The lexer has read what is on a sheet, and some characters are to come. What may have been a key
before is no key any more, once the sheet is at the beginning of a line. -/
structure At (s : Sheet) (rest : List Char) (l : Lexer) : Prop where
  rest : l.cursor.rest = rest
  column : l.cursor.column = s.column
  level : l.flowLevel = 0
  going : l.done = false
  count : l.count = l.found.length
  candidates : ∀ e ∈ l.candidates, e.1 = 0 ∧ e.2.required = false ∧
    e.2.line ≤ l.cursor.line ∧ (s.indented = true → e.2.line < l.cursor.line)
  allowed : s.indented = true → l.keyAllowed = true

/-- The lexer has read what is on a sheet; once the blocks are closed that are indented further than
a block, it has found some tokens and is in that block and in some blocks around it. -/
structure Reads (s : Sheet) (rest : List Char) (block : Int) (tokens : List Token)
    (outer : List Int) (l : Lexer) : Prop extends At s rest l where
  found : (l.unwind block).found = tokens
  indent : (l.unwind block).indent = block
  indents : (l.unwind block).indents = outer

/-- The lexer at the beginning of a line or behind the marks there, where a block can begin. -/
structure Begins (s : Sheet) (rest : List Char) (l : Lexer) : Prop where
  rest : l.cursor.rest = rest
  column : l.cursor.column = s.column
  level : l.flowLevel = 0
  going : l.done = false
  count : l.count = l.found.length
  candidates : l.candidates = []
  allowed : l.keyAllowed = true

theorem Begins.toAt {s : Sheet} {rest : List Char} (h : Begins s rest l) : At s rest l where
  rest := h.rest
  column := h.column
  level := h.level
  going := h.going
  count := h.count
  candidates := by
    rw [h.candidates]
    exact List.forall_mem_nil _
  allowed := fun _ => h.allowed

variable {s : Sheet}

/-- The way to the column to which the sheet went is passed over. Either it ends a line, or the line
has only indentation and marks so far. -/
theorem At.skipGap (h : At s (s.gap n ++ more) l) (hmore : Opens more) :
    skipToToken (l.cursor.rest.length + 1) l =
        { l with cursor := l.cursor.advance (s.gap n).length, keyAllowed := true } ∧
      ∀ e ∈ l.candidates, e.2.line < (l.cursor.advance (s.gap n).length).line := by
  have hadvance := Cursor.advance_eq h.rest (s.prints_indentTo n).are_written
  have hblanks : ∀ k, (List.replicate k ' ').countP isBreak = 0 := by
    refine fun k => List.countP_eq_zero.2 fun d hd => ?_
    rw [List.eq_of_mem_replicate hd]
    decide
  -- A line end lets a key begin; without one it must have been allowed to begin already.
  by_cases hline : s.needsLine n = true
  · have hgap : s.gap n = '\n' :: List.replicate n ' ' := if_pos hline
    have hnext : l.cursor.rest = '\n' :: (List.replicate n ' ' ++ more) := by
      rw [h.rest, hgap]
      rfl
    have hlines : (l.cursor.advance (s.gap n).length).line = l.cursor.line + 1 := by
      rw [hadvance, hgap, List.countP_cons, hblanks]
      rfl
    have hlength : l.cursor.rest.length + 1 = (n + more.length) + 2 := by
      rw [hnext]
      simp
    refine ⟨?_, fun e he => ?_⟩
    · rw [hlength, skipToToken_line hnext hmore h.level, hgap, List.length_cons,
        List.length_replicate]
    · have hle := (h.candidates e he).2.2.1
      rw [hlines]
      omega
  · have hgap : s.gap n = List.replicate (n - s.column) ' ' := if_neg hline
    have hindented : s.indented = true := by
      simp only [Sheet.needsLine, Bool.or_eq_true, not_or] at hline
      simpa using hline.1.1
    have hlines : (l.cursor.advance (s.gap n).length).line = l.cursor.line := by
      rw [hadvance, hgap, hblanks]
      rfl
    refine ⟨?_, fun e he => ?_⟩
    · rw [skipToToken_blanks (hgap ▸ h.rest) hmore, hgap, List.length_replicate,
        ← h.allowed hindented]
    · rw [hlines]
      exact (h.candidates e he).2.2.2 hindented

/-- The lexer goes to the column to which the sheet went. -/
theorem At.arrive (h : At s (s.gap n ++ more) l) (hmore : Opens more) :
    ∃ l', Leads l l' ∧ Begins (s.indentTo n) more l' ∧ l'.found = (l.unwind n).found ∧
      l'.indent = (l.unwind n).indent ∧ l'.indents = (l.unwind n).indents := by
  have hprints := s.prints_indentTo n
  have hadvance := Cursor.advance_eq h.rest hprints.are_written
  have hcolumn : (l.cursor.advance (s.gap n).length).column = n := by
    rw [hadvance, h.column, ← hprints.column, Sheet.indentTo_eq]
  have hrest : (l.cursor.advance (s.gap n).length).rest = more := by
    rw [hadvance]
  obtain ⟨hskip, hearlier⟩ := h.skipGap hmore
  obtain ⟨hcursor, hlevel, hdone, hcount⟩ := unwind_frame n l
  let l' : Lexer := { l.unwind n with
    cursor := l.cursor.advance (s.gap n).length, keyAllowed := true, candidates := [] }
  have hbegins : Begins (s.indentTo n) more l' :=
    { rest := hrest
      column := by
        rw [Sheet.indentTo_eq]
        exact hcolumn
      level := hlevel.trans h.level
      going := hdone.trans h.going
      count := hcount h.count
      candidates := rfl
      allowed := rfl }
  refine ⟨l', Leads.of_fetch_eq h.going hbegins.going ?_ ?_, hbegins, rfl, rfl, rfl⟩
  · have hstale := dropStale_earlier
      (l := { l with cursor := l.cursor.advance (s.gap n).length, keyAllowed := true })
      fun e he => ⟨(h.candidates e he).2.1, hearlier e he⟩
    have hskip' : skipToToken (l'.cursor.rest.length + 1) l' = l' :=
      skipToToken_blanks (k := 0) hbegins.rest hmore _
    have hstale' : l'.dropStale = .ok l' := dropStale_earlier (List.forall_mem_nil _)
    have hunwind' : l'.unwind l'.cursor.column = l' := by
      show l'.unwind (l.cursor.advance (s.gap n).length).column = l'
      rw [hcolumn]
      refine (unwind_with n (l.unwind n) _ true []).trans ?_
      rw [unwind_unwind (le_refl _)]
    -- One lexer closes the blocks in this fetch, and the other one has closed them before.
    rw [fetch, fetch, hskip, hskip', hstale, hstale']
    dsimp only [bind, Except.bind]
    rw [hunwind', hcolumn, unwind_with]
  · show (l.cursor.advance (s.gap n).length).rest.length ≤ _
    rw [hrest, h.rest, List.length_append]
    omega

/-! ## Marks of items and entries -/

/-- The tokens with the start of a block, if one begins at a column. -/
def opened (l : Lexer) (column : Nat) (start : Token) : List Token :=
  if l.indent < column then start :: l.found else l.found

/-- The blocks around a block at a column. -/
def around (l : Lexer) (column : Nat) : List Int :=
  if l.indent < column then l.indent :: l.indents else l.indents

/-- Where nothing is passed over, dropped or closed, the next token is read from its first
character. -/
theorem fetch_here {d : Char} (hrest : l.cursor.rest = d :: more) (hopens : Opens (d :: more))
    (hstale : l.dropStale = .ok l) (hindent : l.indent ≤ l.cursor.column) :
    l.fetch = l.fetchAt d := by
  have hskip : skipToToken (l.cursor.rest.length + 1) l = l :=
    skipToToken_blanks (k := 0) hrest hopens _
  rw [fetch, hskip, hstale]
  dsimp only [bind, Except.bind]
  rw [unwind_of_le hindent, Cursor.peek_zero hrest]

theorem Begins.dropStale_eq {rest : List Char} (h : Begins s rest l) : l.dropStale = .ok l := by
  rw [dropStale_earlier (by rw [h.candidates]; exact List.forall_mem_nil _), ← h.candidates]

theorem Begins.fetch_eq {d : Char} (h : Begins s (d :: more) l) (hopens : Opens (d :: more))
    (hindent : l.indent ≤ s.column) : l.fetch = l.fetchAt d :=
  fetch_here h.rest hopens h.dropStale_eq (h.column ▸ hindent)

theorem atDocumentMark_item {c : Cursor} (hrest : c.rest = '-' :: more)
    (hends : endsToken more.head? = true) : c.atDocumentMark = false := by
  rw [Cursor.atDocumentMark, hrest]
  split
  · next heq =>
    cases heq
    exact absurd hends (show ¬endsToken (some '-') = true by decide)
  · next heq => cases heq
  · rfl

/-- A block at the column of the next token is opened, unless it is open already. -/
theorem Begins.openBlock_eq {rest : List Char} (h : Begins s rest l) (hindent : l.indent ≤ s.column)
    (start : Token) : l.openBlock start = .ok { l with
      found := l.opened s.column start
      count := (l.opened s.column start).length
      indent := s.column
      indents := l.around s.column } := by
  have hflow : l.inFlow = false := by
    rw [inFlow, h.level]
    rfl
  have hallowed : ¬(!l.keyAllowed) = true := by
    rw [h.allowed]
    decide
  rw [openBlock, hflow, if_neg Bool.false_ne_true, if_neg hallowed, h.column, opened, around,
    isDeeper]
  by_cases hlt : l.indent < s.column
  · rw [decide_eq_true hlt, if_pos rfl, if_pos hlt, if_pos hlt, List.length_cons, ← h.count]
    rfl
  · have hsame : l.indent = s.column := le_antisymm hindent (not_lt.1 hlt)
    rw [decide_eq_false hlt, if_neg Bool.false_ne_true, if_neg hlt, if_neg hlt, ← hsame, ← h.count]

/-- The marks of items and of parts of entries, with their tokens. -/
def blockMarks : List (Char × Token × Token) :=
  [('-', .blockSequenceStart, .blockEntry), ('?', .blockMappingStart, .key),
    (':', .blockMappingStart, .value)]

/-- The mark of an item or of a part of an entry is read as such. -/
theorem Begins.fetchAt_mark {d : Char} {start t : Token} (h : Begins s (d :: more) l)
    (hd : (d, start, t) ∈ blockMarks) (hends : endsToken more.head? = true)
    (hindent : l.indent ≤ s.column) : l.fetchAt d = .ok { l with
      cursor := l.cursor.step
      found := t :: l.opened s.column start
      count := (l.opened s.column start).length + 1
      indent := s.column
      indents := l.around s.column
      keyAllowed := true } := by
  have hflow : l.inFlow = false := by
    rw [inFlow, h.level]
    rfl
  have hnext : endsToken (l.cursor.peek 1) = true := by
    rw [Cursor.peek_one h.rest]
    exact hends
  have hopen := h.openBlock_eq hindent start
  generalize l.opened s.column start = found at hopen ⊢
  generalize l.around s.column = indents at hopen ⊢
  have hdrop : dropCandidate { l with found, count := found.length, indent := s.column, indents } =
      .ok { l with found, count := found.length, indent := s.column, indents } := by
    rw [dropCandidate, h.candidates]
    rfl
  simp only [blockMarks, List.mem_cons, Prod.mk.injEq, List.not_mem_nil, or_false] at hd
  rcases hd with ⟨rfl, rfl, rfl⟩ | ⟨rfl, rfl, rfl⟩ | ⟨rfl, rfl, rfl⟩
  · have hdocument := atDocumentMark_item h.rest hends
    have hdispatch : l.fetchAt '-' = l.fetchBlockEntry := by
      simp [fetchAt, hdocument, hnext]
    rw [hdispatch, fetchBlockEntry, hopen]
    dsimp only [bind, Except.bind]
    rw [hdrop]
    rfl
  · have hdispatch : l.fetchAt '?' = l.fetchKey := by
      simp [fetchAt, hnext]
    rw [hdispatch, fetchKey, hopen]
    dsimp only [bind, Except.bind]
    rw [hdrop]
    show Except.ok { take { l with found, count := found.length, indent := s.column, indents } 1
      .key with keyAllowed := !l.inFlow } = _
    rw [hflow]
    rfl
  · have hdispatch : l.fetchAt ':' = l.fetchValue := by
      simp [fetchAt, hnext]
    have hlookup : l.candidates.lookup l.flowLevel = none := by
      rw [h.candidates]
      rfl
    rw [hdispatch, fetchValue, hlookup, hopen]
    dsimp only [bind, Except.bind]
    rw [hdrop]
    show Except.ok { take { l with found, count := found.length, indent := s.column, indents } 1
      .value with keyAllowed := !l.inFlow } = _
    rw [hflow]
    rfl

/-- The mark of an item or of a part of an entry opens the block that it is in. -/
theorem Begins.mark {d : Char} {start t : Token} (h : Begins s (d :: more) l)
    (hd : (d, start, t) ∈ blockMarks) (hends : endsToken more.head? = true)
    (hindent : l.indent ≤ s.column) (hspaced : s.spaced = true) :
    ∃ l', Leads l l' ∧ Begins (s.mark [d] true false true) more l' ∧
      l'.found = t :: l.opened s.column start ∧ l'.indent = s.column ∧
      l'.indents = l.around s.column := by
  have hchar : Opens (d :: more) ∧ isWritten d = true ∧ isBreak d = false := by
    simp only [blockMarks, List.mem_cons, Prod.mk.injEq, List.not_mem_nil, or_false] at hd
    rcases hd with ⟨rfl, -⟩ | ⟨rfl, -⟩ | ⟨rfl, -⟩ <;>
      exact ⟨by rintro _ ⟨rfl⟩; decide, by decide, by decide⟩
  have hstep := Cursor.step_eq h.rest hchar.2.1
  have hmark : s.mark [d] true false true = ⟨d :: s.written, s.column + 1, false, s.indented⟩ := by
    rw [Sheet.mark_eq, Sheet.lead, hspaced, Bool.and_true]
    rfl
  have hfetch := (h.fetch_eq hchar.1 hindent).trans (h.fetchAt_mark hd hends hindent)
  refine ⟨_, Leads.of_fetch h.going hfetch (.inl rfl) ?_, ?_, rfl, rfl, rfl⟩
  · show l.cursor.step.rest.length < _
    rw [hstep, h.rest]
    exact Nat.lt_succ_self _
  · exact
      { rest := by
          show l.cursor.step.rest = more
          rw [hstep]
        column := by
          show l.cursor.step.column = _
          rw [hstep, hmark]
          show columnAfter l.cursor.column [d] = s.column + 1
          rw [columnAfter_inline _ (List.forall_mem_singleton.2 hchar.2.2), h.column]
          rfl
        level := h.level
        going := h.going
        count := rfl
        candidates := h.candidates
        allowed := rfl }

end Lexer

end SiteRules.Yaml
