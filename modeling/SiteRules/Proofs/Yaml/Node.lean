import SiteRules.Proofs.Yaml.Spelling

/-!
# Nodes on a line

The tokens of a node on a line are found one after the other, and the place where a key may have
begun is kept up to the colon behind a key (`Lexer.At.token`, `Lexer.KeyAt.value`).
-/

namespace SiteRules.Yaml.Lexer

variable {behind : Int → List Char → Prop} {t : Token} {cs tail : List Char} {l l' b : Lexer}
  {s s' : Sheet}

/-! ## Nodes -/

theorem lead_eq_replicate (s : Sheet) :
    s.lead true = List.replicate (s.lead true).length ' ' := by
  rw [Sheet.lead]
  split <;> rfl

/-- The lexer behind what has been written. -/
theorem cursor_of_prints {c : Cursor} (hprints : Sheet.Prints s s' cs) (hrest : c.rest = cs ++ tail)
    (hcolumn : c.column = s.column) : (c.advance cs.length).rest = tail ∧
      (c.advance cs.length).column = s'.column ∧ c.line ≤ (c.advance cs.length).line := by
  rw [Cursor.advance_eq hrest hprints.are_written, hprints.column, hcolumn]
  exact ⟨rfl, rfl, Nat.le_add_right _ _⟩

/-- A key that may begin inside a block need not be one. -/
theorem saveCandidate_optional (hlevel : l.flowLevel = 0) (hindent : l.indent < l.cursor.column)
    (h : ∀ e ∈ l.candidates, e.1 = 0 ∧ e.2.required = false ∧ e.2.line ≤ l.cursor.line) :
    ∃ saved, l.saveCandidate = .ok saved ∧
      ∀ e ∈ saved.candidates, e.1 = 0 ∧ e.2.required = false ∧ e.2.line ≤ l.cursor.line := by
  rw [saveCandidate]
  split
  · rw [dropCandidate_optional fun e he => ⟨(h e he).1.trans hlevel.symm, (h e he).2.1⟩]
    refine ⟨_, rfl, List.forall_mem_singleton.2 ⟨hlevel, ?_, Nat.le_refl _⟩⟩
    show (_ && decide (l.indent = (l.cursor.column : Int))) = false
    rw [decide_eq_false (ne_of_lt hindent), Bool.and_false]
  · exact ⟨l, rfl, h⟩

/-- The lexer in front of a token of a node, where nothing has to be a key. -/
structure Ready (rest : List Char) (l : Lexer) : Prop where
  rest : l.cursor.rest = rest
  level : l.flowLevel = 0
  going : l.done = false
  count : l.count = l.found.length
  stale : l.dropStale = .ok l
  column : l.indent < l.cursor.column
  candidates : ∀ e ∈ l.candidates, e.1 = 0 ∧ e.2.required = false ∧ e.2.line ≤ l.cursor.line

/-- The lexer passes over a blank, where one has been written. -/
theorem At.skipLead {rest : List Char} (h : At s (s.lead true ++ rest) l) (hne : rest ≠ [])
    (hopens : Opens rest) (hblock : l.indent < s.column) :
    ∃ kept, Leads l kept ∧ Ready rest kept ∧
      kept.cursor = l.cursor.advance (s.lead true).length ∧ kept.found = l.found ∧
      kept.indent = l.indent ∧ kept.indents = l.indents := by
  have hlead := lead_eq_replicate s
  generalize (s.lead true).length = k at hlead
  have hrest : l.cursor.rest = List.replicate k ' ' ++ rest := hlead ▸ h.rest
  have hplace := Cursor.advance_blanks hrest
  have hcolumn : l.indent < (l.cursor.advance k).column := by
    rw [hplace, h.column]
    show l.indent < ((s.column + k : Nat) : Int)
    omega
  obtain ⟨kept, hstale, hsubset⟩ := dropStale_optional
    (l := { l with cursor := l.cursor.advance k }) fun e he => (h.candidates e he).2.1
  have hblanks := leads_blanks hrest hne hopens h.going hstale (le_of_lt hcolumn)
  obtain ⟨hkept, hsame, -⟩ := dropStale_dropStale hstale
  have hcursor : kept.cursor = l.cursor.advance k := by rw [hkept]
  refine ⟨kept, hblanks, ?_, hcursor, by rw [hkept], by rw [hkept], by rw [hkept]⟩
  exact
    { rest := by rw [hcursor, hplace]
      level := by rw [hkept]; exact h.level
      going := by rw [hkept]; exact h.going
      count := by rw [hkept]; exact h.count
      stale := hsame
      column := by rw [hkept]; exact hcolumn
      candidates := by
        intro e he
        obtain ⟨hzero, hoptional, hline, -⟩ := h.candidates e (hsubset he)
        rw [hcursor, hplace]
        exact ⟨hzero, hoptional, hline⟩ }

/-- A token of a node is found behind a blank, where one has been written. -/
theorem At.token (h : At s (s.lead true ++ (cs ++ tail)) l) (hspelled : Spelled behind t cs)
    (hbehind : behind l.indent tail) (hprints : Sheet.Prints s s' (s.lead true ++ cs))
    (hindented : s'.indented = false) (hblock : l.indent < s.column) :
    ∃ l', Leads l l' ∧ At s' tail l' ∧ l'.found = t :: l.found ∧ l'.indent = l.indent ∧
      l'.indents = l.indents := by
  obtain ⟨kept, hblanks, hready, hcursor, hfound, hindent, hindents⟩ := h.skipLead
    (List.append_ne_nil_of_left_ne_nil hspelled.ne_nil _) (hspelled.opens tail) hblock
  obtain ⟨saved, hsave, hcandidates⟩ :=
    saveCandidate_optional hready.level hready.column hready.candidates
  have hleads := hspelled.leads kept saved tail hready.rest hready.level hready.going
    (by rw [hindent]; exact hbehind) hready.stale (le_of_lt hready.column) hsave
  have hsaved := saveCandidate_frame hsave
  -- The blank and the spelling are what has been printed: the cursor ends where the sheet does.
  have hend : kept.cursor.advance cs.length = l.cursor.advance (s.lead true ++ cs).length := by
    rw [hcursor, List.length_append, Cursor.advance_add]
  obtain ⟨hendRest, hendColumn, -⟩ := cursor_of_prints hprints
    (by rw [h.rest, List.append_assoc]) h.column
  have hlines := Cursor.advance_eq hready.rest fun d hd =>
    hprints.are_written d (List.mem_append_right _ hd)
  refine ⟨_, hblanks.trans hleads, ?_, ?_, ?_, ?_⟩
  · exact
      { rest := by
          show (kept.cursor.advance cs.length).rest = tail
          rw [hend, hendRest]
        column := by
          show (kept.cursor.advance cs.length).column = _
          rw [hend, hendColumn]
        level := by
          show saved.flowLevel = 0
          rw [hsaved]
          exact hready.level
        going := by
          show saved.done = false
          rw [hsaved]
          exact hready.going
        count := by
          show saved.count + 1 = saved.found.length + 1
          rw [hsaved]
          exact congrArg (· + 1) hready.count
        candidates := by
          intro e he
          obtain ⟨hzero, hoptional, hline⟩ := hcandidates e he
          refine ⟨hzero, hoptional, hline.trans ?_, fun htrue => ?_⟩
          · show _ ≤ (kept.cursor.advance cs.length).line
            rw [hlines]
            exact Nat.le_add_right _ _
          · rw [hindented] at htrue
            cases htrue
        allowed := by
          intro htrue
          rw [hindented] at htrue
          cases htrue }
  · show t :: saved.found = _
    rw [hsaved, hfound]
  · show saved.indent = _
    rw [hsaved, hindent]
  · show saved.indents = _
    rw [hsaved, hindents]

/-! ## Keys -/

/-- The place where a key may begin. -/
def candidate (b : Lexer) : KeyCandidate :=
  ⟨b.count, decide (b.indent = b.cursor.column), b.cursor.index, b.cursor.line, b.cursor.column⟩

/-- The lexer has read a part of a key, on one line, that may have begun at an earlier state. -/
structure KeyAt (b : Lexer) (s : Sheet) (rest : List Char) (inner : List Token) (width : Nat)
    (l : Lexer) : Prop where
  rest : l.cursor.rest = rest
  column : l.cursor.column = s.column
  line : l.cursor.line = b.cursor.line
  index : l.cursor.index = b.cursor.index + width
  level : l.flowLevel = 0
  going : l.done = false
  count : l.count = l.found.length
  found : l.found = inner ++ b.found
  indent : l.indent = b.indent
  indents : l.indents = b.indents
  candidates : l.candidates = [(0, b.candidate)]
  keyAllowed : l.keyAllowed = false

/-- Within its line and within 1024 characters a key is not dropped. -/
theorem dropStale_key (hcandidates : l.candidates = [(0, b.candidate)])
    (hline : l.cursor.line = b.cursor.line) (hindex : l.cursor.index ≤ b.cursor.index + 1024) :
    l.dropStale = .ok l := by
  have hfresh : l.isStale b.candidate = false := by
    rw [isStale, candidate, hline]
    simp
    omega
  rw [dropStale, hcandidates]
  simp only [List.any_cons, List.any_nil, hfresh, Bool.false_and, Bool.or_false,
    Bool.false_eq_true, if_false, List.filter_cons, Bool.not_false, if_true, List.filter_nil]
  rw [← hcandidates]

/-- The cursor behind a part of a line. -/
theorem cursor_inline (cs : List Char) {c : Cursor} (hrest : c.rest = cs ++ tail)
    (hcs : ∀ d ∈ cs, isWritten d = true ∧ isBreak d = false) :
    c.advance cs.length = ⟨tail, c.index + cs.length, c.line, c.column + cs.length⟩ := by
  rw [Cursor.advance_eq hrest fun d hd => (hcs d hd).1,
    columnAfter_inline _ fun d hd => (hcs d hd).2,
    List.countP_eq_zero.2 fun d hd => Bool.eq_false_iff.1 (hcs d hd).2]
  rfl

/-- The first token of a key is found at the beginning of a line. -/
theorem Begins.key (h : Begins s (cs ++ tail) b) (hspelled : Spelled behind t cs)
    (hbehind : behind b.indent tail) (hprints : Sheet.Prints s s' cs)
    (hinline : ∀ d ∈ cs, isBreak d = false) (hindent : b.indent ≤ s.column) :
    ∃ l, Leads b l ∧ KeyAt b s' tail [t] cs.length l := by
  have hsave : b.saveCandidate = .ok { b with candidates := [(0, b.candidate)] } := by
    have hrequired : (!b.inFlow && decide (b.indent = (b.cursor.column : Int))) =
        decide (b.indent = (b.cursor.column : Int)) := by
      rw [inFlow, h.level]
      rfl
    rw [saveCandidate, if_pos h.allowed, hrequired,
      dropCandidate_optional (by rw [h.candidates]; exact List.forall_mem_nil _), candidate,
      ← h.level]
    rfl
  have hleads := hspelled.leads b _ tail h.rest h.level h.going hbehind h.dropStale_eq
    (h.column ▸ hindent) hsave
  have hplace := cursor_inline _ h.rest fun d hd => ⟨hprints.are_written d hd, hinline d hd⟩
  refine ⟨_, hleads, ?_⟩
  exact
    { rest := congrArg Cursor.rest hplace
      column := by
        show (b.cursor.advance cs.length).column = _
        rw [hplace, hprints.column, columnAfter_inline _ hinline, h.column]
      line := by
        show (b.cursor.advance cs.length).line = _
        rw [hplace]
      index := by
        show (b.cursor.advance cs.length).index = _
        rw [hplace]
      level := h.level
      going := h.going
      count := congrArg (· + 1) h.count
      found := rfl
      indent := rfl
      indents := rfl
      candidates := rfl
      keyAllowed := rfl }

/-- Inside a key the lexer passes over a blank, where one has been written. -/
theorem KeyAt.skipLead {inner : List Token} {width : Nat} {rest : List Char}
    (h : KeyAt b s (s.lead true ++ rest) inner width l) (hne : rest ≠ []) (hopens : Opens rest)
    (hindent : b.indent ≤ s.column) (hwidth : width + (s.lead true).length ≤ 1024) :
    ∃ kept, Leads l kept ∧ kept.dropStale = .ok kept ∧
      KeyAt b { s with column := s.column + (s.lead true).length } rest inner
        (width + (s.lead true).length) kept := by
  have hlead := lead_eq_replicate s
  generalize (s.lead true).length = k at hlead hwidth ⊢
  have hrest : l.cursor.rest = List.replicate k ' ' ++ rest := hlead ▸ h.rest
  have hplace := Cursor.advance_blanks hrest
  let kept : Lexer := { l with cursor := l.cursor.advance k }
  have hkept : KeyAt b { s with column := s.column + k } rest inner (width + k) kept :=
    { rest := congrArg Cursor.rest hplace
      column := by
        show (l.cursor.advance k).column = s.column + k
        rw [hplace, h.column]
      line := (congrArg Cursor.line hplace).trans h.line
      index := by
        show (l.cursor.advance k).index = _
        rw [hplace, h.index]
        exact Nat.add_assoc _ _ _
      level := h.level
      going := h.going
      count := h.count
      found := h.found
      indent := h.indent
      indents := h.indents
      candidates := h.candidates
      keyAllowed := h.keyAllowed }
  have hcolumn : kept.indent ≤ kept.cursor.column := by
    rw [hkept.column, hkept.indent]
    show b.indent ≤ ((s.column + k : Nat) : Int)
    omega
  have hstale : kept.dropStale = .ok kept := by
    refine dropStale_key h.candidates hkept.line ?_
    rw [hkept.index]
    omega
  exact ⟨kept, leads_blanks hrest hne hopens h.going hstale hcolumn, hstale, hkept⟩

/-- A further token of a key is found. -/
theorem KeyAt.token {inner : List Token} {width : Nat}
    (h : KeyAt b s (s.lead true ++ (cs ++ tail)) inner width l) (hspelled : Spelled behind t cs)
    (hbehind : behind b.indent tail) (hprints : Sheet.Prints s s' (s.lead true ++ cs))
    (hinline : ∀ d ∈ cs, isBreak d = false) (hindent : b.indent ≤ s.column)
    (hwidth : width + (s.lead true).length ≤ 1024) :
    ∃ l', Leads l l' ∧ KeyAt b s' tail (t :: inner) (width + (s.lead true ++ cs).length) l' := by
  obtain ⟨kept, hblanks, hstale, hkept⟩ := h.skipLead
    (List.append_ne_nil_of_left_ne_nil hspelled.ne_nil _) (hspelled.opens tail) hindent hwidth
  have hcolumn : kept.indent ≤ kept.cursor.column := by
    rw [hkept.column, hkept.indent]
    show b.indent ≤ ((s.column + (s.lead true).length : Nat) : Int)
    omega
  -- The key has begun already, so that no other one can begin here.
  have hsave : kept.saveCandidate = .ok kept := by
    rw [saveCandidate, hkept.keyAllowed, if_neg Bool.false_ne_true]
  have hleads := hspelled.leads kept kept tail hkept.rest hkept.level hkept.going
    (hkept.indent ▸ hbehind) hstale hcolumn hsave
  have hplace := cursor_inline cs hkept.rest fun d hd =>
    ⟨hprints.are_written d (List.mem_append_right _ hd), hinline d hd⟩
  have hblank : ∀ d ∈ s.lead true, isBreak d = false := by
    rw [lead_eq_replicate s]
    intro d hd
    rw [List.eq_of_mem_replicate hd]
    decide
  have hinner : ∀ d ∈ s.lead true ++ cs, isBreak d = false :=
    List.forall_mem_append.2 ⟨hblank, hinline⟩
  refine ⟨_, hblanks.trans hleads, ?_⟩
  exact
    { rest := congrArg Cursor.rest hplace
      column := by
        show (kept.cursor.advance cs.length).column = _
        rw [hplace, hprints.column, columnAfter_inline _ hinner, hkept.column,
          List.length_append, ← Nat.add_assoc]
      line := (congrArg Cursor.line hplace).trans hkept.line
      index := by
        show (kept.cursor.advance cs.length).index = _
        rw [hplace, hkept.index, List.length_append]
        exact (Nat.add_assoc _ _ _).trans (congrArg _ (Nat.add_assoc _ _ _))
      level := hkept.level
      going := hkept.going
      count := congrArg (· + 1) hkept.count
      found := congrArg (t :: ·) hkept.found
      indent := hkept.indent
      indents := hkept.indents
      candidates := hkept.candidates
      keyAllowed := rfl }

/-- A token is put in front of those found behind a base. -/
theorem insertAt_behind {inner base : List Token} (hfound : l.found = inner ++ base)
    (hcount : l.count = l.found.length) (t : Token) :
    l.insertAt base.length t = { l with found := inner ++ t :: base, count := l.count + 1 } := by
  have hbehind : l.count - base.length = inner.length := by
    rw [hcount, hfound, List.length_append]
    omega
  rw [insertAt, hbehind, hfound, List.take_left, List.drop_left]

/-- A block at the column of a key is opened in front of the key, if it is deeper than the block
around it. -/
theorem openBlock_behind {inner : List Token} (hfound : l.found = inner ++ b.found)
    (hcount : l.count = l.found.length) (hlevel : l.flowLevel = 0) (hindent : l.indent = b.indent)
    (hindents : l.indents = b.indents) (hblock : b.indent ≤ b.cursor.column) (start : Token) :
    (if !l.inFlow && l.isDeeper b.cursor.column then
      (l.indentTo b.cursor.column).insertAt b.found.length start else l) =
      { l with
        found := inner ++ b.opened b.cursor.column start
        count := (inner ++ b.opened b.cursor.column start).length
        indent := b.cursor.column
        indents := b.around b.cursor.column } := by
  have hflow : l.inFlow = false := by
    rw [inFlow, hlevel]
    rfl
  rw [opened, around, hflow, isDeeper, hindent]
  by_cases hlt : b.indent < b.cursor.column
  · have hstart := insertAt_behind (l := l.indentTo b.cursor.column) hfound hcount start
    have hlength : l.count + 1 = (inner ++ start :: b.found).length := by
      rw [hcount, hfound, List.length_append, List.length_append, List.length_cons]
      rfl
    rw [decide_eq_true hlt, Bool.not_false, Bool.and_true, if_pos rfl, if_pos hlt, if_pos hlt,
      hstart, ← hlength, ← hindent, ← hindents]
    rfl
  · have hsame : b.indent = b.cursor.column := le_antisymm hblock (not_lt.1 hlt)
    rw [decide_eq_false hlt, Bool.and_false, if_neg Bool.false_ne_true, if_neg hlt, if_neg hlt,
      ← hsame, ← hindent, ← hindents, ← hfound, ← hcount]

/-- The colon behind a key puts the tokens for the key, and for its block if it is the first one, in
front of the tokens of the key. -/
theorem KeyAt.fetchValue_eq {inner : List Token} {width : Nat} {rest : List Char}
    (h : KeyAt b s rest inner width l) (hcount : b.count = b.found.length)
    (hblock : b.indent ≤ b.cursor.column) :
    l.fetchValue = .ok { l with
      cursor := l.cursor.step
      found := .value :: (inner ++ .key :: b.opened b.cursor.column .blockMappingStart)
      count := (inner ++ .key :: b.opened b.cursor.column .blockMappingStart).length + 1
      indent := b.cursor.column
      indents := b.around b.cursor.column
      keyAllowed := false
      candidates := [] } := by
  have hlookup : l.candidates.lookup l.flowLevel = some b.candidate := by
    rw [h.candidates, h.level]
    rfl
  have hfilter : (l.candidates.filter fun e => e.1 ≠ l.flowLevel) = [] := by
    rw [h.candidates, h.level]
    rfl
  have hkey := insertAt_behind (l := { l with candidates := [] }) h.found h.count .key
  let keyed : Lexer :=
    { l with candidates := [], found := inner ++ .key :: b.found, count := l.count + 1 }
  have hfound : keyed.found = (inner ++ [.key]) ++ b.found := by
    rw [List.append_assoc]
    rfl
  have hlength : keyed.count = keyed.found.length := by
    show l.count + 1 = (inner ++ .key :: b.found).length
    rw [h.count, h.found, List.length_append, List.length_append, List.length_cons]
    rfl
  have hopen := openBlock_behind hfound hlength h.level h.indent h.indents hblock
    .blockMappingStart
  rw [List.append_assoc] at hopen
  rw [fetchValue, hlookup]
  dsimp only
  rw [hfilter, show b.candidate.number = b.found.length from hcount, hkey]
  show Except.ok _ = _
  rw [show b.candidate.column = b.cursor.column from rfl, hopen]
  rfl

/-- The colon behind a key is found. -/
theorem KeyAt.fetch_eq {inner : List Token} {width : Nat} {rest : List Char}
    (h : KeyAt b s (':' :: rest) inner width l) (hends : endsToken rest.head? = true)
    (hwidth : width ≤ 1024) (hindent : b.indent ≤ s.column) : l.fetch = l.fetchValue := by
  have hstale := dropStale_key h.candidates h.line (by rw [h.index]; omega)
  have hcolon : Opens (':' :: rest) := by
    rintro _ ⟨rfl⟩
    decide
  have hnext : endsToken (l.cursor.peek 1) = true := by
    rw [Cursor.peek_one h.rest]
    exact hends
  rw [fetch_here h.rest hcolon hstale (by rw [h.indent, h.column]; exact hindent)]
  simp [fetchAt, hnext]

/-- Behind the colon the value of the key can begin. -/
theorem KeyAt.value {inner : List Token} {width : Nat} {rest : List Char}
    (h : KeyAt b s (':' :: rest) inner width l) (hcount : b.count = b.found.length)
    (hends : endsToken rest.head? = true) (hwidth : width ≤ 1024)
    (hblock : b.indent ≤ b.cursor.column) (hindent : b.indent ≤ s.column) :
    ∃ l', Leads l l' ∧ At (s.mark [':'] false) rest l' ∧
      l'.found = .value :: (inner ++ .key :: b.opened b.cursor.column .blockMappingStart) ∧
      l'.indent = b.cursor.column ∧ l'.indents = b.around b.cursor.column := by
  have hstep := Cursor.step_eq h.rest (by decide)
  have hmark : s.mark [':'] false = ⟨':' :: s.written, s.column + 1, false, false⟩ := by
    rw [Sheet.mark_eq, Sheet.lead, Bool.not_false, Bool.or_true, Bool.and_false]
    rfl
  have hfetch := (h.fetch_eq hends hwidth hindent).trans (h.fetchValue_eq hcount hblock)
  refine ⟨_, Leads.of_fetch h.going hfetch (.inl rfl) ?_, ?_, rfl, rfl, rfl⟩
  · show l.cursor.step.rest.length < _
    rw [hstep, h.rest]
    exact Nat.lt_succ_self _
  · exact
      { rest := by
          show l.cursor.step.rest = _
          rw [hstep]
        column := by
          show l.cursor.step.column = _
          rw [hstep, hmark]
          show columnAfter l.cursor.column [':'] = s.column + 1
          rw [columnAfter_inline _ (List.forall_mem_singleton.2 rfl), h.column]
          rfl
        level := h.level
        going := h.going
        count := rfl
        candidates := List.forall_mem_nil _
        allowed := by
          rw [hmark]
          intro htrue
          cases htrue }

/-! ## Nodes of several tokens -/

/-- What stands behind a node in a block at a column, or around it. -/
def EndsNode (column : Nat) (block : Int) (tail : List Char) : Prop :=
  block ≤ column ∧ Ends block tail

/-- The tokens of a node that is written on a line: those of its name and its tag, and its own. -/
inductive Line (column : Nat) : Sheet → Sheet → List Char → List Token → Prop
  | node {s s' : Sheet} {cs : List Char} {t : Token} (hspelled : Spelled (EndsNode column) t cs)
      (hprints : Sheet.Prints s s' (s.lead true ++ cs)) (hindented : s'.indented = false) :
      Line column s s' (s.lead true ++ cs) [t]
  | property {s s₁ s' : Sheet} {cs ds : List Char} {t : Token} {ts : List Token}
      (hspelled : Spelled (fun _ => StartsGap) t cs)
      (hprints : Sheet.Prints s s₁ (s.lead true ++ cs)) (hinline : ∀ d ∈ cs, isBreak d = false)
      (hindented : s₁.indented = false) (hspaced : s₁.spaced = false)
      (h : Line column s₁ s' ds ts) :
      Line column s s' (s.lead true ++ cs ++ ds) (t :: ts)

variable {column : Nat} {ds : List Char} {ts : List Token}

theorem Line.prints (h : Line column s s' cs ts) : Sheet.Prints s s' cs := by
  induction h with
  | node _ hprints _ => exact hprints
  | property _ hprints _ _ _ _ ih => exact hprints.trans ih

theorem Line.indented (h : Line column s s' cs ts) : s'.indented = false := by
  induction h with
  | node _ _ hindented => exact hindented
  | property _ _ _ _ _ _ ih => exact ih

theorem Line.startsGap (h : Line column s s' cs ts) (hspaced : s.spaced = false)
    (tail : List Char) : StartsGap (cs ++ tail) := by
  have hlead : s.lead true = [' '] := by
    rw [Sheet.lead, hspaced]
    rfl
  cases h <;>
  · rw [hlead]
    exact .inl rfl

theorem Line.opens (h : Line column s s' cs ts) (hspaced : s.spaced = true) (tail : List Char) :
    Opens (cs ++ tail) := by
  have hlead : s.lead true = [] := by
    rw [Sheet.lead, hspaced]
    rfl
  cases h with
  | node hspelled =>
    rw [hlead]
    exact hspelled.opens tail
  | property hspelled =>
    rw [hlead, List.append_assoc]
    exact hspelled.opens _

theorem isBreak_lead (s : Sheet) : ∀ d ∈ s.lead true, isBreak d = false := by
  rw [Sheet.lead]
  split
  · exact List.forall_mem_nil _
  · exact List.forall_mem_singleton.2 (by decide)

/-- A sheet on which a part of a line has been written. -/
theorem column_inline (hprints : Sheet.Prints s s' (s.lead true ++ cs))
    (hinline : ∀ d ∈ cs, isBreak d = false) :
    s'.column = s.column + (s.lead true ++ cs).length := by
  rw [hprints.column, columnAfter_inline]
  exact List.forall_mem_append.2 ⟨isBreak_lead s, hinline⟩

/-- The tokens of a node are found where the node has been written. -/
theorem Line.found (h : Line column s s' ds ts) (hat : At s (ds ++ tail) l)
    (hindent : l.indent = column) (hcolumn : column < s.column) (hends : Ends column tail) :
    ∃ l', Leads l l' ∧ At s' tail l' ∧ l'.found = ts.reverse ++ l.found ∧ l'.indent = l.indent ∧
      l'.indents = l.indents := by
  induction h generalizing l with
  | node hspelled hprints hindented =>
    rw [List.append_assoc] at hat
    exact hat.token hspelled ⟨le_of_eq hindent, hindent ▸ hends⟩ hprints hindented (by omega)
  | @property s s₁ s' cs ds t ts hspelled hprints hinline hindented hspaced h ih =>
    rw [List.append_assoc, List.append_assoc] at hat
    obtain ⟨l₁, hleads, hat, hfound, hindent', hindents⟩ :=
      hat.token hspelled (h.startsGap hspaced tail) hprints hindented (by omega)
    have hfurther := column_inline hprints hinline
    obtain ⟨l', hleads', hat, hfound', hindent'', hindents'⟩ :=
      ih hat (hindent'.trans hindent) (by omega)
    refine ⟨l', hleads.trans hleads', hat, ?_, hindent''.trans hindent', hindents'.trans hindents⟩
    rw [hfound', hfound, List.reverse_cons, List.append_assoc]
    rfl

variable {rest : List Char} {inner : List Token} {width : Nat}

/-- The further tokens of a key are found. -/
theorem Line.keyAt (h : Line column s s' ds ts) (hkey : KeyAt b s (ds ++ ':' :: rest) inner width l)
    (hinline : ∀ d ∈ ds, isBreak d = false) (hends : endsToken rest.head? = true)
    (hblock : b.indent ≤ column) (hcolumn : column ≤ s.column) (hwidth : width + ds.length ≤ 1024) :
    ∃ l', Leads l l' ∧
      KeyAt b s' (':' :: rest) (ts.reverse ++ inner) (width + ds.length) l' := by
  induction h generalizing l inner width with
  | @node s s' cs t hspelled hprints hindented =>
    rw [List.append_assoc] at hkey
    rw [List.length_append] at hwidth
    exact hkey.token hspelled ⟨hblock, .colon hends⟩ hprints
      (fun d hd => hinline d (List.mem_append_right _ hd)) (by omega) (by omega)
  | @property s s₁ s' cs ds t ts hspelled hprints hline hindented hspaced h ih =>
    rw [List.append_assoc, List.append_assoc] at hkey
    rw [List.length_append, List.length_append] at hwidth
    obtain ⟨l₁, hleads, hkey⟩ := hkey.token hspelled (h.startsGap hspaced (':' :: rest)) hprints
      hline (by omega) (by omega)
    have hfurther := column_inline hprints hline
    obtain ⟨l', hleads', hkey⟩ := ih hkey (fun d hd => hinline d (List.mem_append_right _ hd))
      (by omega) (by rw [List.length_append]; omega)
    refine ⟨l', hleads.trans hleads', ?_⟩
    have hlength : (s.lead true ++ cs ++ ds).length = (s.lead true ++ cs).length + ds.length :=
      List.length_append
    rw [List.reverse_cons, List.append_assoc, hlength, ← Nat.add_assoc]
    exact hkey

/-- The tokens of a key are found at the beginning of a line. -/
theorem Line.key (h : Line column s s' ds ts) (hbegins : Begins s (ds ++ ':' :: rest) b)
    (hspaced : s.spaced = true) (hinline : ∀ d ∈ ds, isBreak d = false)
    (hends : endsToken rest.head? = true) (hblock : b.indent ≤ column) (hcolumn : s.column = column)
    (hwidth : ds.length ≤ 1024) :
    ∃ l, Leads b l ∧ KeyAt b s' (':' :: rest) ts.reverse ds.length l := by
  have hlead : s.lead true = [] := by
    rw [Sheet.lead, hspaced]
    rfl
  cases h with
  | @node _ _ cs t hspelled hprints hindented =>
    rw [hlead, List.nil_append] at hbegins hprints hinline ⊢
    exact hbegins.key hspelled ⟨hblock, .colon hends⟩ hprints hinline (by omega)
  | @property _ s₁ _ cs ds t ts hspelled hprints hline hindented hspaced' h =>
    have hfurther := column_inline hprints hline
    rw [hlead, List.nil_append] at hbegins hprints hinline hfurther hwidth ⊢
    rw [List.append_assoc] at hbegins
    rw [List.length_append] at hwidth
    obtain ⟨l₁, hleads, hkey⟩ := hbegins.key hspelled (h.startsGap hspaced' (':' :: rest)) hprints
      hline (by omega)
    obtain ⟨l', hleads', hkey⟩ := h.keyAt hkey
      (fun d hd => hinline d (List.mem_append_right _ hd)) hends hblock (by omega) hwidth
    refine ⟨l', hleads.trans hleads', ?_⟩
    rw [List.reverse_cons, List.length_append]
    exact hkey

end SiteRules.Yaml.Lexer
