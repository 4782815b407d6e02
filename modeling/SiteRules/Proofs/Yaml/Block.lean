import SiteRules.Proofs.Yaml.ScalarLine

/-!
# Blocks

What is written as a node is found as its tokens, whatever stands behind it (`Lexer.Yields`). The
items of a sequence and the entries of a mapping are found one after the other, each behind its mark
(`Lexer.Blocks`); the first of them opens the block, and a line that is indented less closes it.
-/

namespace SiteRules.Yaml

/-- What stands behind a node in a block at a column: what is written to get to that column or to
one in front of it, and no more layout. -/
def Follows (column : Nat) (s : Sheet) (tail : List Char) : Prop :=
  ∃ k more, k ≤ column ∧ Opens more ∧ tail = s.gap k ++ more

variable {column : Nat} {s s' s₁ : Sheet} {cs tail : List Char}

theorem Follows.mono {column' : Nat} (h : Follows column s tail) (hle : column ≤ column') :
    Follows column' s tail := by
  obtain ⟨k, more, hk, hmore, htail⟩ := h
  exact ⟨k, more, hk.trans hle, hmore, htail⟩

theorem Follows.ends (h : Follows column s tail) (hindented : s.indented = false) :
    Ends column tail := by
  obtain ⟨k, more, hk, hmore, rfl⟩ := h
  have hgap : s.gap k = '\n' :: List.replicate k ' ' :=
    if_pos (by rw [Sheet.needsLine, hindented]; rfl)
  rw [hgap]
  exact .line (by exact_mod_cast hk) hmore

/-- Behind a mark there is a blank or a line end. -/
theorem startsGap_gap (hspaced : s.spaced = false) (n : Nat) (tail : List Char) :
    StartsGap (s.gap n ++ tail) := by
  rw [Sheet.gap]
  split
  · exact .inr rfl
  · next hline =>
    simp only [Sheet.needsLine, hspaced, Bool.or_eq_true, Bool.and_eq_true, decide_eq_true_eq,
      not_or, Bool.not_false, and_true] at hline
    obtain ⟨k, hk⟩ := Nat.exists_eq_add_of_lt
      (Nat.lt_of_le_of_ne (Nat.le_of_not_lt hline.1.2) hline.2)
    rw [show n - s.column = k + 1 by omega]
    exact .inl rfl

namespace Lexer

variable {l l' : Lexer} {ts us : List Token} {t : Token}

/-- Outside of blocks that are still open nothing has to be closed. -/
theorem At.reads {rest : List Char} {tokens : List Token} {outer : List Int} (h : At s rest l)
    (hfound : l.found = tokens) (hindent : l.indent = column) (hindents : l.indents = outer) :
    Reads s rest column tokens outer l := by
  have hsame := unwind_of_le (le_of_eq hindent)
  exact ⟨h, by rw [hsame, hfound], by rw [hsame, hindent], by rw [hsame, hindents]⟩

/-! ## Nodes -/

/-- What is written as a node in a block at a column is found as tokens. -/
def Yields (column : Nat) (s s' : Sheet) (ts : List Token) : Prop :=
  ∃ cs, Sheet.Prints s s' cs ∧ (s.spaced = false → ∀ tail, StartsGap (cs ++ tail)) ∧
    ∀ l tail, At s (cs ++ tail) l → l.indent = column → column < s.column →
      Follows column s' tail →
        ∃ l', Leads l l' ∧ Reads s' tail column (ts.reverse ++ l.found) l.indents l'

theorem Line.yields (h : Line column s s' cs ts) : Yields column s s' ts := by
  refine ⟨cs, h.prints, h.startsGap, fun l tail hat hindent hcolumn hfollows => ?_⟩
  obtain ⟨l', hleads, hat', hfound, hindent', hindents⟩ :=
    h.found hat hindent hcolumn (hfollows.ends h.indented)
  exact ⟨l', hleads, hat'.reads hfound (hindent'.trans hindent) hindents⟩

theorem startsGap_lead (hspaced : s.spaced = false) (cs : List Char) :
    StartsGap (s.lead true ++ cs) := by
  rw [Sheet.lead, hspaced]
  exact .inl rfl

/-- A node is found behind a name or a tag. -/
theorem Yields.property {mark : List Char} (hspelled : Spelled (fun _ => StartsGap) t mark)
    (hmark : ∀ d ∈ mark, isWritten d = true ∧ isBreak d = false)
    (h : Yields column (s.mark mark true) s' ts) : Yields column s s' (t :: ts) := by
  obtain ⟨cs, hprints, hstarts, hlexes⟩ := h
  have hsheet := s.mark_eq mark true false false
  have hfirst := s.prints_mark true false false hmark
  refine ⟨s.lead true ++ mark ++ cs, hfirst.trans hprints, fun hspaced tail => ?_, ?_⟩
  · rw [List.append_assoc, List.append_assoc]
    exact startsGap_lead hspaced _
  · intro l tail hat hindent hcolumn hfollows
    rw [List.append_assoc, List.append_assoc] at hat
    obtain ⟨l₁, hleads, hat₁, hfound, hindent', hindents⟩ := hat.token hspelled
      (hstarts (by rw [hsheet]) tail) hfirst (by rw [hsheet, Bool.and_false]) (by omega)
    have hfurther := column_inline hfirst fun d hd => (hmark d hd).2
    obtain ⟨l', hleads', hreads⟩ := hlexes l₁ tail hat₁ (hindent'.trans hindent) (by omega) hfollows
    refine ⟨l', hleads.trans hleads', ?_⟩
    rw [List.reverse_cons, List.append_assoc, ← hindents]
    rw [hfound] at hreads
    exact hreads

/-! ## Lines of their own -/

/-- Lines of their own are found behind their mark, up to the indentation of what is behind them. -/
theorem Ready.leads_lines {first : List Char} {more : List (List Char)} {n k : Nat}
    {rest : List Char} (hfirst : IsLine first) (hmore : ∀ l ∈ more, IsLine l)
    (h : Ready ('|' :: '\n' :: (indentLines n (first :: more) ++
      (List.replicate k ' ' ++ rest))) l)
    (hindent : max 1 (l.indent + 1).toNat ≤ n) (hk : k < n) (hopens : Opens rest) :
    Leads l { l with
      cursor := l.cursor.advance (2 + (indentLines n (first :: more)).length)
      found := .scalar false (Text.ofChars (joinLines (first :: more))) :: l.found
      count := l.count + 1
      candidates := []
      keyAllowed := true } := by
  let next : Lexer := { l with
    cursor := l.cursor.advance (2 + (indentLines n (first :: more)).length)
    found := .scalar false (Text.ofChars (joinLines (first :: more))) :: l.found
    count := l.count + 1
    candidates := []
    keyAllowed := true }
  have hbar : ∀ rest, Opens ('|' :: rest) := by
    rintro rest _ ⟨rfl⟩
    decide
  have hdrop := dropCandidate_optional (l := l) fun e he =>
    ⟨(h.candidates e he).1.trans h.level.symm, (h.candidates e he).2.1⟩
  have hscan := scanBlock_lines l.indent hfirst hmore h.rest hindent hk
    fun d hd => ⟨(hopens d hd).1, (hopens d hd).2.1⟩
  have hrest : next.cursor.rest = List.replicate k ' ' ++ rest := by
    have hadvance : (l.cursor.advance ('|' :: '\n' :: indentLines n (first :: more)).length).rest =
        List.replicate k ' ' ++ rest := Cursor.rest_advance h.rest
    rw [List.length_cons, List.length_cons] at hadvance
    rwa [show (indentLines n (first :: more)).length + 1 + 1 =
      2 + (indentLines n (first :: more)).length by omega] at hadvance
  have hfetch : l.fetch = .ok { next with cursor := next.cursor.advance k } := by
    have hdispatch : l.fetchAt '|' = l.fetchBlockScalar false := by
      have hflow : l.inFlow = false := by
        rw [inFlow, h.level]
        rfl
      simp [fetchAt, hflow]
    rw [fetch_here h.rest (hbar _) h.stale (le_of_lt h.column), hdispatch, fetchBlockScalar, hdrop]
    simp only [bind, Except.bind, hscan, pure, Except.pure]
    rw [Cursor.advance_add]
    rfl
  -- the scanner passes over the indentation, which the lexer would do as well
  refine Leads.of_fetch h.going hfetch (.inr ⟨h.going, h.going, fetch_blanks hrest hopens⟩) ?_
  show next.cursor.rest.length < _
  rw [hrest, h.rest]
  simp only [List.length_cons, List.length_append]
  omega

/-- Lines of their own are found as a scalar. -/
theorem yields_lines {first : List Char} {more : List (List Char)} (hfirst : IsLine first)
    (hmore : ∀ l ∈ more, IsLine l) (s : Sheet) : Yields column s
      (s.putLiteral (column + 2) (Text.ofChars (joinLines (first :: more))))
      [.scalar false (Text.ofChars (joinLines (first :: more)))] := by
  have hprints := s.prints_putLiteral (column + 2) hfirst hmore
  have hsheet := s.putLiteral_lines (column + 2) hfirst hmore
  generalize hs' : s.putLiteral (column + 2) (Text.ofChars (joinLines (first :: more))) = s' at *
  refine ⟨_, hprints, fun hspaced tail => ?_, ?_⟩
  · rw [List.append_assoc]
    exact startsGap_lead hspaced _
  intro l tail hat hindent hcolumn hfollows
  obtain ⟨k, behind, hk, hbehind, rfl⟩ := hfollows
  have hgap : s'.gap k = List.replicate k ' ' := by
    rw [hsheet]
    simp [Sheet.gap, Sheet.needsLine]
  have hbar : ∀ rest, Opens ('|' :: rest) := by
    rintro rest _ ⟨rfl⟩
    decide
  obtain ⟨hendRest, hendColumn, -⟩ := cursor_of_prints hprints hat.rest hat.column
  rw [List.append_assoc, hgap] at hat
  obtain ⟨kept, hblanks, hready, hcursor, hfound, hindent', hindents⟩ :=
    hat.skipLead (List.cons_ne_nil _ _) (hbar _) (by omega)
  have hleads := hready.leads_lines hfirst hmore (by rw [hindent', hindent]; omega) (by omega)
    hbehind
  -- The mark, its line end and the lines are what has been printed behind the blank.
  have hend : kept.cursor.advance (2 + (indentLines (column + 2) (first :: more)).length) =
      l.cursor.advance
        (s.lead true ++ '|' :: '\n' :: indentLines (column + 2) (first :: more)).length := by
    rw [hcursor, ← Cursor.advance_add, List.length_append, List.length_cons, List.length_cons,
      Nat.add_comm 2]
  rw [← hend] at hendRest hendColumn
  refine ⟨_, hblanks.trans hleads, At.reads ?_ (congrArg _ hfound) (hindent'.trans hindent)
    hindents⟩
  exact
    { rest := hendRest
      column := hendColumn
      level := hready.level
      going := hready.going
      count := congrArg (· + 1) hready.count
      candidates := List.forall_mem_nil _
      allowed := fun _ => rfl }

/-! ## Collections without parts -/

/-- The marks around collections inside a line, with their tokens. -/
def flowMarks : List (Char × Char × Token × Token) :=
  [('[', ']', .flowSequenceStart, .flowSequenceEnd),
    ('\x7b', '\x7d', .flowMappingStart, .flowMappingEnd)]

section Flow

variable {mark close : Char} {start stop : Token} {rest : List Char}

theorem opens_flowMarks (h : (mark, close, start, stop) ∈ flowMarks) :
    Opens (mark :: rest) ∧ Opens (close :: rest) := by
  simp only [flowMarks, List.mem_cons, Prod.mk.injEq, List.not_mem_nil, or_false] at h
  rcases h with ⟨rfl, rfl, -⟩ | ⟨rfl, rfl, -⟩
  · exact ⟨by rintro _ ⟨rfl⟩; decide, by rintro _ ⟨rfl⟩; decide⟩
  · exact ⟨by rintro _ ⟨rfl⟩; decide, by rintro _ ⟨rfl⟩; decide⟩

theorem isWritten_flowMarks (h : (mark, close, start, stop) ∈ flowMarks) :
    (∀ d ∈ [mark], isWritten d = true ∧ isBreak d = false) ∧
      ∀ d ∈ [close], isWritten d = true ∧ isBreak d = false := by
  simp only [flowMarks, List.mem_cons, Prod.mk.injEq, List.not_mem_nil, or_false] at h
  rcases h with ⟨rfl, rfl, -⟩ | ⟨rfl, rfl, -⟩
  · exact ⟨List.forall_mem_singleton.2 ⟨rfl, rfl⟩, List.forall_mem_singleton.2 ⟨rfl, rfl⟩⟩
  · exact ⟨List.forall_mem_singleton.2 ⟨rfl, rfl⟩, List.forall_mem_singleton.2 ⟨rfl, rfl⟩⟩

theorem fetchAt_flowMarks (h : (mark, close, start, stop) ∈ flowMarks) (l : Lexer) :
    l.fetchAt mark = l.fetchFlowStart start ∧ l.fetchAt close = l.fetchFlowEnd stop := by
  simp only [flowMarks, List.mem_cons, Prod.mk.injEq, List.not_mem_nil, or_false] at h
  rcases h with ⟨rfl, rfl, rfl, rfl⟩ | ⟨rfl, rfl, rfl, rfl⟩ <;> simp [fetchAt]

/-- The mark that opens a collection inside a line is found. -/
theorem Ready.leads_open (h : Ready (mark :: rest) l)
    (hmarks : (mark, close, start, stop) ∈ flowMarks) : ∃ candidates, Leads l { l with
        cursor := l.cursor.advance 1
        found := start :: l.found
        count := l.count + 1
        flowLevel := 1
        keyAllowed := true
        candidates } ∧
      ∀ e ∈ candidates, e.1 = 0 ∧ e.2.required = false ∧ e.2.line ≤ l.cursor.line := by
  obtain ⟨saved, hsave, hcandidates⟩ := saveCandidate_optional h.level h.column h.candidates
  have hframe := saveCandidate_frame hsave
  generalize saved.candidates = candidates at hframe hcandidates
  subst hframe
  have hopened : l.fetch = .ok { l with
      cursor := l.cursor.advance 1
      found := start :: l.found
      count := l.count + 1
      flowLevel := 1
      keyAllowed := true
      candidates } := by
    rw [fetch_here h.rest (opens_flowMarks hmarks).1 h.stale (le_of_lt h.column),
      (fetchAt_flowMarks hmarks l).1, fetchFlowStart, hsave]
    show Except.ok { take { l with candidates } 1 start with
      flowLevel := l.flowLevel + 1, keyAllowed := true } = _
    rw [h.level]
    rfl
  refine ⟨candidates, Leads.of_fetch h.going hopened (.inl rfl) ?_, hcandidates⟩
  show (l.cursor.advance 1).rest.length < _
  rw [Cursor.advance_rest, h.rest]
  exact Nat.lt_succ_self _

/-- The mark behind an opening one closes what was opened. -/
theorem leads_close (hmarks : (mark, close, start, stop) ∈ flowMarks)
    (hrest : l.cursor.rest = close :: rest) (hlevel : l.flowLevel = 1) (hdone : l.done = false)
    (hcandidates : ∀ e ∈ l.candidates, e.1 = 0 ∧ e.2.required = false) :
    ∃ candidates ⊆ l.candidates, Leads l { l with
      cursor := l.cursor.advance 1
      found := stop :: l.found
      count := l.count + 1
      flowLevel := 0
      keyAllowed := false
      candidates } := by
  obtain ⟨kept, hstale, hsubset⟩ := dropStale_optional fun e he => (hcandidates e he).2
  have hframe := (dropStale_dropStale hstale).1
  generalize kept.candidates = candidates at hframe hsubset
  subst hframe
  have hskip : skipToToken (l.cursor.rest.length + 1) l = l :=
    skipToToken_blanks (k := 0) hrest (opens_flowMarks hmarks).2 _
  -- Inside brackets no block is closed, whatever the column is.
  have hunwind : unwind { l with candidates } l.cursor.column = { l with candidates } := by
    rw [unwind, if_pos (show inFlow { l with candidates } = true by rw [inFlow, hlevel]; rfl)]
  have hdrop : dropCandidate { l with candidates } = .ok { l with candidates } := by
    have hnone : candidates.lookup l.flowLevel = none := by
      rw [List.lookup_eq_none_iff, hlevel]
      intro e he
      rw [(hcandidates e (hsubset he)).1]
      rfl
    rw [dropCandidate, hnone]
  have hclosed : l.fetch = .ok { l with
      cursor := l.cursor.advance 1
      found := stop :: l.found
      count := l.count + 1
      flowLevel := 0
      keyAllowed := false
      candidates } := by
    rw [fetch, hskip, hstale]
    dsimp only [bind, Except.bind]
    rw [hunwind, Cursor.peek_zero hrest]
    show fetchAt { l with candidates } close = _
    rw [(fetchAt_flowMarks hmarks _).2, fetchFlowEnd, hdrop]
    show Except.ok { take { l with candidates } 1 stop with
      flowLevel := l.flowLevel - 1, keyAllowed := false } = _
    rw [hlevel]
    rfl
  refine ⟨candidates, hsubset, Leads.of_fetch hdone hclosed (.inl rfl) ?_⟩
  show (l.cursor.advance 1).rest.length < _
  rw [Cursor.advance_rest, hrest]
  exact Nat.lt_succ_self _

/-- The marks around nothing are found one behind the other. -/
theorem Ready.leads_empty (h : Ready (mark :: close :: rest) l)
    (hmarks : (mark, close, start, stop) ∈ flowMarks) :
    ∃ candidates, Leads l { l with
        cursor := l.cursor.advance 2
        found := stop :: start :: l.found
        count := l.count + 2
        flowLevel := 0
        keyAllowed := false
        candidates } ∧
      ∀ e ∈ candidates, e.1 = 0 ∧ e.2.required = false ∧ e.2.line ≤ l.cursor.line := by
  obtain ⟨candidates, hopen, hcandidates⟩ := h.leads_open hmarks
  have hrest : (l.cursor.advance 1).rest = close :: rest := by
    rw [Cursor.advance_rest, h.rest]
    rfl
  obtain ⟨others, hsubset, hclose⟩ := leads_close (l := { l with
    cursor := l.cursor.advance 1
    found := start :: l.found
    count := l.count + 1
    flowLevel := 1
    keyAllowed := true
    candidates }) hmarks hrest rfl h.going
    fun e he => ⟨(hcandidates e he).1, (hcandidates e he).2.1⟩
  refine ⟨others, hopen.trans ?_, fun e he => hcandidates e (hsubset he)⟩
  exact hclose

/-- The marks around nothing are found as tokens. -/
theorem yields_empty (hmarks : (mark, close, start, stop) ∈ flowMarks) (s : Sheet) :
    Yields column s ((s.mark [mark] true true).mark [close] false) [start, stop] := by
  obtain ⟨hmark, hclose⟩ := isWritten_flowMarks hmarks
  have hlead : (s.mark [mark] true true).lead false = [] := by
    rw [Sheet.mark_eq, Sheet.lead, Bool.not_false, Bool.or_true, if_pos rfl]
  have hprints : Sheet.Prints s ((s.mark [mark] true true).mark [close] false)
      (s.lead true ++ [mark] ++ [close]) := by
    have hsecond := (s.mark [mark] true true).prints_mark false false false hclose
    rw [hlead] at hsecond
    exact (s.prints_mark _ _ _ hmark).trans hsecond
  have hindented : ((s.mark [mark] true true).mark [close] false).indented = false := by
    rw [Sheet.mark_eq, Bool.and_false]
  refine ⟨_, hprints, fun hspaced tail => ?_, ?_⟩
  · rw [List.append_assoc, List.append_assoc]
    exact startsGap_lead hspaced _
  intro l tail hat hindent hcolumn _
  obtain ⟨hendRest, hendColumn, -⟩ := cursor_of_prints hprints hat.rest hat.column
  rw [List.append_assoc, List.append_assoc] at hat
  obtain ⟨kept, hblanks, hready, hcursor, hfound, hindent', hindents⟩ :=
    hat.skipLead (List.cons_ne_nil _ _) (opens_flowMarks hmarks).1 (by omega)
  obtain ⟨candidates, hleads, hcandidates⟩ := hready.leads_empty hmarks
  have hend : kept.cursor.advance 2 =
      l.cursor.advance (s.lead true ++ [mark] ++ [close]).length := by
    rw [hcursor, ← Cursor.advance_add, List.length_append, List.length_append]
    rfl
  have hinline := cursor_inline [mark, close] hready.rest
    (List.forall_mem_cons.2 ⟨hmark mark List.mem_cons_self, hclose⟩)
  have hline : (kept.cursor.advance 2).line = kept.cursor.line := by
    show (kept.cursor.advance [mark, close].length).line = _
    rw [hinline]
  rw [← hend] at hendRest hendColumn
  refine ⟨_, hblanks.trans hleads, At.reads (s := (s.mark [mark] true true).mark [close] false)
    ?_ (congrArg (stop :: start :: ·) hfound) (hindent'.trans hindent) hindents⟩
  exact
    { rest := hendRest
      column := hendColumn
      level := rfl
      going := hready.going
      count := congrArg (· + 2) hready.count
      candidates := by
        intro e he
        obtain ⟨hzero, hoptional, hbefore⟩ := hcandidates e he
        refine ⟨hzero, hoptional, hline ▸ hbefore, fun htrue => ?_⟩
        rw [hindented] at htrue
        cases htrue
      allowed := by
        intro htrue
        rw [hindented] at htrue
        cases htrue }

end Flow

/-! ## Collections with parts -/

/-- What is written at a column as the parts of a block is found as tokens, the first of which opens
the block unless it is open already. -/
def Blocks (n : Nat) (start : Token) (s s' : Sheet) (ts : List Token) : Prop :=
  ∃ cs, Sheet.Prints s s' (s.gap n ++ cs) ∧ (∀ tail, Opens (cs ++ tail)) ∧
    ∀ b tail, Begins (s.indentTo n) (cs ++ tail) b → b.indent ≤ n → Follows n s' tail →
      ∃ l', Leads b l' ∧ Reads s' tail n (ts.reverse ++ b.opened n start) (b.around n) l'

variable {n : Nat} {start : Token}

theorem opened_eq (h : l.indent = n) (start : Token) :
    l.opened n start = l.found ∧ l.around n = l.indents := by
  have hle : ¬l.indent < n := by omega
  exact ⟨if_neg hle, if_neg hle⟩

theorem opened_deeper (h : l.indent < n) (start : Token) :
    l.opened n start = start :: l.found ∧ l.around n = l.indent :: l.indents :=
  ⟨if_pos h, if_pos h⟩

/-- Further parts are found behind the first ones. -/
theorem Blocks.append (h : Blocks n start s s₁ ts) (h' : Blocks n start s₁ s' us) :
    Blocks n start s s' (ts ++ us) := by
  obtain ⟨cs, hprints, hopens, hfinds⟩ := h
  obtain ⟨ds, hprints', hopens', hfinds'⟩ := h'
  refine ⟨cs ++ (s₁.gap n ++ ds), ?_, fun tail => ?_, fun b tail hbegins hindent hfollows => ?_⟩
  · rw [← List.append_assoc]
    exact hprints.trans hprints'
  · rw [List.append_assoc]
    exact hopens _
  · rw [List.append_assoc, List.append_assoc] at hbegins
    obtain ⟨l₁, hleads, hreads⟩ := hfinds b _ hbegins hindent ⟨n, _, le_rfl, hopens' tail, rfl⟩
    obtain ⟨l₂, hleads', hbegins', hfound, hindent', hindents⟩ := hreads.toAt.arrive (hopens' tail)
    rw [hreads.found] at hfound
    rw [hreads.indent] at hindent'
    rw [hreads.indents] at hindents
    obtain ⟨l', hleads'', hreads'⟩ := hfinds' l₂ tail hbegins' (le_of_eq hindent') hfollows
    obtain ⟨hopened, haround⟩ := opened_eq hindent' start
    rw [hopened, haround, hfound, hindents] at hreads'
    refine ⟨l', (hleads.trans hleads').trans hleads'', ?_⟩
    rw [List.reverse_append, List.append_assoc]
    exact hreads'

/-- A block is closed in front of what is indented less. -/
theorem Reads.close {rest : List Char} {tokens : List Token} {inner outer : Int}
    {around : List Int} (h : Reads s rest inner tokens (outer :: around) l) (hlt : outer < inner) :
    Reads s rest outer (.blockEnd :: tokens) around l := by
  obtain ⟨-, hlevel, -, -⟩ := unwind_frame inner l
  have hflow : ¬(l.unwind inner).inFlow = true := by
    rw [inFlow, hlevel, h.level]
    decide
  let closed : Lexer := { (l.unwind inner).push .blockEnd with indent := outer, indents := around }
  have hunwind : l.unwind outer = closed := by
    rw [← unwind_unwind (le_of_lt hlt), unwind, if_neg hflow, h.indents, unwindFrom,
      if_pos (by rw [h.indent]; exact hlt)]
    exact unwindFrom_of_le (le_refl closed.indent) _
  refine ⟨h.toAt, ?_, by rw [hunwind], by rw [hunwind]⟩
  rw [hunwind, ← h.found]
  rfl

/-- The parts of a sequence under a key need no block of their own. -/
theorem Blocks.yields_bare (h : Blocks column start s s' ts) : Yields column s s' ts := by
  obtain ⟨cs, hprints, hopens, hfinds⟩ := h
  refine ⟨_, hprints, fun hspaced tail => ?_, fun l tail hat hindent _ hfollows => ?_⟩
  · rw [List.append_assoc]
    exact startsGap_gap hspaced _ _
  · rw [List.append_assoc] at hat
    obtain ⟨b, hleads, hbegins, hfound, hindent', hindents⟩ := hat.arrive (hopens tail)
    rw [unwind_of_le (le_of_eq hindent)] at hfound hindent' hindents
    have hcolumn := hindent'.trans hindent
    obtain ⟨l', hleads', hreads⟩ := hfinds b tail hbegins (le_of_eq hcolumn) hfollows
    obtain ⟨hopened, haround⟩ := opened_eq hcolumn start
    rw [hopened, haround, hfound, hindents] at hreads
    exact ⟨l', hleads.trans hleads', hreads⟩

/-- Parts that are indented further than the block around them are a block of their own. -/
theorem Blocks.yields (h : Blocks n start s s' ts) (hlt : column < n) :
    Yields column s s' (start :: ts ++ [.blockEnd]) := by
  obtain ⟨cs, hprints, hopens, hfinds⟩ := h
  refine ⟨_, hprints, fun hspaced tail => ?_, fun l tail hat hindent _ hfollows => ?_⟩
  · rw [List.append_assoc]
    exact startsGap_gap hspaced _ _
  · rw [List.append_assoc] at hat
    obtain ⟨b, hleads, hbegins, hfound, hindent', hindents⟩ := hat.arrive (hopens tail)
    rw [unwind_of_le (by omega)] at hfound hindent' hindents
    have hdeeper : b.indent < n := by omega
    obtain ⟨l', hleads', hreads⟩ :=
      hfinds b tail hbegins (le_of_lt hdeeper) (hfollows.mono (le_of_lt hlt))
    obtain ⟨hopened, haround⟩ := opened_deeper hdeeper start
    rw [hopened, haround, hfound, hindents, hindent', hindent] at hreads
    refine ⟨l', hleads.trans hleads', ?_⟩
    have hclosed := hreads.close (by omega)
    simpa using hclosed

/-- An item or a part of an entry is found behind its mark. -/
theorem Yields.marked {d : Char}
    (hd : (d, start, t) ∈ [('-', .blockSequenceStart, .blockEntry), ('?', .blockMappingStart, .key),
      (':', .blockMappingStart, .value)])
    (h : Yields n ((s.indentTo n).mark [d] true false true) s' ts) :
    Blocks n start s s' (t :: ts) := by
  obtain ⟨cs, hprints, hstarts, hlexes⟩ := h
  have hchar : (∀ rest, Opens (d :: rest)) ∧ isWritten d = true ∧ isBreak d = false := by
    simp only [List.mem_cons, Prod.mk.injEq, List.not_mem_nil, or_false] at hd
    rcases hd with ⟨rfl, -⟩ | ⟨rfl, -⟩ | ⟨rfl, -⟩ <;>
      exact ⟨by rintro rest _ ⟨rfl⟩; decide, by decide, by decide⟩
  have hindentTo := s.indentTo_eq n
  have hspaced : (s.indentTo n).spaced = true := by rw [hindentTo]
  have hcolumn : (s.indentTo n).column = n := by rw [hindentTo]
  have hmark : Sheet.Prints (s.indentTo n) ((s.indentTo n).mark [d] true false true) [d] := by
    have hmarked := (s.indentTo n).prints_mark true false true
      (List.forall_mem_singleton.2 hchar.2)
    rwa [Sheet.lead, hspaced] at hmarked
  have hfurther : n < ((s.indentTo n).mark [d] true false true).column := by
    rw [Sheet.mark_eq, Sheet.lead, hspaced, hcolumn]
    exact Nat.lt_succ_self _
  refine ⟨d :: cs, (s.prints_indentTo n).trans (hmark.trans hprints), fun tail => hchar.1 _,
    fun b tail hbegins hindent hfollows => ?_⟩
  have hends := (endsToken_of_startsGap (hstarts (by rw [Sheet.mark_eq]) tail)).1
  obtain ⟨l, hleads, hbehind, hfound, hindent', hindents⟩ :=
    hbegins.mark hd hends (by rw [hcolumn]; exact hindent) hspaced
  rw [hcolumn] at hfound hindent' hindents
  obtain ⟨l', hleads', hreads⟩ := hlexes l tail hbehind.toAt hindent' hfurther hfollows
  rw [hfound, hindents] at hreads
  refine ⟨l', hleads.trans hleads', ?_⟩
  rw [List.reverse_cons, List.append_assoc]
  exact hreads

/-- The key of an entry is found in front of its colon, and the value behind it. -/
theorem Line.entry {ds : List Char} {ks : List Token} (hkey : Line n (s.indentTo n) s₁ ds ks)
    (hinline : ∀ d ∈ ds, isBreak d = false) (hwidth : ds.length ≤ 1024)
    (h : Yields n (s₁.mark [':'] false) s' ts) :
    Blocks n .blockMappingStart s s' (.key :: ks ++ .value :: ts) := by
  obtain ⟨cs, hprints, hstarts, hlexes⟩ := h
  have hindentTo := s.indentTo_eq n
  have hspaced : (s.indentTo n).spaced = true := by rw [hindentTo]
  have hcolumn : (s.indentTo n).column = n := by rw [hindentTo]
  have hmark : ∀ d ∈ [':'], isWritten d = true ∧ isBreak d = false :=
    List.forall_mem_singleton.2 ⟨rfl, rfl⟩
  have hcolon := s₁.prints_mark false false false hmark
  rw [Sheet.lead, Bool.not_false, Bool.or_true, if_pos rfl] at hcolon
  have hfurther : n ≤ s₁.column := by
    rw [hkey.prints.column, columnAfter_inline _ hinline, hcolumn]
    exact Nat.le_add_right _ _
  refine ⟨ds ++ (':' :: cs), (s.prints_indentTo n).trans (hkey.prints.trans
    (hcolon.trans hprints)), fun tail => ?_, fun b tail hbegins hindent hfollows => ?_⟩
  · rw [List.append_assoc]
    exact hkey.opens hspaced _
  · rw [List.append_assoc] at hbegins
    have hplace : b.cursor.column = n := hbegins.column.trans hcolumn
    have hends := (endsToken_of_startsGap (hstarts (by rw [Sheet.mark_eq]) tail)).1
    obtain ⟨l₁, hleads, hkeyAt⟩ :=
      hkey.key hbegins hspaced hinline hends hindent hcolumn hwidth
    obtain ⟨l₂, hleads', hat, hfound, hindent', hindents⟩ := hkeyAt.value hbegins.count hends hwidth
      (by rw [hplace]; exact hindent) (by omega)
    rw [hplace] at hfound hindent' hindents
    obtain ⟨l', hleads'', hreads⟩ := hlexes l₂ tail hat hindent'
      (by
        rw [Sheet.mark_eq, Sheet.lead, Bool.not_false, Bool.or_true, if_pos rfl]
        exact Nat.lt_succ_of_le hfurther) hfollows
    rw [hfound, hindents] at hreads
    refine ⟨l', (hleads.trans hleads').trans hleads'', ?_⟩
    simpa using hreads

end Lexer

end SiteRules.Yaml
