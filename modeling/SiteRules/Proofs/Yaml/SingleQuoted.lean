import SiteRules.Proofs.Yaml.Quoted
import SiteRules.Proofs.Yaml.Runs

/-!
# Single quotes

What is written between single quotes is read as the text that was written, provided that no next
line (U+0085) is in it (`Sheet.reads_putSingleQuoted`). A next line is a line end like others where
a scalar is written, but it is read as a line feed.
-/

namespace SiteRules.Yaml

/-! ## Pairs of code points -/

namespace Style

variable {first second : CodePoint → Bool}

theorem holdsPair_cons (c : CodePoint) {t : Text} (h : holdsPair first second t = true) :
    holdsPair first second (c :: t) = true := by
  cases t with
  | nil => cases h
  | cons d rest => rw [holdsPair, h, Bool.or_true]

theorem holdsPair_append (u : Text) {t : Text} (h : holdsPair first second t = true) :
    holdsPair first second (u ++ t) = true := by
  induction u with
  | nil => exact h
  | cons c rest ih => exact holdsPair_cons c ih

theorem holdsPair_here {a b : CodePoint} (ha : first a = true) (hb : second b = true) (t : Text) :
    holdsPair first second (a :: b :: t) = true := by
  rw [holdsPair, ha, hb]
  rfl

end Style

namespace Sheet

/-- No run of blanks is beside a run of line ends. -/
def Apart : List (Run × Text) → Prop
  | [] => True
  | (kind, _) :: rest => (kind ≠ .words → ∀ r ∈ rest.head?, r.1 = .words) ∧ Apart rest

/-- Runs that lie side by side meet in their last and first code points. -/
theorem exists_meeting {kind kind' : Run} {run run' : Text} {rest : List (Run × Text)}
    (h : AreRuns ((kind, run) :: (kind', run') :: rest)) : ∃ front a b back,
      ofRuns ((kind, run) :: (kind', run') :: rest) = front ++ a :: b :: back ∧
        Run.of a = kind ∧ Run.of b = kind' := by
  cases h with
  | cons hne hkind _ hrest =>
    cases hrest with
    | cons hne' hkind' _ _ =>
      obtain ⟨front, a, rfl⟩ := (List.eq_nil_or_concat' run).resolve_left hne
      obtain ⟨b, back, rfl⟩ := List.exists_cons_of_ne_nil hne'
      exact ⟨front, a, b, back ++ ofRuns rest, by simp [ofRuns], hkind a (by simp),
        hkind' b List.mem_cons_self⟩

/-- Runs lie apart if their text has no blank beside a line end. -/
theorem apart_of_holdsPair {rs : List (Run × Text)} (hruns : AreRuns rs)
    (hbefore : Style.holdsPair Style.isBlank Style.isBreak (ofRuns rs) = false)
    (hbehind : Style.holdsPair Style.isBreak Style.isBlank (ofRuns rs) = false) : Apart rs := by
  induction rs with
  | nil => exact trivial
  | cons r rest ih =>
    obtain ⟨kind, run⟩ := r
    have hrest : ∀ first second : CodePoint → Bool,
        Style.holdsPair first second (ofRuns ((kind, run) :: rest)) = false →
        Style.holdsPair first second (ofRuns rest) = false := by
      intro first second h
      by_contra hpair
      rw [Bool.not_eq_false] at hpair
      rw [show ofRuns ((kind, run) :: rest) = run ++ ofRuns rest from rfl,
        Style.holdsPair_append run hpair] at h
      cases h
    have hmore : AreRuns rest := by
      cases hruns
      assumption
    refine ⟨fun hkind r' hr' => ?_, ih hmore (hrest _ _ hbefore) (hrest _ _ hbehind)⟩
    obtain ⟨more, rfl⟩ := List.head?_eq_some_iff.1 hr'
    obtain ⟨kind', run'⟩ := r'
    have hother : kind' ≠ kind := by
      cases hruns with
      | cons _ _ hnext _ => exact hnext _ rfl
    obtain ⟨front, a, b, back, htext, ha, hb⟩ := exists_meeting hruns
    -- two runs of different kinds that are no words are a pair of a blank and a line end
    have hpair : ∀ {first second : CodePoint → Bool}, first a = true → second b = true →
        Style.holdsPair first second (ofRuns ((kind, run) :: (kind', run') :: more)) = true := by
      intro first second hfirst hsecond
      rw [htext]
      exact Style.holdsPair_append front (Style.holdsPair_here hfirst hsecond back)
    have hblank : ∀ {c : CodePoint}, Run.of c = .blanks → Style.isBlank c = true :=
      fun hc => decide_eq_true (Run.of_eq_blanks hc)
    cases kind with
    | words => exact absurd rfl hkind
    | blanks =>
      cases kind' with
      | words => rfl
      | blanks => exact absurd rfl hother
      | breaks =>
        rw [hpair (hblank ha) (Run.of_eq_breaks hb)] at hbefore
        cases hbefore
    | breaks =>
      cases kind' with
      | words => rfl
      | breaks => exact absurd rfl hother
      | blanks =>
        rw [hpair (Run.of_eq_breaks ha) (hblank hb)] at hbehind
        cases hbehind

end Sheet

/-! ## Reading runs -/

variable {cs : List Char} {t : Text}

theorem QuotedReads.words (h : QuotedReads false cs t) {run : Text}
    (hspecial : ∀ c ∈ run, Style.isSpecial c = false)
    (hkind : ∀ c ∈ run, Sheet.Run.of c = .words) :
    QuotedReads false ((Sheet.doubleQuotes run).map CodePoint.toChar ++ cs) (run ++ t) := by
  induction run with
  | nil => exact h
  | cons c rest ih =>
    obtain ⟨hc, hrest⟩ := List.forall_mem_cons.1 hspecial
    obtain ⟨hword, hmore⟩ := List.forall_mem_cons.1 hkind
    have hreads := ih hrest hmore
    obtain ⟨hchar, -, hbreak, hspace⟩ := exists_char_of_words hc hword
    have hsplit : Sheet.doubleQuotes (c :: rest) =
        (if c = CodePoint.ofChar '\'' then [c, c] else [c]) ++ Sheet.doubleQuotes rest := rfl
    rw [hsplit]
    by_cases hquote : c = CodePoint.ofChar '\''
    · rw [if_pos hquote, hquote]
      exact hreads.pair
    · have hne : c.toChar ≠ '\'' := fun heq =>
        hquote (hchar.trans (congrArg CodePoint.ofChar heq))
      have hone := hreads.char hne (fun hdouble => by cases hdouble) hspace hbreak
      rw [← hchar] at hone
      rw [if_neg hquote]
      exact hone

/-- The characters of a word begin with neither a blank nor a line end. -/
theorem head_doubleQuotes {run : Text} (hne : run ≠ [])
    (hspecial : ∀ c ∈ run, Style.isSpecial c = false)
    (hkind : ∀ c ∈ run, Sheet.Run.of c = .words) (cs : List Char) :
    ∀ d ∈ ((Sheet.doubleQuotes run).map CodePoint.toChar ++ cs).head?,
      isSpace d = false ∧ isBreak d = false := by
  obtain ⟨c, rest, rfl⟩ := List.exists_cons_of_ne_nil hne
  obtain ⟨-, -, hbreak, hspace⟩ :=
    exists_char_of_words (hspecial c List.mem_cons_self) (hkind c List.mem_cons_self)
  have hsplit : ∃ more, Sheet.doubleQuotes (c :: rest) = c :: more := by
    show ∃ more, (if c = CodePoint.ofChar '\'' then [c, c] else [c]) ++ _ = c :: more
    split <;> exact ⟨_, rfl⟩
  obtain ⟨more, hmore⟩ := hsplit
  rw [hmore]
  rintro _ ⟨rfl⟩
  exact ⟨hspace, hbreak⟩

theorem QuotedReads.blanks (h : QuotedReads false cs t) (hgoes : GoesOn cs) (k : Nat) :
    QuotedReads false (List.replicate k ' ' ++ cs) (List.replicate k (CodePoint.ofChar ' ') ++ t) ∧
      GoesOn (List.replicate k ' ' ++ cs) := by
  induction k with
  | zero => exact ⟨h, hgoes⟩
  | succ k ih => exact ⟨ih.1.blank ih.2, goesOn_blank ih.2⟩

/-- Line ends that are written so that a reader that folds them keeps them. A line feed in front of
others is written twice. -/
theorem QuotedReads.breaks (h : QuotedReads false cs t) {run : Text} (hne : run ≠ [])
    (hspecial : ∀ c ∈ run, Style.isSpecial c = false)
    (hkind : ∀ c ∈ run, Sheet.Run.of c = .breaks) (hnext : CodePoint.ofChar '\x85' ∉ run)
    (hhead : ∀ d ∈ cs.head?, isSpace d = false ∧ isBreak d = false) (n : Nat) :
    QuotedReads false
      ((if run.head? = some (CodePoint.ofChar '\n') then ['\n'] else []) ++
        run.map CodePoint.toChar ++ List.replicate (n + 1) ' ' ++ cs) (run ++ t) := by
  have hchar : ∀ c ∈ run, c = CodePoint.ofChar c.toChar := fun c hc =>
    (isWritten_of_not_isSpecial (hspecial c hc)).1
  have hbreak : ∀ d ∈ run.map CodePoint.toChar, isBreak d = true ∧ isWritten d = true := by
    refine List.forall_mem_map.2 fun c hc => ?_
    obtain ⟨-, hwritten, hbreak, -⟩ := isWritten_of_not_isSpecial (hspecial c hc)
    exact ⟨hbreak.trans (Sheet.Run.of_eq_breaks (hkind c hc)), hwritten⟩
  have hread : ∀ d ∈ run.map CodePoint.toChar, readBreak d = d := by
    refine List.forall_mem_map.2 fun c hc => if_neg fun heq => hnext ?_
    rw [← heq, ← hchar c hc]
    exact hc
  have htext := ofChars_map_toChar hchar
  obtain ⟨c, more, rfl⟩ := List.exists_cons_of_ne_nil hne
  by_cases hfeed : c = CodePoint.ofChar '\n'
  · have hall : ∀ d ∈ '\n' :: (c :: more).map CodePoint.toChar,
        isBreak d = true ∧ isWritten d = true := List.forall_mem_cons.2 ⟨⟨rfl, rfl⟩, hbreak⟩
    have hlines := h.lines (n := n) hall hhead
    rw [show readBreak '\n' = '\n' from rfl, List.map_congr_left hread, List.map_id'] at hlines
    have hfirst : (c :: more).head? = some (CodePoint.ofChar '\n') := congrArg some hfeed
    rw [if_pos hfirst]
    nth_rewrite 2 [← htext]
    exact hlines
  · have hlines := h.lines (n := n) hbreak hhead
    have hother : c.toChar ≠ '\n' := fun heq => hfeed (by
      rw [hchar c List.mem_cons_self, heq])
    rw [hread c.toChar List.mem_cons_self,
      List.map_congr_left fun d hd => hread d (List.mem_cons_of_mem _ hd), List.map_id'] at hlines
    have hfirst : (c :: more).head? ≠ some (CodePoint.ofChar '\n') :=
      fun heq => hfeed (Option.some.inj heq)
    rw [if_neg hfirst]
    nth_rewrite 2 [← htext]
    rw [folded, if_pos hother] at hlines
    exact hlines

/-! ## Writing runs -/

namespace Sheet

/-- Line ends are written one after the other, and a new line begins behind them. -/
theorem prints_putBreaks (s : Sheet) {run : Text} (hne : run ≠ [])
    (h : ∀ c ∈ run, isBreak c.toChar = true ∧ isWritten c.toChar = true) :
    Prints s (s.putBreaks run) (run.map CodePoint.toChar) ∧
      (s.putBreaks run).column = 0 ∧ (s.putBreaks run).spaced = true ∧
        (s.putBreaks run).indented = true := by
  induction run generalizing s with
  | nil => exact absurd rfl hne
  | cons c rest ih =>
    obtain ⟨⟨hbreak, hwritten⟩, hrest⟩ := List.forall_mem_cons.1 h
    have hfirst := prints_break s hbreak hwritten
    rw [show s.putBreaks (c :: rest) = (s.breakWith c.toChar).putBreaks rest from rfl]
    cases rest with
    | nil => exact ⟨hfirst, rfl, rfl, rfl⟩
    | cons d more =>
      obtain ⟨hmore, hend⟩ := ih (s.breakWith c.toChar) (List.cons_ne_nil _ _) hrest
      exact ⟨hfirst.trans hmore, hend⟩

theorem prints_doubleQuotes (s : Sheet) {run : Text}
    (hspecial : ∀ c ∈ run, Style.isSpecial c = false) (hkind : ∀ c ∈ run, Run.of c = .words) :
    Prints s (s.putText (doubleQuotes run)) ((doubleQuotes run).map CodePoint.toChar) := by
  refine prints_put s (List.forall_mem_map.2 fun c hc => ?_)
  obtain ⟨c', hmem, hc'⟩ := List.mem_flatMap.1 hc
  have heq : c = c' := by
    split at hc'
    · simpa using hc'
    · simpa using hc'
  obtain ⟨-, hwritten, hbreak, -⟩ :=
    exists_char_of_words (hspecial c (heq ▸ hmem)) (hkind c (heq ▸ hmem))
  exact ⟨hwritten, hbreak⟩

/-- What has been written for some runs between single quotes is read as their text. -/
structure PrintsSingle (s s' : Sheet) (rs : List (Run × Text)) (cs : List Char) : Prop where
  prints : Prints s s' cs
  reads : QuotedReads false cs (ofRuns rs)
  head : (∀ r ∈ rs.head?, r.1 = .words) → ∀ d ∈ cs.head?, isSpace d = false ∧ isBreak d = false

/-- Where nothing but the indentation is on the line, a word follows. -/
def Begun (indent : Nat) (rs : List (Run × Text)) (s : Sheet) : Prop :=
  s.indented = true → indent ≤ s.column ∧ (indent < s.column ∨ ∀ r ∈ rs.head?, r.1 = .words)

theorem begun_indentTo {indent : Nat} {rs : List (Run × Text)} (h : ∀ r ∈ rs.head?, r.1 = .words)
    (s : Sheet) : Begun indent rs (s.indentTo indent) := by
  rw [indentTo_eq]
  exact fun _ => ⟨Nat.le_refl _, .inr h⟩

theorem begun_put {indent : Nat} {rs rs' : List (Run × Text)} {s : Sheet} (h : Begun indent rs s)
    {cs : List Char} (hne : cs ≠ []) : Begun indent rs' (s.put cs) := by
  intro hindented
  have hlt : s.column < s.column + cs.length :=
    Nat.lt_add_of_pos_right (List.length_pos_iff.2 hne)
  have hle := (h hindented).1
  exact ⟨Nat.le_of_lt (Nat.lt_of_le_of_lt hle hlt), .inl (Nat.lt_of_le_of_lt hle hlt)⟩

section Single

variable {indent : Nat} (hindent : 0 < indent) {split : Bool} {run : Text}
  {rest : List (Run × Text)}

theorem PrintsSingle.words {s s' : Sheet} {cs : List Char} (hne : run ≠ [])
    (hspecial : ∀ c ∈ run, Style.isSpecial c = false) (hkind : ∀ c ∈ run, Run.of c = .words)
    (h : PrintsSingle (s.putText (doubleQuotes run)) s' rest cs) :
    PrintsSingle s s' ((.words, run) :: rest) ((doubleQuotes run).map CodePoint.toChar ++ cs) :=
  ⟨(prints_doubleQuotes s hspecial hkind).trans h.prints, h.reads.words hspecial hkind,
    fun _ => head_doubleQuotes hne hspecial hkind cs⟩

theorem not_words_head {kind : Run} (hkind : kind ≠ .words) :
    ¬∀ r ∈ ((kind, run) :: rest).head?, r.1 = .words :=
  fun h => hkind (h _ rfl)

theorem PrintsSingle.blanks {s s' : Sheet} {cs : List Char}
    (hkind : ∀ c ∈ run, Run.of c = .blanks) (hwords : ∀ r ∈ rest.head?, r.1 = .words)
    (h : PrintsSingle (s.putText run) s' rest cs) :
    PrintsSingle s s' ((.blanks, run) :: rest) (run.map CodePoint.toChar ++ cs) := by
  have hrun := eq_replicate_of_blanks hkind
  have hchars : run.map CodePoint.toChar = List.replicate run.length ' ' := by
    rw [hrun, List.map_replicate, List.length_replicate]
    rfl
  have hprints : Prints s (s.putText run) (run.map CodePoint.toChar) := by
    refine prints_put s fun d hd => ?_
    rw [hchars] at hd
    rw [List.eq_of_mem_replicate hd]
    exact ⟨rfl, rfl⟩
  have hgoes : GoesOn cs := by
    cases cs with
    | nil => exact goesOn_nil
    | cons d more =>
      obtain ⟨hspace, hbreak⟩ := h.head hwords d rfl
      exact goesOn_cons hspace hbreak
  have hreads := (h.reads.blanks hgoes run.length).1
  rw [← hrun, ← hchars] at hreads
  exact ⟨hprints.trans h.prints, hreads, fun hhead => absurd hhead (not_words_head (by decide))⟩

include hindent

/-- A line is broken in the place of a blank. -/
theorem PrintsSingle.fold {s s' : Sheet} {cs : List Char} (hlength : run.length = 1)
    (hkind : ∀ c ∈ run, Run.of c = .blanks) (hwords : ∀ r ∈ rest.head?, r.1 = .words)
    (hs : Begun indent ((.blanks, run) :: rest) s)
    (h : PrintsSingle (s.indentTo indent) s' rest cs) :
    PrintsSingle s s' ((.blanks, run) :: rest) ('\n' :: List.replicate indent ' ' ++ cs) := by
  have hline : s.needsLine indent = true := by
    cases hindented : s.indented with
    | false => rw [needsLine, hindented]; rfl
    | true =>
      have hlt := (hs hindented).2.resolve_right (not_words_head (by decide))
      rw [needsLine, decide_eq_true hlt, Bool.or_true, Bool.true_or]
  have hprints := (prints_indentTo s indent).trans h.prints
  rw [gap, if_pos hline] at hprints
  refine ⟨hprints, ?_, fun hhead => absurd hhead (not_words_head (by decide))⟩
  obtain ⟨n, rfl⟩ := Nat.exists_eq_add_one_of_ne_zero (Nat.ne_of_gt hindent)
  have hreads := h.reads.lines (b := '\n') (n := n)
    (List.forall_mem_singleton.2 ⟨rfl, rfl⟩) (h.head hwords)
  have hrun : run = [CodePoint.ofChar ' '] := by
    rw [eq_replicate_of_blanks hkind, hlength]
    rfl
  rw [hrun]
  exact hreads

theorem PrintsSingle.breaks {s s' : Sheet} {cs : List Char} (hne : run ≠ [])
    (hspecial : ∀ c ∈ run, Style.isSpecial c = false) (hkind : ∀ c ∈ run, Run.of c = .breaks)
    (hnext : CodePoint.ofChar '\x85' ∉ run) (hwords : ∀ r ∈ rest.head?, r.1 = .words)
    (h : PrintsSingle (((if run.head? = some (CodePoint.ofChar '\n') then s.breakWith '\n'
      else s).putBreaks run).indentTo indent) s' rest cs) :
    ∃ ds, PrintsSingle s s' ((.breaks, run) :: rest) ds := by
  have hbreak : ∀ c ∈ run, isBreak c.toChar = true ∧ isWritten c.toChar = true := fun c hc => by
    obtain ⟨-, hwritten, hbreak, -⟩ := isWritten_of_not_isSpecial (hspecial c hc)
    exact ⟨hbreak.trans (Run.of_eq_breaks (hkind c hc)), hwritten⟩
  have hfirst : Prints s
      (if run.head? = some (CodePoint.ofChar '\n') then s.breakWith '\n' else s)
      (if run.head? = some (CodePoint.ofChar '\n') then ['\n'] else []) := by
    split
    · exact prints_break s rfl rfl
    · exact .refl s
  generalize (if run.head? = some (CodePoint.ofChar '\n') then s.breakWith '\n' else s) = s₁
    at hfirst h
  obtain ⟨hlines, hcolumn, hspaced, hindented⟩ := prints_putBreaks s₁ hne hbreak
  have hgap : (s₁.putBreaks run).gap indent = List.replicate indent ' ' := by
    have hline : (s₁.putBreaks run).needsLine indent = false := by
      rw [needsLine, hcolumn, hspaced, hindented]
      simp
    rw [gap, hline, hcolumn]
    rfl
  have hprints := ((hfirst.trans hlines).trans (prints_indentTo _ indent)).trans h.prints
  rw [hgap] at hprints
  obtain ⟨n, rfl⟩ := Nat.exists_eq_add_one_of_ne_zero (Nat.ne_of_gt hindent)
  exact ⟨_, hprints, h.reads.breaks hne hspecial hkind hnext (h.head hwords) n,
    fun hhead => absurd hhead (not_words_head (by decide))⟩

/-- What is written for runs between single quotes is read as their text. -/
theorem exists_printsSingle (split : Bool) {rs : List (Run × Text)} (hruns : AreRuns rs)
    (hapart : Apart rs) (hspecial : ∀ c ∈ ofRuns rs, Style.isSpecial c = false)
    (hnext : CodePoint.ofChar '\x85' ∉ ofRuns rs) (first : Bool) {s : Sheet}
    (hs : Begun indent rs s) :
    ∃ cs, PrintsSingle s (putSingleQuotedRuns indent split first rs s) rs cs := by
  induction hruns generalizing first s with
  | nil => exact ⟨[], .refl s, quotedReads_nil, fun _ _ hd => by cases hd⟩
  | @cons kind run rest hne hkind hother hrest ih =>
    rw [show ofRuns ((kind, run) :: rest) = run ++ ofRuns rest from rfl] at hspecial hnext
    obtain ⟨hown, hmore⟩ := List.forall_mem_append.1 hspecial
    rw [List.mem_append, not_or] at hnext
    have hgo := fun {s : Sheet} (hs : Begun indent rest s) => ih hapart.2 hmore hnext.2 false hs
    have hlength : run.map CodePoint.toChar ≠ [] := by simpa using hne
    cases kind with
    | words =>
      rw [putSingleQuotedRuns]
      have hquotes : (doubleQuotes run).map CodePoint.toChar ≠ [] := by
        obtain ⟨c, more, rfl⟩ := List.exists_cons_of_ne_nil hne
        rw [doubleQuotes, List.flatMap_cons]
        split <;> exact List.cons_ne_nil _ _
      obtain ⟨cs, hcs⟩ := hgo (begun_put hs hquotes)
      exact ⟨_, PrintsSingle.words hne hown hkind hcs⟩
    | blanks =>
      have hwords := hapart.1 (by decide)
      rw [putSingleQuotedRuns]
      split
      · next hfold =>
        simp only [Bool.and_eq_true, decide_eq_true_eq] at hfold
        obtain ⟨cs, hcs⟩ := hgo (begun_indentTo hwords s)
        exact ⟨_, PrintsSingle.fold hindent hfold.1.1.1.1 hkind hwords hs hcs⟩
      · obtain ⟨cs, hcs⟩ := hgo (begun_put hs hlength)
        exact ⟨_, PrintsSingle.blanks hkind hwords hcs⟩
    | breaks =>
      have hwords := hapart.1 (by decide)
      rw [putSingleQuotedRuns]
      obtain ⟨cs, hcs⟩ := hgo (begun_indentTo hwords _)
      exact PrintsSingle.breaks hindent hne hown hkind hnext.1 hwords hcs

/-- What is written between single quotes is read as the text. -/
theorem reads_putSingleQuoted (s : Sheet) {t : Text} (h : Style.allowsSingleQuoted t = true)
    (hnext : CodePoint.ofChar '\x85' ∉ t) : ∃ cs,
    Prints s (s.putSingleQuoted indent split t) (s.lead true ++ '\'' :: cs ++ ['\'']) ∧
      QuotedReads false cs t := by
  simp only [Style.allowsSingleQuoted, Style.needsEscapes, Bool.not_eq_true', Bool.or_eq_false_iff]
    at h
  obtain ⟨⟨hspecial, hbefore⟩, hbehind⟩ := h
  obtain ⟨hruns, htext⟩ := runs_spec t
  have hmark : ∀ d ∈ ['\''], isWritten d = true ∧ isBreak d = false :=
    List.forall_mem_singleton.2 ⟨rfl, rfl⟩
  have hopen := prints_mark s true false false hmark
  have hbegun : Begun indent (runs t) (s.mark ['\''] true) := by
    rw [mark_eq, Bool.and_false]
    exact fun hindented => by cases hindented
  have happly := exists_printsSingle hindent split hruns
    (apart_of_holdsPair hruns (htext.symm ▸ hbefore) (htext.symm ▸ hbehind))
    (by rw [htext]; exact fun c hc => Bool.eq_false_iff.2 (List.any_eq_false.1 hspecial c hc))
    (by rwa [htext]) true hbegun
  obtain ⟨cs, hcs⟩ := happly
  have hreads := hcs.reads
  rw [htext] at hreads
  have hclose := prints_mark (putSingleQuotedRuns indent split true (runs t) (s.mark ['\''] true))
    false false false hmark
  have hall := (hopen.trans hcs.prints).trans hclose
  rw [show lead _ false = [] from if_pos (by simp), List.append_assoc (s.lead true)] at hall
  exact ⟨cs, hall, hreads⟩

end Single

end Sheet

end SiteRules.Yaml
