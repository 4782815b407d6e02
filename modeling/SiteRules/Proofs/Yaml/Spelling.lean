import SiteRules.Proofs.Yaml.Fetch
import SiteRules.Proofs.Yaml.PlainScalar
import SiteRules.Proofs.Yaml.Property
import SiteRules.Proofs.Yaml.Quoted

/-!
# Tokens on a line

The tokens that may begin a key: names, tags, and scalars that are plain or between quotes. Each is
found where its characters stand (`Lexer.Spelled`), whether a key begins with it or not.
-/

namespace SiteRules.Yaml

/-- What stands behind a node: a colon, or a line that is not indented further than the block that
the node is in. -/
inductive Ends (block : Int) : List Char → Prop
  | colon {rest : List Char} (h : endsToken rest.head? = true) : Ends block (':' :: rest)
  | line {k : Nat} {rest : List Char} (hk : (k : Int) ≤ block) (h : Opens rest) :
      Ends block ('\n' :: (List.replicate k ' ' ++ rest))

/-- Characters that begin with a blank or a line end, as they stand behind a name or a tag. -/
def StartsGap (cs : List Char) : Prop :=
  cs.head? = some ' ' ∨ cs.head? = some '\n'

theorem Ends.endsScalar {block : Int} {tail : List Char} (h : Ends block tail) :
    EndsScalar (block + 1) tail := by
  cases h with
  | colon h => exact .colon h
  | line hk h => exact .line (by omega) fun d hd => ⟨(h d hd).1, (h d hd).2.1⟩

/-- Blanks in front of something else, cut in two. -/
theorem replicate_append_cut {j k : Nat} {rest more : List Char} (h : Opens more)
    (heq : List.replicate j ' ' ++ rest = List.replicate k ' ' ++ more) :
    ∃ i, k = j + i ∧ rest = List.replicate i ' ' ++ more := by
  induction j generalizing k with
  | zero => exact ⟨k, (Nat.zero_add k).symm, heq⟩
  | succ j ih =>
    cases k with
    | zero =>
      have hblank := (h ' ' (by rw [← show _ = more from heq]; rfl)).1
      cases hblank
    | succ k =>
      obtain ⟨i, hi, hrest⟩ := ih (List.cons.inj heq).2
      exact ⟨i, by omega, hrest⟩

namespace Lexer

variable {behind : Int → List Char → Prop} {t : Token} {cs tail : List Char} {l l' : Lexer}

/-- The lexer finds a token that may begin a key where its characters stand. -/
structure Spelled (behind : Int → List Char → Prop) (t : Token) (cs : List Char) : Prop where
  ne_nil : cs ≠ []
  opens : ∀ tail, Opens (cs ++ tail)
  leads : ∀ (l saved : Lexer) (tail : List Char), l.cursor.rest = cs ++ tail → l.flowLevel = 0 →
    l.done = false → behind l.indent tail → l.dropStale = .ok l → l.indent ≤ l.cursor.column →
    l.saveCandidate = .ok saved → Leads l
      { saved.push t with cursor := l.cursor.advance cs.length, keyAllowed := false }

/-- Remembering where a key may begin changes nothing else. -/
theorem saveCandidate_frame {saved : Lexer} (h : l.saveCandidate = .ok saved) :
    saved = { l with candidates := saved.candidates } := by
  have hdrop : ∀ dropped, l.dropCandidate = .ok dropped →
      dropped = { l with candidates := dropped.candidates } := by
    intro dropped hdropped
    rw [dropCandidate] at hdropped
    split at hdropped
    · cases hdropped
      rfl
    · split at hdropped
      · cases hdropped
      · cases hdropped
        rfl
  rw [saveCandidate] at h
  split at h
  · cases hdropped : l.dropCandidate with
    | error e =>
      rw [hdropped] at h
      cases h
    | ok dropped =>
      rw [hdropped] at h
      have hframe := hdrop dropped hdropped
      cases h
      rw [hframe]
  · cases h
    rfl

/-- A token that a scanner reads. -/
theorem Spelled.of_scan {d : Char} {rest : List Char}
    (scan : Cursor → Except Fault (Token × Cursor)) (hopens : Opens [d])
    (hfetch : ∀ l : Lexer, l.flowLevel = 0 → l.fetchAt d = l.fetchNode scan)
    (hscan : ∀ (c : Cursor) (block : Int) (tail : List Char), c.rest = d :: rest ++ tail →
      behind block tail → scan c = .ok (t, c.advance (rest.length + 1))) :
    Spelled behind t (d :: rest) where
  ne_nil := List.cons_ne_nil _ _
  opens := fun _ e he => hopens e he
  leads := by
    intro l saved tail hrest hlevel hdone hbehind hstale hindent hsave
    have hframe := saveCandidate_frame hsave
    have hcursor : saved.cursor = l.cursor := by
      rw [hframe]
    have hfetch : l.fetch = .ok
        { saved.push t with
          cursor := l.cursor.advance (rest.length + 1), keyAllowed := false } := by
      rw [fetch_here hrest (fun e he => hopens e he) hstale hindent, hfetch l hlevel, fetchNode,
        hsave]
      show (scan saved.cursor).bind _ = _
      rw [hcursor, hscan l.cursor l.indent tail hrest hbehind]
      rfl
    refine Leads.of_fetch hdone hfetch (.inl rfl) ?_
    show (l.cursor.advance (rest.length + 1)).rest.length < _
    rw [Cursor.advance_rest, hrest, List.length_drop, List.length_append, List.length_cons]
    omega

/-! ## Names and tags -/

theorem endsToken_of_startsGap (h : StartsGap tail) :
    endsToken tail.head? = true ∧ endsWord tail.head? = true := by
  rcases h with h | h <;> rw [h] <;> decide

theorem spelled_anchor (n : Nat) :
    Spelled (fun _ => StartsGap) (.anchor (nameText n)) ('&' :: nameText n) :=
  .of_scan (fun c => (scanAnchor c).map fun found => (.anchor found.1, found.2))
    (by rintro _ ⟨rfl⟩; decide)
    (fun l _ => by simp [fetchAt])
    (fun c block tail hrest hbehind => by
      rw [scanAnchor_nameText (by decide) hrest (.inl (endsToken_of_startsGap hbehind).1)]
      rfl)

theorem spelled_alias (n : Nat) : Spelled Ends (.alias (nameText n)) ('*' :: nameText n) :=
  .of_scan (fun c => (scanAnchor c).map fun found => (.alias found.1, found.2))
    (by rintro _ ⟨rfl⟩; decide)
    (fun l _ => by simp [fetchAt])
    (fun c block tail hrest hbehind => by
      have hends : endsToken tail.head? = true ∨ tail.head? = some ':' := by
        cases hbehind with
        | colon => exact .inr rfl
        | line => exact .inl rfl
      rw [scanAnchor_nameText (by decide) hrest hends]
      rfl)

theorem spelled_tag {name : List Char} (hne : name ≠ []) (hname : ∀ d ∈ name, isNamePart d = true) :
    Spelled (fun _ => StartsGap) (.tag ⟨some (Text.ofChars ['!', '!']), Text.ofChars name⟩)
      ('!' :: '!' :: name) :=
  .of_scan (fun c => (scanTag c).map fun found => (.tag found.1, found.2))
    (by rintro _ ⟨rfl⟩; decide)
    (fun l _ => by simp [fetchAt])
    (fun c block tail hrest hbehind => by
      rw [scanTag_short hne hname hrest (endsToken_of_startsGap hbehind).2]
      rfl)

/-! ## Scalars -/

theorem spelled_quoted {double : Bool} {u : Text} (hreads : QuotedReads double cs u) :
    Spelled Ends (.scalar false u) (quoteMark double :: (cs ++ [quoteMark double])) := by
  have hmark : isWritten (quoteMark double) = true := by
    cases double <;> decide
  refine .of_scan (fun c => (scanQuoted double c).map fun found =>
      (Token.scalar false found.1, found.2)) ?_ (fun l _ => ?_) ?_
  · rintro _ ⟨rfl⟩
    cases double <;> decide
  · cases double <;> simp [fetchAt, quoteMark]
  · intro c block tail hrest hbehind
    have hstep : c.step.rest = cs ++ quoteMark double :: tail := by
      rw [Cursor.step_eq hrest hmark]
      simp
    have hsingle : double = false → tail.head? ≠ some '\'' := by
      rintro -
      cases hbehind with
      | colon => simp
      | line => simp
    have hfuel : c.step.rest.length < c.rest.length + 1 := by
      rw [hstep, hrest]
      simp only [List.length_append, List.length_cons, List.length_nil]
      omega
    rw [scanQuoted, hreads c.step tail _ hstep hsingle hfuel]
    rw [List.length_append, List.length_singleton]
    rfl

/-! ## Plain scalars -/

section Plain

variable {word u : Text} {block : Int}

/-- What stands behind the first word of a plain scalar is no part of it. -/
theorem exists_word_append (h : Sheet.BeginsWith word u cs) (hends : Ends block tail) :
    ∃ more, cs ++ tail = word.map CodePoint.toChar ++ more ∧
      ∀ e ∈ more.head?, e ≠ '-' ∧ e ≠ '.' := by
  obtain ⟨more, rfl, hmore⟩ := h.written
  refine ⟨more ++ tail, List.append_assoc _ _ _, ?_⟩
  cases more with
  | nil =>
    cases hends with
    | colon | line =>
      rintro _ ⟨rfl⟩
      decide
  | cons e more =>
    rintro _ ⟨rfl⟩
    have he := hmore e rfl
    constructor <;>
    · rintro rfl
      revert he
      decide

/-- Three marks in a row at the beginning of a plain scalar would be in its text. -/
theorem isPrefixOf_of_marks (h : Sheet.BeginsWith word u cs) (hends : Ends block tail) {d : Char}
    (hd : d = '-' ∨ d = '.') {rest : List Char} (hthree : cs ++ tail = d :: d :: d :: rest) :
    (Text.ofChars [d, d, d]).isPrefixOf u = true := by
  obtain ⟨more, hmore, hhead⟩ := exists_word_append h hends
  have hnot : ∀ e rest, more = e :: rest → d ≠ e := by
    rintro e rest rfl rfl
    have he := hhead d rfl
    rcases hd with rfl | rfl
    · exact he.1 rfl
    · exact he.2 rfl
  obtain ⟨behind, rfl, -⟩ := h.text
  have hchars := h.chars
  rw [hthree] at hmore
  match word, hchars, hmore with
  | [], _, hmore => exact absurd rfl (hnot d _ hmore.symm)
  | [a], _, hmore => exact absurd rfl (hnot d _ (List.cons.inj hmore).2.symm)
  | [a, b], _, hmore =>
    exact absurd rfl (hnot d _ (List.cons.inj (List.cons.inj hmore).2).2.symm)
  | a :: b :: c :: word, hchars, hmore =>
    obtain ⟨ha, hmore⟩ := List.cons.inj hmore
    obtain ⟨hb, hmore⟩ := List.cons.inj hmore
    obtain ⟨hc, -⟩ := List.cons.inj hmore
    have hchar : ∀ p ∈ [a, b, c], p = CodePoint.ofChar p.toChar := fun p hp =>
      hchars p (List.mem_of_mem_take (i := 3) hp)
    have hsame : Text.ofChars [d, d, d] = [a, b, c] := by
      rw [hchar a (by simp), hchar b (by simp), hchar c (by simp), ← ha, ← hb, ← hc]
      rfl
    rw [hsame]
    exact List.isPrefixOf_iff_prefix.2 ⟨word ++ behind, rfl⟩

/-- A character in front of another one or of the end begins a plain scalar. -/
structure BeginsPlain (d : Char) (next : Option Char) : Prop where
  noSpace : isSpace d = false
  noBreak : isBreak d = false
  unmarked : ∀ e ∈ "#,[]\x7b\x7d&*!|>'\"%@\x60".toList, d ≠ e
  -- a mark of an item or an entry that begins a scalar is no word by itself
  joined : d ∈ "?:-".toList → endsToken next = false

/-- What is written without quotes begins as a plain scalar does. -/
theorem beginsPlain_of_allowsPlain (h : Sheet.BeginsWith word u cs)
    (hplain : Style.allowsPlain u = true) (tail : List Char) :
    ∃ d rest, cs = d :: rest ∧ BeginsPlain d (rest ++ tail).head? := by
  simp only [Style.allowsPlain, Bool.not_eq_true', Bool.or_eq_false_iff] at hplain
  have hmarks := hplain.2
  obtain ⟨behind, hu, hbehind⟩ := h.text
  obtain ⟨more, hcs, -⟩ := h.written
  obtain ⟨c, word', rfl⟩ : ∃ c word', word = c :: word' := by
    cases word with
    | nil => exact absurd rfl h.isWord.ne_nil
    | cons c word' => exact ⟨c, word', rfl⟩
  have hc := h.chars c List.mem_cons_self
  obtain ⟨-, hspace, hbreak⟩ := h.isWord.inline c.toChar List.mem_cons_self
  rw [hu, List.cons_append, Style.hasMarks] at hmarks
  simp only [Bool.or_eq_false_iff] at hmarks
  obtain ⟨⟨-, hopens⟩, -⟩ := hmarks
  rw [Style.opensMarked, Bool.or_eq_false_iff] at hopens
  obtain ⟨hmark, hgap⟩ := hopens
  refine ⟨c.toChar, word'.map CodePoint.toChar ++ more, hcs, hspace, hbreak, ?_, fun hmem => ?_⟩
  · intro e he heq
    exact List.any_eq_false.1 hmark e he (decide_eq_true (heq ▸ hc))
  · have hone : Style.isOneOf "?:-" c = true :=
      List.any_eq_true.2 ⟨c.toChar, hmem, decide_eq_true hc⟩
    rw [hone, Bool.true_and] at hgap
    cases word' with
    | nil =>
      cases behind with
      | nil => cases hgap
      | cons b behind =>
        rw [show b = CodePoint.ofChar ' ' from hbehind b rfl] at hgap
        cases hgap
    | cons b word' =>
      obtain ⟨-, hbspace, hbbreak⟩ := h.isWord.inline b.toChar (by simp)
      show (isSpace b.toChar || isBreak b.toChar) = false
      rw [hbspace, hbbreak]
      rfl

/-- No line that begins with a plain scalar is a mark of documents. -/
theorem atDocumentMark_of_allowsPlain (h : Sheet.BeginsWith word u cs)
    (hplain : Style.allowsPlain u = true) (hends : Ends block tail) {c : Cursor}
    (hrest : c.rest = cs ++ tail) : c.atDocumentMark = false := by
  simp only [Style.allowsPlain, Bool.not_eq_true', Bool.or_eq_false_iff] at hplain
  have hmarks := hplain.2
  have hthree : ∀ e, e = '-' ∨ e = '.' → ∀ rest, c.rest ≠ e :: e :: e :: rest := by
    intro e he rest heq
    have hprefix := isPrefixOf_of_marks h hends he (hrest ▸ heq)
    cases hu : u with
    | nil =>
      rw [hu] at hprefix
      cases hprefix
    | cons b behind =>
      rw [hu, Style.hasMarks] at hmarks
      simp only [Bool.or_eq_false_iff] at hmarks
      rw [hu] at hprefix
      rcases he with rfl | rfl
      · exact absurd hprefix (Bool.eq_false_iff.1 hmarks.1.1.1)
      · exact absurd hprefix (Bool.eq_false_iff.1 hmarks.1.1.2)
  rw [Cursor.atDocumentMark]
  split
  · next heq => exact absurd heq (hthree '-' (.inl rfl) _)
  · next heq => exact absurd heq (hthree '.' (.inr rfl) _)
  · rfl

/-- A character that begins a plain scalar is read as the beginning of one. -/
theorem BeginsPlain.fetchAt_eq {d : Char} (h : BeginsPlain d (l.cursor.peek 1))
    (hdocument : l.cursor.atDocumentMark = false) (hlevel : l.flowLevel = 0) :
    l.fetchAt d = l.fetchPlain := by
  have hflow : l.inFlow = false := by
    rw [inFlow, hlevel]
    rfl
  by_cases hmem : d ∈ "?:-".toList
  · have hends := h.joined hmem
    simp only [String.reduceToList, List.mem_cons, List.not_mem_nil, or_false] at hmem
    rcases hmem with rfl | rfl | rfl <;>
      simp [fetchAt, hdocument, hends, hflow, beginsPlain]
  · have hmarks : marks.contains d = false := by
      have hsplit : (marks.all fun e => "?:-".toList.contains e ||
          "#,[]\x7b\x7d&*!|>'\"%@\x60".toList.contains e) = true := by decide
      refine Bool.eq_false_iff.2 fun hcontains => ?_
      have hparts := List.all_eq_true.1 hsplit d (List.contains_iff_mem.1 hcontains)
      rcases (Bool.or_eq_true _ _).mp hparts with hitem | hother
      · exact hmem (List.contains_iff_mem.1 hitem)
      · exact h.unmarked d (List.contains_iff_mem.1 hother) rfl
    have hbegins : l.beginsPlain d (l.cursor.peek 1) = true := by
      rw [beginsPlain, h.noSpace, h.noBreak, hmarks]
      rfl
    have hne := h.unmarked
    simp only [String.reduceToList, List.forall_mem_cons, List.not_mem_nil, false_imp_iff,
      implies_true, and_true] at hne
    simp only [String.reduceToList, List.mem_cons, List.not_mem_nil, or_false, not_or] at hmem
    simp only [fetchAt, hdocument, hne, hmem, hbegins, decide_false, Bool.false_and,
      Bool.and_false, if_false, Bool.false_eq_true, if_true]

/-- A plain scalar is read as one. -/
theorem fetchAt_plain (h : Sheet.BeginsWith word u cs) (hplain : Style.allowsPlain u = true)
    (hends : Ends block tail) (hrest : l.cursor.rest = cs ++ tail) (hlevel : l.flowLevel = 0) :
    ∃ d rest, cs = d :: rest ∧ Opens [d] ∧ l.fetchAt d = l.fetchPlain := by
  obtain ⟨d, rest, rfl, hbegins⟩ := beginsPlain_of_allowsPlain h hplain tail
  have hnext : l.cursor.peek 1 = (rest ++ tail).head? := Cursor.peek_one hrest
  refine ⟨d, rest, rfl, ?_, ?_⟩
  · rintro _ ⟨rfl⟩
    exact ⟨hbegins.noSpace, hbegins.noBreak, hbegins.unmarked '#' (by decide)⟩
  · exact (hnext ▸ hbegins).fetchAt_eq (atDocumentMark_of_allowsPlain h hplain hends hrest) hlevel

/-- The lexer goes on behind a plain scalar as it does behind other scalars, though it has passed
over the line end there already. -/
theorem fetch_passed {ended : Bool} {passed : List Char} (hends : Ends block tail)
    (hpassed : Passed tail ended passed) (hrest : l.cursor.rest = tail) (hlevel : l.flowLevel = 0) :
    fetch { l with cursor := l.cursor.advance passed.length, keyAllowed := ended } =
      fetch { l with keyAllowed := false } := by
  cases hpassed with
  | nothing => rfl
  | @line k j rest hj =>
    generalize heq : '\n' :: (List.replicate k ' ' ++ rest) = line at hends hrest
    cases hends with
    | colon => cases heq
    | @line k' rest' hk hopens =>
      have hcut : List.replicate j ' ' ++ (List.replicate (k - j) ' ' ++ rest) =
          List.replicate k' ' ' ++ rest' := by
        rw [← List.append_assoc, List.replicate_append_replicate, Nat.add_sub_cancel' hj]
        exact (List.cons.inj heq).2
      obtain ⟨i, rfl, hi⟩ := replicate_append_cut hopens hcut
      have hbehind : (l.cursor.advance ('\n' :: List.replicate j ' ').length).rest =
          List.replicate i ' ' ++ rest' :=
        Cursor.rest_advance (by
          rw [hrest, ← List.replicate_append_replicate, List.append_assoc]
          rfl)
      have hskip := skipToToken_blanks (k := i)
        (l := { l with cursor := l.cursor.advance ('\n' :: List.replicate j ' ').length,
                       keyAllowed := true }) hbehind hopens
      have hskip' := skipToToken_line (l := { l with keyAllowed := false }) hrest hopens hlevel
      have hlength : l.cursor.rest.length + 1 = (j + i + rest'.length) + 2 := by
        rw [hrest]
        simp
      rw [fetch, fetch, hskip]
      show _ =
        ((skipToToken (l.cursor.rest.length + 1) { l with keyAllowed := false }).dropStale).bind _
      rw [hlength, hskip']
      have hplace : (l.cursor.advance ('\n' :: List.replicate j ' ').length).advance i =
          l.cursor.advance (j + i + 1) := by
        rw [← Cursor.advance_add, List.length_cons, List.length_replicate]
        congr 1
        omega
      dsimp only
      rw [hplace]
      rfl

theorem spelled_plain {most : Int} (h : Sheet.BeginsWith word u cs)
    (hplain : Style.allowsPlain u = true)
    (hreads : ∀ block ≤ most, PlainReads (block + 1) cs u) :
    Spelled (fun block tail => block ≤ most ∧ Ends block tail) (.scalar true u) cs where
  ne_nil := by
    obtain ⟨more, rfl, -⟩ := h.written
    exact List.append_ne_nil_of_left_ne_nil h.isWord.ne_nil _
  opens := by
    intro tail
    obtain ⟨d, rest, hcs, hopens, -⟩ := fetchAt_plain (l := start (cs ++ [':'])) h hplain
      (show Ends 0 [':'] from .colon rfl) rfl rfl
    rw [hcs]
    exact fun e he => hopens e he
  leads := by
    intro l saved tail hrest hlevel hdone hbehind hstale hindent hsave
    obtain ⟨hmost, hends⟩ := hbehind
    obtain ⟨d, rest, hcs, hopens, hplainAt⟩ := fetchAt_plain h hplain hends hrest hlevel
    have hframe := saveCandidate_frame hsave
    have hcursor : saved.cursor = l.cursor := by
      rw [hframe]
    have hblock : saved.indent = l.indent := by
      rw [hframe]
    have hflow : saved.inFlow = false := by
      rw [hframe, inFlow, hlevel]
      rfl
    have hcolumn : l.indent + 1 ≤ (l.cursor.column : Int) + 1 := by omega
    -- The scanner may pass the line end behind the text and the indentation of what is next.
    obtain ⟨ended, passed, hpassed, hscan⟩ := hreads l.indent hmost l.cursor tail
      (l.cursor.rest.length + 1) hrest hends.endsScalar hcolumn (Nat.lt_succ_self _)
    have hbehind : (l.cursor.advance cs.length).rest = tail := Cursor.rest_advance hrest
    have hfetch : l.fetch = .ok { saved.push (.scalar true u) with
        cursor := (l.cursor.advance cs.length).advance passed.length, keyAllowed := ended } := by
      have hplace : l.cursor.rest = d :: (rest ++ tail) := by
        rw [hrest, hcs]
        rfl
      have hscan' : scanPlain false (l.indent + 1) l.cursor =
          (u, ended, (l.cursor.advance cs.length).advance passed.length) := by
        rw [← Cursor.advance_add, ← List.length_append]
        exact hscan
      rw [fetch_here hplace (fun e he => hopens e he) hstale hindent, hplainAt, fetchPlain, hsave]
      simp only [bind, Except.bind, hflow, hcursor, hblock, hscan', pure, Except.pure]
    -- What has been passed is passed by the next fetch too, from the end of the text.
    refine Leads.of_fetch hdone hfetch (.inr ⟨?_, ?_, ?_⟩) ?_
    · show saved.done = false
      rw [hframe]
      exact hdone
    · show saved.done = false
      rw [hframe]
      exact hdone
    · exact fetch_passed (l := { saved.push (.scalar true u) with
        cursor := l.cursor.advance cs.length }) hends hpassed hbehind (by rw [hframe]; exact hlevel)
    · show (l.cursor.advance cs.length).rest.length < _
      rw [hbehind, hrest, hcs, List.length_append, List.length_cons]
      omega

end Plain

/-! ## Tokens of nodes -/

theorem Spelled.mono {behind' : Int → List Char → Prop} (h : Spelled behind t cs)
    (himp : ∀ block tail, behind' block tail → behind block tail) : Spelled behind' t cs where
  ne_nil := h.ne_nil
  opens := h.opens
  leads := fun l saved tail hrest hlevel hdone hbehind =>
    h.leads l saved tail hrest hlevel hdone (himp _ _ hbehind)

theorem dropStale_dropStale {kept : Lexer} (h : l.dropStale = .ok kept) :
    kept = { l with candidates := kept.candidates } ∧ kept.dropStale = .ok kept ∧
      kept.candidates = l.candidates.filter fun e => !l.isStale e.2 := by
  rw [dropStale] at h
  split at h
  · cases h
  · cases h
    refine ⟨rfl, ?_, rfl⟩
    have hfilter : ∀ e ∈ l.candidates.filter fun e => !l.isStale e.2, l.isStale e.2 = false := by
      intro e he
      simpa using (List.mem_filter.1 he).2
    have hsame : ∀ candidates k, isStale { l with candidates } k = l.isStale k := fun _ _ => rfl
    rw [dropStale, if_neg]
    · congr 2
      simp only [hsame]
      exact List.filter_eq_self.2 fun e he => (List.mem_filter.1 he).2
    · rw [List.any_eq_true]
      rintro ⟨e, he, hboth⟩
      rw [hsame, hfilter e he, Bool.false_and] at hboth
      cases hboth

/-- Blanks in front of a token are passed over. -/
theorem leads_blanks {k : Nat} {kept : Lexer} {rest : List Char}
    (hrest : l.cursor.rest = List.replicate k ' ' ++ rest) (hne : rest ≠ []) (hopens : Opens rest)
    (hdone : l.done = false)
    (hstale : dropStale { l with cursor := l.cursor.advance k } = .ok kept)
    (hindent : l.indent ≤ (l.cursor.advance k).column) : Leads l kept := by
  obtain ⟨hframe, hsame, -⟩ := dropStale_dropStale hstale
  obtain ⟨d, more, rfl⟩ := List.exists_cons_of_ne_nil hne
  have hplace : kept.cursor.rest = d :: more := by
    rw [hframe]
    exact congrArg Cursor.rest (Cursor.advance_blanks hrest)
  have hcolumn : kept.indent ≤ kept.cursor.column := by
    rw [hframe]
    exact hindent
  refine Leads.of_fetch_eq hdone (by rw [hframe]; exact hdone) ?_ ?_
  · rw [fetch_here hplace hopens hsame hcolumn, fetch, skipToToken_blanks hrest hopens, hstale]
    dsimp only [bind, Except.bind]
    rw [unwind_of_le hcolumn, Cursor.peek_zero hplace]
  · rw [hplace, hrest, List.length_append]
    omega

end Lexer

end SiteRules.Yaml
