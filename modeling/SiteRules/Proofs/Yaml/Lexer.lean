import SiteRules.Proofs.Yaml.Scanner
import SiteRules.Yaml.Token.Lexer

/-!
# What the lexer finds

The lexer stops at a fault of the text. A tag is found only in a text that holds an exclamation
mark, and a plain scalar does not end in a line end (`Token.scan_spec`).
-/

namespace SiteRules.Yaml

/-- What holds of a token that is found in a text. -/
def Token.FoundIn (text : List Char) : Token → Prop
  | .tag _ => '!' ∈ text
  | .scalar true content => ∀ d ∈ content.getLast?, d ≠ CodePoint.ofChar '\n'
  | _ => True

namespace Lexer

/-- The cursor is at a place in the text, and the tokens so far were found there. -/
structure Sound (text : List Char) (s : Lexer) : Prop where
  cursor : s.cursor.In text
  found : ∀ t ∈ s.found, t.FoundIn text

/-- A step of the lexer stops with a fault of the text or goes on in it. -/
abbrev Lexes (text : List Char) : Except Fault Lexer → Prop :=
  EndsIn (IsLexical text) (Sound text)

variable {text : List Char} {s : Lexer}

/-! ## The state -/

theorem Sound.push (h : s.Sound text) {t : Token} (ht : t.FoundIn text) :
    (s.push t).Sound text :=
  ⟨h.cursor, List.forall_mem_cons.2 ⟨ht, h.found⟩⟩

theorem Sound.insertAt (h : s.Sound text) (number : Nat) {t : Token} (ht : t.FoundIn text) :
    (s.insertAt number t).Sound text := by
  refine ⟨h.cursor, fun u hu => ?_⟩
  rcases List.mem_append.1 hu with hfront | hback
  · exact h.found u (List.mem_of_mem_take hfront)
  · rcases List.mem_cons.1 hback with rfl | hmem
    · exact ht
    · exact h.found u (List.mem_of_mem_drop hmem)

theorem Sound.take (h : s.Sound text) (width : Nat) {t : Token} (ht : t.FoundIn text) :
    (s.take width t).Sound text :=
  ⟨h.cursor.advance width, (h.push ht).found⟩

theorem Sound.unwindFrom (h : s.Sound text) (column : Int) (indents : List Int) :
    (Lexer.unwindFrom column indents s).Sound text := by
  induction indents generalizing s with
  | nil => exact h
  | cons outer rest ih =>
    rw [Lexer.unwindFrom]
    split
    · exact ih ⟨h.cursor, (h.push (t := .blockEnd) trivial).found⟩
    · exact h

theorem Sound.unwind (h : s.Sound text) (column : Int) : (s.unwind column).Sound text := by
  rw [Lexer.unwind]
  split
  · exact h
  · exact h.unwindFrom _ _

theorem Sound.skipToToken (h : s.Sound text) (fuel : Nat) :
    (Lexer.skipToToken fuel s).Sound text := by
  induction fuel generalizing s with
  | zero => exact h
  | succ fuel ih =>
    have hcursor := (h.cursor.skip (· = ' ')).skipComment
    rw [Lexer.skipToToken]
    split
    · exact ⟨hcursor, h.found⟩
    · next hbreak => exact ih ⟨hcursor.of_lineBreak? hbreak, h.found⟩

/-! ## Keys -/

theorem Sound.dropStale (h : s.Sound text) : Lexes text s.dropStale := by
  rw [Lexer.dropStale]
  exact .ite (fun _ => trivial) fun _ => ⟨h.cursor, h.found⟩

theorem Sound.dropCandidate (h : s.Sound text) : Lexes text s.dropCandidate := by
  rw [Lexer.dropCandidate]
  split
  · exact h
  · exact .ite (fun _ => trivial) fun _ => ⟨h.cursor, h.found⟩

theorem Sound.saveCandidate (h : s.Sound text) : Lexes text s.saveCandidate := by
  rw [Lexer.saveCandidate]
  exact .ite (fun _ => h.dropCandidate.bind fun _ hs => ⟨hs.cursor, hs.found⟩) fun _ => h

theorem Sound.openBlock (h : s.Sound text) {t : Token} (ht : t.FoundIn text) :
    Lexes text (s.openBlock t) := by
  rw [Lexer.openBlock]
  exact .ite (fun _ => h) fun _ => .ite (fun _ => trivial) fun _ =>
    .ite (fun _ => ⟨h.cursor, (h.push ht).found⟩) fun _ => h

/-! ## Tokens -/

theorem Sound.fetchEnd (h : s.Sound text) : Lexes text s.fetchEnd :=
  (h.unwind (-1)).dropCandidate.bind fun _ hs =>
    ⟨hs.cursor, (hs.push (t := .streamEnd) trivial).found⟩

theorem Sound.fetchDirective (h : s.Sound text) : Lexes text s.fetchDirective :=
  (h.unwind (-1)).dropCandidate.bind fun _ hs => (scans_directive hs.cursor).bind fun found hc =>
    ⟨hc, (hs.push (t := .directive found.1) trivial).found⟩

section Marks

variable {t : Token} (ht : t.FoundIn text)

include ht

theorem Sound.fetchDocumentMark (h : s.Sound text) : Lexes text (s.fetchDocumentMark t) :=
  (h.unwind (-1)).dropCandidate.bind fun _ hs => ⟨(hs.take 3 ht).cursor, (hs.take 3 ht).found⟩

theorem Sound.fetchFlowStart (h : s.Sound text) : Lexes text (s.fetchFlowStart t) :=
  h.saveCandidate.bind fun _ hs => ⟨(hs.take 1 ht).cursor, (hs.take 1 ht).found⟩

theorem Sound.fetchFlowEnd (h : s.Sound text) : Lexes text (s.fetchFlowEnd t) :=
  h.dropCandidate.bind fun _ hs => ⟨(hs.take 1 ht).cursor, (hs.take 1 ht).found⟩

end Marks

theorem Sound.fetchFlowEntry (h : s.Sound text) : Lexes text s.fetchFlowEntry :=
  h.dropCandidate.bind fun _ hs =>
    have htake := hs.take 1 (t := .flowEntry) trivial
    ⟨htake.cursor, htake.found⟩

theorem Sound.fetchBlockEntry (h : s.Sound text) : Lexes text s.fetchBlockEntry :=
  (h.openBlock (t := .blockSequenceStart) trivial).bind fun _ hs =>
    hs.dropCandidate.bind fun _ hs =>
    have htake := hs.take 1 (t := .blockEntry) trivial
    ⟨htake.cursor, htake.found⟩

theorem Sound.fetchKey (h : s.Sound text) : Lexes text s.fetchKey :=
  (h.openBlock (t := .blockMappingStart) trivial).bind fun _ hs =>
    hs.dropCandidate.bind fun _ hs =>
    have htake := hs.take 1 (t := .key) trivial
    ⟨htake.cursor, htake.found⟩

theorem Sound.fetchValue (h : s.Sound text) : Lexes text s.fetchValue := by
  rw [Lexer.fetchValue]
  split
  · next k _ =>
    dsimp only
    have hopen : Sound text { s with
        candidates := s.candidates.filter fun entry => entry.1 ≠ s.flowLevel } :=
      ⟨h.cursor, h.found⟩
    have hkey := hopen.insertAt k.number (t := .key) trivial
    have hblock : ∀ s : Lexer, s.Sound text → Sound text
        (if !s.inFlow && s.isDeeper k.column then
          (s.indentTo k.column).insertAt k.number .blockMappingStart
        else s) := by
      intro s hs
      have hindent : Sound text (s.indentTo k.column) := ⟨hs.cursor, hs.found⟩
      split
      · exact hindent.insertAt k.number (t := .blockMappingStart) trivial
      · exact hs
    have htake := (hblock _ hkey).take 1 (t := .value) trivial
    exact ⟨htake.cursor, htake.found⟩
  · exact (h.openBlock (t := .blockMappingStart) trivial).bind fun _ hs =>
      hs.dropCandidate.bind fun _ hs =>
        have htake := hs.take 1 (t := .value) trivial
        ⟨htake.cursor, htake.found⟩

/-- A token that a scanner reads is found where the scanner leaves off. -/
theorem Sound.fetchNode (h : s.Sound text) {scan : Cursor → Except Fault (Token × Cursor)}
    (hscan : ∀ c : Cursor, c.In text →
      EndsIn (IsLexical text) (fun found => found.1.FoundIn text ∧ found.2.In text) (scan c)) :
    Lexes text (s.fetchNode scan) :=
  h.saveCandidate.bind fun _ hs => (hscan _ hs.cursor).bind fun _ hfound =>
    ⟨hfound.2, (hs.push hfound.1).found⟩

theorem Sound.fetchBlockScalar (h : s.Sound text) (fold : Bool) :
    Lexes text (s.fetchBlockScalar fold) :=
  h.dropCandidate.bind fun _ hs => (scans_block fold _ hs.cursor).bind fun found hc =>
    ⟨hc, (hs.push (t := .scalar false found.1) trivial).found⟩

theorem Sound.fetchPlain (h : s.Sound text) : Lexes text s.fetchPlain := by
  refine h.saveCandidate.bind fun s hs => ?_
  have hplain := plain_spec s.inFlow (s.indent + 1) hs.cursor
  cases hscan : scanPlain s.inFlow (s.indent + 1) s.cursor with
  | mk content behind =>
    rw [hscan] at hplain
    exact ⟨hplain.1, (hs.push (t := .scalar true content) hplain.2).found⟩

theorem Sound.fetchAt (h : s.Sound text) {d : Char} (hd : s.cursor.peek 0 = some d) :
    Lexes text (s.fetchAt d) := by
  have hname : ∀ (t : List Char → Token) (c : Cursor), (∀ name, (t name).FoundIn text) →
      c.In text → EndsIn (IsLexical text) (fun found => found.1.FoundIn text ∧ found.2.In text)
        ((scanAnchor c).map fun found => (t found.1, found.2)) :=
    fun t c ht hc => (scans_anchor hc).map fun found hd => ⟨ht found.1, hd⟩
  have hquoted : ∀ (double : Bool) (c : Cursor), c.In text →
      EndsIn (IsLexical text) (fun found => found.1.FoundIn text ∧ found.2.In text)
        ((scanQuoted double c).map fun found => (Token.scalar false found.1, found.2)) :=
    fun double c hc => (scans_quoted double hc).map fun _ hd => ⟨trivial, hd⟩
  rw [Lexer.fetchAt]
  refine .ite (fun _ => h.fetchDirective) fun _ =>
    .ite (fun _ => h.fetchDocumentMark (t := .documentStart) trivial) fun _ =>
    .ite (fun _ => h.fetchDocumentMark (t := .documentEnd) trivial) fun _ =>
    .ite (fun _ => h.fetchFlowStart (t := .flowSequenceStart) trivial) fun _ =>
    .ite (fun _ => h.fetchFlowStart (t := .flowMappingStart) trivial) fun _ =>
    .ite (fun _ => h.fetchFlowEnd (t := .flowSequenceEnd) trivial) fun _ =>
    .ite (fun _ => h.fetchFlowEnd (t := .flowMappingEnd) trivial) fun _ =>
    .ite (fun _ => h.fetchFlowEntry) fun _ => .ite (fun _ => h.fetchBlockEntry) fun _ =>
    .ite (fun _ => h.fetchKey) fun _ => .ite (fun _ => h.fetchValue) fun _ =>
    .ite (fun _ => h.fetchNode fun c => hname .alias c fun _ => trivial) fun _ =>
    .ite (fun _ => h.fetchNode fun c => hname .anchor c fun _ => trivial) fun _ =>
    .ite (fun hmark => h.fetchNode fun c hc => ?_) fun _ =>
    .ite (fun _ => h.fetchBlockScalar false) fun _ =>
    .ite (fun _ => h.fetchBlockScalar true) fun _ =>
    .ite (fun _ => h.fetchNode (hquoted false)) fun _ =>
    .ite (fun _ => h.fetchNode (hquoted true)) fun _ =>
    .ite (fun _ => h.fetchPlain) fun _ => trivial
  -- a tag begins with an exclamation mark
  have hmem : '!' ∈ text := hmark ▸ h.cursor.peek_mem hd
  exact (scans_tag hc).map fun found hd => ⟨hmem, hd⟩

theorem Sound.fetch (h : s.Sound text) : Lexes text s.fetch := by
  rw [Lexer.fetch]
  refine (h.skipToToken _).dropStale.bind fun s hs => ?_
  dsimp only
  split
  · exact (hs.unwind _).fetchEnd
  · next hd => exact (hs.unwind _).fetchAt hd

theorem Sound.run (h : s.Sound text) (fuel : Nat) :
    (∀ t ∈ (Lexer.run fuel s).1, t.FoundIn text) ∧
      ∀ fault ∈ (Lexer.run fuel s).2, IsLexical text fault := by
  induction fuel generalizing s with
  | zero => exact ⟨fun t ht => h.found t (List.mem_reverse.1 ht), by rintro _ ⟨rfl⟩; exact trivial⟩
  | succ fuel ih =>
    have hfetch := h.fetch
    rw [Lexer.run]
    split
    · exact ⟨fun t ht => h.found t (List.mem_reverse.1 ht), fun _ hfault => by cases hfault⟩
    · split
      · next hfault =>
        refine ⟨fun t ht => h.found t (List.mem_reverse.1 (List.mem_of_mem_take ht)), ?_⟩
        rintro _ ⟨rfl⟩
        exact hfetch.of_error hfault
      · next hs => exact ih (hfetch.of_ok hs)

end Lexer

/-- The tokens of a text were found in it, and the fault that they end in is one of the text. -/
theorem Token.scan_spec (text : List Char) :
    (∀ t ∈ (Token.scan text).1, t.FoundIn text) ∧
      ∀ fault ∈ (Token.scan text).2, IsLexical text fault := by
  have hstart : (Lexer.start text).Sound text := ⟨List.suffix_refl _, List.forall_mem_nil _⟩
  have hmarked : Lexer.Sound text
      { Lexer.start text with cursor := (Lexer.start text).cursor.step } :=
    ⟨hstart.cursor.step, hstart.found⟩
  unfold Token.scan
  split
  · exact hmarked.run _
  · exact hstart.run _

end SiteRules.Yaml
