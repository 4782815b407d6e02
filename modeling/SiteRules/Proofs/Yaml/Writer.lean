import SiteRules.Proofs.Yaml.Block

/-!
# Tokens of what is written

The tokens that a draft is written as (`Draft.tokens`), and that they are found in its text
(`Draft.scan_put`). The text of a draft can be read back if its keys are narrow enough to be found
and if its scalars are not changed by the lines that they are broken into (`Draft.Readable`).
-/

namespace SiteRules.Yaml

namespace Draft

/-- The places at which a node can stand. -/
inductive Place where
  /-- An item of a sequence, or the whole. -/
  | item
  /-- A key in front of a colon. -/
  | key
  /-- A part of an entry behind a mark of its own. -/
  | marked
  /-- A value behind the key on its line. -/
  | value

namespace Place

/-- Whether a node is a part of an entry. -/
def underKey : Place → Bool
  | item => false
  | _ => true

/-- Whether a node stands in front of a colon. -/
def asKey : Place → Bool
  | key => true
  | _ => false

/-- Whether nothing but marks stands in front of a node on its line. -/
def opensLine : Place → Bool
  | value => false
  | _ => true

/-- Whether the items of a node are not indented further than the block that it is in. -/
def isBare (place : Place) (name : Option Nat) : Bool :=
  place.underKey && (name.isSome || !place.opensLine)

end Place

/-- The place of a key. -/
def keyPlace (key : Draft) : Place :=
  if key.isSimpleKey then .key else .marked

/-- The place of the value under a key. -/
def valuePlace (key : Draft) : Place :=
  if key.isSimpleKey then .value else .marked

mutual

/-- The tokens that a node is written as. -/
def tokens (place : Place) : Draft → List Token
  | .alias n => [.alias (nameText n)]
  | .scalar name tag content asLines =>
    nameTokens name ++ scalarTokens place.asKey tag content asLines
  | .sequence name [] => nameTokens name ++ [.flowSequenceStart, .flowSequenceEnd]
  | .sequence name items =>
    nameTokens name ++
      if place.isBare name then itemTokens items
      else .blockSequenceStart :: itemTokens items ++ [.blockEnd]
  | .mapping name isSet entries =>
    nameTokens name ++ (if isSet then [tagToken .set] else []) ++
      match entries with
      | [] => [.flowMappingStart, .flowMappingEnd]
      | entries => .blockMappingStart :: entryTokens entries ++ [.blockEnd]

/-- The tokens that the items of a sequence are written as. -/
def itemTokens : List Draft → List Token
  | [] => []
  | item :: rest => (.blockEntry :: tokens .item item) ++ itemTokens rest

/-- The tokens that the entries of a mapping are written as. -/
def entryTokens : List (Draft × Draft) → List Token
  | [] => []
  | (key, value) :: rest =>
    (.key :: tokens key.keyPlace key ++ .value :: tokens key.valuePlace value) ++ entryTokens rest

end

/-! ## Drafts that can be read back -/

/-- A scalar is not changed by the lines that it is broken into. A line end that is numbered 85 in
hexadecimal would be read as a line feed from between single quotes, and a backslash would be read
from between double quotes where the indentation is past the width of a line and a blank follows an
escape. -/
structure Clear (column : Nat) (asKey : Bool) (tag : Tag) (content : Text) (asLines : Bool) :
    Prop where
  singleQuoted : Style.choose tag content asLines asKey = .singleQuoted →
    CodePoint.ofChar '\x85' ∉ content
  doubleQuoted : Style.choose tag content asLines asKey = .doubleQuoted → asKey = false →
    column + 2 < Sheet.width ∨ Sheet.holdsEscapedGap content.tail = false

/-- Keys are no collections, and a reader looks for a colon behind a key in the 1024 characters
behind its first one. -/
def IsKey : Draft → Prop
  | .alias n => (nameText n).length < 1024
  | .scalar name tag content asLines =>
    (Draft.scalar name tag content asLines).isSimpleKey = true →
      keyWidth name tag content asLines ≤ 1024
  | _ => False

/-- The text of a node at a place, `indent` being the indentation around it, can be read back. -/
inductive Readable : Option Nat → Place → Draft → Prop
  | alias {indent : Option Nat} {place : Place} (n : Nat) : Readable indent place (.alias n)
  | scalar {indent : Option Nat} {place : Place} {name : Option Nat} {tag : Tag} {content : Text}
      {asLines : Bool} (clear : Clear (indent.getD 0) place.asKey tag content asLines) :
      Readable indent place (.scalar name tag content asLines)
  | sequence {indent : Option Nat} {place : Place} {name : Option Nat} {items : List Draft}
      (readable : ∀ item ∈ items, Readable
        (some (if place.isBare name then indent.getD 0 else deeper indent)) .item item) :
      Readable indent place (.sequence name items)
  | mapping {indent : Option Nat} {place : Place} {name : Option Nat} {isSet : Bool}
      {entries : List (Draft × Draft)} (isKey : ∀ e ∈ entries, IsKey e.1)
      (keys : ∀ e ∈ entries, Readable (some (deeper indent)) e.1.keyPlace e.1)
      (values : ∀ e ∈ entries, Readable (some (deeper indent)) e.1.valuePlace e.2) :
      Readable indent place (.mapping name isSet entries)

instance (column : Nat) (asKey : Bool) (tag : Tag) (content : Text) (asLines : Bool) :
    Decidable (Clear column asKey tag content asLines) :=
  decidable_of_iff
    ((Style.choose tag content asLines asKey = .singleQuoted → CodePoint.ofChar '\x85' ∉ content) ∧
      (Style.choose tag content asLines asKey = .doubleQuoted → asKey = false →
        column + 2 < Sheet.width ∨ Sheet.holdsEscapedGap content.tail = false))
    ⟨fun h => ⟨h.1, h.2⟩, fun h => ⟨h.singleQuoted, h.doubleQuoted⟩⟩

instance : DecidablePred IsKey
  | .alias n => inferInstanceAs (Decidable ((nameText n).length < 1024))
  | .scalar name tag content asLines => inferInstanceAs (Decidable
      ((Draft.scalar name tag content asLines).isSimpleKey = true →
        keyWidth name tag content asLines ≤ 1024))
  | .sequence _ _ => .isFalse id
  | .mapping _ _ _ => .isFalse id

/-- The text of an entry of a mapping can be read back. -/
def ReadableEntry (indent : Nat) (e : Draft × Draft) : Prop :=
  IsKey e.1 ∧ Readable (some indent) e.1.keyPlace e.1 ∧ Readable (some indent) e.1.valuePlace e.2

mutual

/-- Decides by recursion whether the text of a node can be read back. -/
def decideReadable (indent : Option Nat) (place : Place) :
    (d : Draft) → Decidable (Readable indent place d)
  | .alias n => .isTrue (.alias n)
  | .scalar name tag content asLines =>
    decidable_of_iff (Clear (indent.getD 0) place.asKey tag content asLines)
      ⟨.scalar, fun h => by cases h with | scalar clear => exact clear⟩
  | .sequence name items =>
    have := decideItems (if place.isBare name then indent.getD 0 else deeper indent) items
    decidable_of_iff (∀ item ∈ items,
        Readable (some (if place.isBare name then indent.getD 0 else deeper indent)) .item item)
      ⟨.sequence, fun h => by cases h with | sequence readable => exact readable⟩
  | .mapping name isSet entries =>
    have := decideEntries (deeper indent) entries
    decidable_of_iff (∀ e ∈ entries, ReadableEntry (deeper indent) e)
      ⟨fun h => .mapping (fun e he => (h e he).1) (fun e he => (h e he).2.1)
        fun e he => (h e he).2.2,
        fun h => by cases h with | mapping isKey keys values =>
          exact fun e he => ⟨isKey e he, keys e he, values e he⟩⟩

/-- Decides whether the items of a sequence can be read back. -/
def decideItems (indent : Nat) :
    (items : List Draft) → Decidable (∀ item ∈ items, Readable (some indent) .item item)
  | [] => .isTrue (List.forall_mem_nil _)
  | item :: rest =>
    have := decideReadable (some indent) .item item
    have := decideItems indent rest
    decidable_of_iff (Readable (some indent) .item item ∧
      ∀ item ∈ rest, Readable (some indent) .item item) List.forall_mem_cons.symm

/-- Decides whether the entries of a mapping can be read back. -/
def decideEntries (indent : Nat) :
    (entries : List (Draft × Draft)) → Decidable (∀ e ∈ entries, ReadableEntry indent e)
  | [] => .isTrue (List.forall_mem_nil _)
  | (key, value) :: rest =>
    have := decideReadable (some indent) key.keyPlace key
    have := decideReadable (some indent) key.valuePlace value
    have : Decidable (ReadableEntry indent (key, value)) := inferInstanceAs (Decidable (_ ∧ _ ∧ _))
    have := decideEntries indent rest
    decidable_of_iff (ReadableEntry indent (key, value) ∧ ∀ e ∈ rest, ReadableEntry indent e)
      List.forall_mem_cons.symm

end

instance (indent : Option Nat) (place : Place) (d : Draft) : Decidable (Readable indent place d) :=
  decideReadable indent place d

/-- A scalar is the draft of some value. -/
structure IsDrawn (tag : Tag) (content : Text) (asLines : Bool) : Prop where
  known : ∀ uri, tag ≠ .unknown uri
  null : tag = .null → content ≠ []
  lines : asLines = true → content ≠ [] → ∃ l ls,
    content = Text.ofChars (joinLines (l :: ls)) ∧ IsLine l ∧ ∀ l ∈ ls, IsLine l

/-- All scalars of a draft are drafts of some values. -/
inductive Drawn : Draft → Prop
  | alias (n : Nat) : Drawn (.alias n)
  | scalar {name : Option Nat} {tag : Tag} {content : Text} {asLines : Bool}
      (drawn : IsDrawn tag content asLines) : Drawn (.scalar name tag content asLines)
  | sequence {name : Option Nat} {items : List Draft} (drawn : ∀ item ∈ items, Drawn item) :
      Drawn (.sequence name items)
  | mapping {name : Option Nat} {isSet : Bool} {entries : List (Draft × Draft)}
      (keys : ∀ e ∈ entries, Drawn e.1) (values : ∀ e ∈ entries, Drawn e.2) :
      Drawn (.mapping name isSet entries)

open Lexer

variable {column : Nat} {place : Place} {s s' : Sheet} {ts : List Token} {tag : Tag}
  {content : Text} {asLines asKey : Bool}

theorem Clear.readsBack (h : Clear column asKey tag content asLines)
    (hdrawn : IsDrawn tag content asLines) : ReadsBack column asKey tag content asLines where
  known := hdrawn.known
  plain := by
    rintro hplain rfl
    exact hdrawn.null (Style.of_choose_plain hplain).1.symm rfl
  singleQuoted := h.singleQuoted
  doubleQuoted := h.doubleQuoted
  literal := by
    intro hliteral
    refine hdrawn.lines (Style.of_choose_literal hliteral).1 ?_
    rintro rfl
    cases (Style.of_choose_literal hliteral).2.2

/-! ## Nodes -/

/-- A node is found behind its name. -/
theorem yields_name (name : Option Nat) (h : Yields column (putName name s) s' ts) :
    Yields column s s' (nameTokens name ++ ts) := by
  cases name with
  | none => exact h
  | some n => exact h.property (spelled_anchor n) (isWritten_nameText _ ⟨by decide, by decide⟩ n)

theorem indented_putName (name : Option Nat) (s : Sheet) :
    (putName name s).indented = (s.indented && name.isNone) := by
  cases name with
  | none => exact (Bool.and_true _).symm
  | some n => rw [putName, Sheet.mark_eq]; rfl

theorem yields_scalar (name : Option Nat) (s : Sheet)
    (h : ReadsBack column false tag content asLines) :
    Yields column s (putScalar (some column) false tag content asLines (putName name s))
      (nameTokens name ++ scalarTokens false tag content asLines) := by
  apply yields_name
  by_cases hliteral : Style.choose tag content asLines false = .literal
  · obtain ⟨l, ls, rfl, hl, hls⟩ := h.literal hliteral
    rw [putScalar_eq, scalarTokens, putTag, hliteral]
    dsimp only [Option.getD_some, Sheet.putStyle]
    split
    · exact yields_lines hl hls _
    · obtain ⟨hspelled, hmark⟩ := spelled_short h.known
      exact (yields_lines hl hls _).property hspelled hmark
  · obtain ⟨cs, hline⟩ := exists_line_scalar (putName name s) h hliteral
    exact hline.yields

/-- A key is found in front of its colon. -/
theorem exists_line_simpleKey {key : Draft} (hsimple : key.isSimpleKey = true) (hkey : IsKey key)
    (hreadable : Readable (some column) .key key) (hdrawn : Drawn key) (hspaced : s.spaced = true) :
    ∃ ds, Line column s (put (some column) true true key s) ds (tokens .key key) ∧
      (∀ d ∈ ds, isBreak d = false) ∧ ds.length ≤ 1024 := by
  match key with
  | .alias n =>
    have hmark := isWritten_nameText '*' ⟨by decide, by decide⟩ n
    have hlead : s.lead true = [] := by
      rw [Sheet.lead, hspaced]
      rfl
    have hprints := s.prints_mark true false false hmark
    refine ⟨_, .node ((spelled_alias n).mono fun _ _ h => h.2) hprints
      (by rw [put, Sheet.mark_eq, Bool.and_false]), ?_, ?_⟩
    · rw [hlead]
      exact fun d hd => (hmark d hd).2
    · rw [hlead]
      exact hkey
  | .scalar name tag content asLines =>
    cases hreadable with
    | scalar clear =>
      cases hdrawn with
      | scalar drawn =>
        have hparts := hsimple
        simp only [isSimpleKey, Bool.and_eq_true, Bool.not_eq_true', List.isEmpty_eq_false_iff]
          at hparts
        obtain ⟨ds, hline, hinline, hlength⟩ := exists_line_key name s hspaced
          (clear.readsBack drawn) hparts.1.2 hparts.2
        exact ⟨ds, hline, hinline, hlength ▸ hkey hsimple⟩
  | .sequence _ _ | .mapping _ _ _ => cases hkey

theorem asKey_valuePlace (key : Draft) : key.valuePlace.asKey = false := by
  rw [valuePlace]
  split <;> rfl

/-- Items are found one after the other. -/
theorem blocks_putItems {items : List Draft} (hne : items ≠ [])
    (hitems : ∀ item ∈ items, ∀ s : Sheet, s.indented = true →
      Yields column s (put (some column) false false item s) (tokens .item item)) (s : Sheet) :
    Blocks column .blockSequenceStart s (putItems column items s) (itemTokens items) := by
  induction items generalizing s with
  | nil => exact absurd rfl hne
  | cons item rest ih =>
    obtain ⟨hitem, hrest⟩ := List.forall_mem_cons.1 hitems
    have hindented : ((s.indentTo column).mark ['-'] true false true).indented = true := by
      rw [Sheet.mark_eq, Sheet.indentTo_eq]
      rfl
    have hfirst := (hitem _ hindented).marked List.mem_cons_self
    rw [putItems, itemTokens]
    cases rest with
    | nil =>
      rw [putItems, itemTokens, List.append_nil]
      exact hfirst
    | cons next rest => exact hfirst.append (ih (List.cons_ne_nil _ _) hrest _)

/-- Entries are found one after the other. -/
theorem blocks_putEntries {entries : List (Draft × Draft)} (hne : entries ≠ [])
    (hentries : ∀ e ∈ entries, ∀ s : Sheet,
      Blocks column .blockMappingStart s (putEntries column [e] s) (entryTokens [e])) (s : Sheet) :
    Blocks column .blockMappingStart s (putEntries column entries s) (entryTokens entries) := by
  induction entries generalizing s with
  | nil => exact absurd rfl hne
  | cons e rest ih =>
    obtain ⟨hentry, hrest⟩ := List.forall_mem_cons.1 hentries
    cases rest with
    | nil => exact hentry s
    | cons next rest =>
      have hall := (hentry s).append (ih (List.cons_ne_nil _ _) hrest _)
      rw [entryTokens, entryTokens, List.append_nil] at hall
      exact hall

/-- An entry is found where it has been written. -/
theorem blocks_entry {key value : Draft} (isKey : IsKey key)
    (hreadable : Readable (some column) key.keyPlace key) (hdrawn : Drawn key)
    (hkey : key.keyPlace.asKey = false → ∀ s : Sheet, s.indented = key.keyPlace.opensLine →
      Yields column s (put (some column) key.keyPlace.underKey false key s)
        (tokens key.keyPlace key))
    (hvalue : ∀ s : Sheet, s.indented = key.valuePlace.opensLine →
      Yields column s (put (some column) key.valuePlace.underKey false value s)
        (tokens key.valuePlace value))
    (s : Sheet) : Blocks column .blockMappingStart s (putEntries column [(key, value)] s)
      (entryTokens [(key, value)]) := by
  rw [putEntries, putEntries, entryTokens, entryTokens, List.append_nil]
  have hline := s.indentTo_eq column
  by_cases hsimple : key.isSimpleKey = true
  · have hplace : key.keyPlace = .key ∧ key.valuePlace = .value :=
      ⟨if_pos hsimple, if_pos hsimple⟩
    rw [hplace.1] at hreadable
    rw [hplace.2] at hvalue
    rw [hplace.1, hplace.2, if_pos hsimple]
    obtain ⟨ds, hds, hinline, hwidth⟩ := exists_line_simpleKey hsimple isKey hreadable hdrawn
      (show (s.indentTo column).spaced = true by rw [hline])
    exact hds.entry hinline hwidth (hvalue _ (by rw [Sheet.mark_eq, Bool.and_false]; rfl))
  · have hplace : key.keyPlace = .marked ∧ key.valuePlace = .marked :=
      ⟨if_neg hsimple, if_neg hsimple⟩
    rw [hplace.1] at hkey
    rw [hplace.2] at hvalue
    rw [hplace.1, hplace.2, if_neg hsimple]
    have hmark : ∀ (s : Sheet) (d : Char),
        ((s.indentTo column).mark [d] true false true).indented = true := by
      intro s d
      rw [Sheet.mark_eq, Sheet.indentTo_eq]
      rfl
    exact Blocks.append (Yields.marked (by simp) (hkey rfl _ (hmark s '?')))
      (Yields.marked (by simp) (hvalue _ (hmark _ ':')))

/-- What is written behind the tag of a set, which a mapping does not have, is found behind it. -/
theorem yields_setTag (isSet : Bool)
    (h : Yields column (if isSet then s.mark (Tag.set.short.toList) true else s) s' ts) :
    Yields column s s' ((if isSet then [tagToken .set] else []) ++ ts) := by
  cases isSet with
  | false => exact h
  | true =>
    have hknown : ∀ uri, Tag.set ≠ .unknown uri := by
      rintro uri ⟨⟩
    obtain ⟨hspelled, hmark⟩ := spelled_short hknown
    exact h.property hspelled hmark

/-- The tokens of a draft are found where it has been written. -/
theorem Readable.yields {indent : Option Nat} {d : Draft} (h : Readable indent place d)
    (hindent : indent = some column) (hdrawn : Drawn d) (hplace : place.asKey = false)
    (s : Sheet) (hindented : s.indented = place.opensLine) :
    Yields column s (put (some column) place.underKey false d s) (tokens place d) := by
  induction h generalizing column s with
  | «alias» n =>
    have hmark := isWritten_nameText '*' ⟨by decide, by decide⟩ n
    have hprints := s.prints_mark true false false hmark
    exact (Line.node ((spelled_alias n).mono fun _ _ h => h.2) hprints
      (by rw [Sheet.mark_eq, Bool.and_false])).yields
  | @scalar indent place name tag content asLines clear =>
    cases hdrawn with
    | scalar drawn =>
      rw [hindent, hplace] at clear
      rw [put, tokens, hplace]
      exact yields_scalar name s (clear.readsBack drawn)
  | @sequence indent place name items readable ih =>
    cases hdrawn with
    | sequence drawn =>
      cases items with
      | nil =>
        rw [put, tokens]
        exact yields_name name (yields_empty (by simp [flowMarks]) _)
      | cons item rest =>
        have hbare : (place.underKey && !(putName name s).indented) = place.isBare name := by
          rw [indented_putName, hindented, Place.isBare]
          cases place <;> cases name <;> rfl
        rw [put, tokens, hbare]
        rotate_left
        · exact List.cons_ne_nil _ _
        · exact List.cons_ne_nil _ _
        refine yields_name name ?_
        have hitems : ∀ it ∈ item :: rest, ∀ s : Sheet, s.indented = true → Yields
            (if place.isBare name then indent.getD 0 else deeper indent) s (put (some
              (if place.isBare name then indent.getD 0 else deeper indent)) false false it s)
            (tokens .item it) :=
          fun it hit s hs => ih it hit rfl (drawn it hit) rfl s hs
        have hblocks := blocks_putItems (List.cons_ne_nil _ _) hitems (putName name s)
        rw [hindent] at hblocks
        split
        · next htrue =>
          rw [if_pos htrue] at hblocks
          exact hblocks.yields_bare
        · next hfalse =>
          rw [if_neg hfalse] at hblocks
          exact hblocks.yields (Nat.lt_add_of_pos_right (by decide))
  | @mapping indent place name isSet entries isKey keys values ihkeys ihvalues =>
    cases hdrawn with
    | mapping drawnKeys drawnValues =>
      cases entries with
      | nil =>
        rw [put, tokens, List.append_assoc]
        exact yields_name name (yields_setTag isSet (yields_empty (by simp [flowMarks]) _))
      | cons e rest =>
        rw [hindent] at ihkeys ihvalues keys
        rw [put, tokens, List.append_assoc]
        rotate_left
        · exact List.cons_ne_nil _ _
        · exact List.cons_ne_nil _ _
        refine yields_name name (yields_setTag isSet ?_)
        refine (blocks_putEntries (List.cons_ne_nil _ _) (fun e he s => ?_) _).yields
          (Nat.lt_add_of_pos_right (by decide))
        exact blocks_entry (isKey e he) (keys e he) (drawnKeys e he)
          (ihkeys e he rfl (drawnKeys e he))
          (ihvalues e he rfl (drawnValues e he) (asKey_valuePlace e.1)) s

/-! ## Texts -/

/-- The end of the text is found behind what has been written. -/
theorem run_end {l : Lexer} (h : Begins s [] l) :
    l.run 2 = ((Token.streamEnd :: (l.unwind (-1)).found).reverse, none) := by
  have hopens : Opens [] := by
    rintro d ⟨⟩
  have hskip : skipToToken (l.cursor.rest.length + 1) l = l :=
    skipToToken_blanks (k := 0) h.rest hopens _
  have hcandidates : (l.unwind (-1)).candidates = [] :=
    (congrArg Lexer.candidates (unwind_with (-1) l l.cursor l.keyAllowed l.candidates)).trans
      h.candidates
  have hdrop : (l.unwind (-1)).dropCandidate = .ok (l.unwind (-1)) := by
    rw [dropCandidate, hcandidates]
    rfl
  have hpeek : (l.unwind l.cursor.column).cursor.peek 0 = none := by
    rw [(unwind_frame l.cursor.column l).1, Cursor.peek, h.rest]
    rfl
  have hfetch : l.fetch = .ok { (l.unwind (-1)).push .streamEnd with
      done := true, keyAllowed := false, candidates := [] } := by
    rw [fetch, hskip, h.dropStale_eq]
    dsimp only [bind, Except.bind]
    rw [hpeek]
    show (l.unwind l.cursor.column).fetchEnd = _
    rw [fetchEnd, unwind_unwind (by omega), hdrop]
    rfl
  rw [run, h.going, if_neg Bool.false_ne_true, hfetch]
  rfl

theorem opens_nil : Opens [] := by
  rintro d ⟨⟩

/-- What is found in a text that has been written as the parts of a block. -/
theorem scan_of_blocks {start : Token} (h : Blocks 0 start .blank s ts) :
    (∀ d ∈ (s.indentTo 0).written.reverse, isWritten d = true) ∧
      Token.scan (s.indentTo 0).written.reverse =
        (start :: ts ++ [.blockEnd, .streamEnd], none) := by
  obtain ⟨cs, hprints, hopens, hfinds⟩ := h
  have hgap := s.prints_indentTo 0
  have htext : (s.indentTo 0).written.reverse = cs ++ s.gap 0 := by
    rw [hgap.written, hprints.written, List.reverse_append, List.reverse_append,
      List.reverse_reverse, List.reverse_reverse]
    rfl
  have hbegins : Begins (Sheet.blank.indentTo 0) (cs ++ s.gap 0) (Lexer.start (cs ++ s.gap 0)) :=
    ⟨rfl, rfl, rfl, rfl, rfl, rfl, rfl⟩
  have houtside : (Lexer.start (cs ++ s.gap 0)).indent ≤ (0 : Nat) :=
    show (-1 : Int) ≤ 0 by decide
  obtain ⟨l₁, hleads, hreads⟩ := hfinds _ (s.gap 0) hbegins houtside
    ⟨0, [], le_rfl, opens_nil, (List.append_nil _).symm⟩
  have hat := hreads.toAt
  rw [← List.append_nil (s.gap 0)] at hat
  obtain ⟨l₂, hleads', hbehind, hfound, hindent, hindents⟩ := hat.arrive opens_nil
  have hread : Lexer.Reads (s.indentTo 0) [] (0 : Nat)
      (ts.reverse ++ (Lexer.start (cs ++ s.gap 0)).opened 0 start) [-1] l₂ :=
    hbehind.toAt.reads (hfound.trans hreads.found) (hindent.trans hreads.indent)
      (hindents.trans hreads.indents)
  have hclosed := hread.close (by decide)
  have hend := run_end hbehind
  rw [hclosed.found] at hend
  have hlength : l₂.cursor.rest.length + 2 = 2 := by
    rw [hbehind.rest]
    rfl
  rw [← hlength] at hend
  have hrun := hleads _ _ (hleads' _ _ hend)
  have hwritten : ∀ d ∈ cs ++ s.gap 0, isWritten d = true := List.forall_mem_append.2
    ⟨fun d hd => hprints.are_written d (List.mem_append_right _ hd), hgap.are_written⟩
  -- nothing that has been written is a byte order mark
  have hscan : Token.scan (cs ++ s.gap 0) =
      (Lexer.start (cs ++ s.gap 0)).run ((cs ++ s.gap 0).length + 2) := by
    generalize cs ++ s.gap 0 = text at hwritten
    rw [Token.scan]
    rintro tail rfl
    cases hwritten _ List.mem_cons_self
  rw [htext, hscan]
  refine ⟨hwritten, hrun.trans (congrArg (·, none) ?_)⟩
  have hopened : (Lexer.start (cs ++ s.gap 0)).opened 0 start = [start] := rfl
  rw [hopened]
  simp

/-- The tokens of a mapping are found in its text, of which all characters are fit to be written. -/
theorem scan_put {entries : List (Draft × Draft)} (hne : entries ≠ [])
    (h : Readable none .item (.mapping none false entries))
    (hdrawn : Drawn (.mapping none false entries)) {cs : List Char}
    (hcs : cs = ((put none false false (.mapping none false entries) .blank).indentTo
      0).written.reverse) : (∀ d ∈ cs, isWritten d = true) ∧
      Token.scan cs = (tokens .item (.mapping none false entries) ++ [.streamEnd], none) := by
  cases h with
  | mapping isKey keys values =>
  cases hdrawn with
  | mapping drawnKeys drawnValues =>
  have hblocks := blocks_putEntries hne (fun e he s =>
    blocks_entry (isKey e he) (keys e he) (drawnKeys e he)
      ((keys e he).yields rfl (drawnKeys e he))
      ((values e he).yields rfl (drawnValues e he) (asKey_valuePlace e.1)) s) .blank
  have hscan := scan_of_blocks hblocks
  obtain ⟨e, rest, rfl⟩ := List.exists_cons_of_ne_nil hne
  have htokens : tokens .item (.mapping none false (e :: rest)) =
      .blockMappingStart :: entryTokens (e :: rest) ++ [.blockEnd] := by
    rw [tokens]
    · rfl
    · exact hne
  rw [htokens, List.append_assoc, hcs]
  exact hscan

end Draft

end SiteRules.Yaml
