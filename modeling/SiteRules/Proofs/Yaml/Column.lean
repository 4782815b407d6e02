import SiteRules.Proofs.Yaml.Scanner
import SiteRules.Yaml.Sheet

/-!
# Columns

What is written on a sheet and what a cursor passes over are counted alike: each character takes up
one column, and a line end begins a new line (`Cursor.advance_eq`, `Sheet.Prints`). So a cursor that
has passed over what was written is in the column that the sheet is in.
-/

namespace SiteRules.Yaml

/-- The characters that are written: those that may stand in a text, but no carriage return, which
would be read as a line feed, and no byte order mark, which would take up no column. -/
def isWritten (d : Char) : Bool :=
  isAllowed d && d ≠ '\r' && d ≠ '\uFEFF'

/-- The column behind some characters. -/
def columnAfter (column : Nat) : List Char → Nat
  | [] => column
  | d :: rest => columnAfter (if isBreak d then 0 else column + 1) rest

theorem columnAfter_append (column : Nat) (cs ds : List Char) :
    columnAfter column (cs ++ ds) = columnAfter (columnAfter column cs) ds := by
  induction cs generalizing column with
  | nil => rfl
  | cons d rest ih => exact ih _

theorem columnAfter_inline (column : Nat) {cs : List Char} (h : ∀ d ∈ cs, isBreak d = false) :
    columnAfter column cs = column + cs.length := by
  induction cs generalizing column with
  | nil => rfl
  | cons d rest ih =>
    obtain ⟨hd, hrest⟩ := List.forall_mem_cons.1 h
    rw [columnAfter, hd, if_neg Bool.false_ne_true, ih _ hrest, List.length_cons]
    omega

theorem columnAfter_line (column : Nat) {cs ds : List Char} {b : Char} (hb : isBreak b = true)
    (h : ∀ d ∈ ds, isBreak d = false) : columnAfter column (cs ++ b :: ds) = ds.length := by
  rw [columnAfter_append, columnAfter, hb, if_pos rfl, columnAfter_inline 0 h, Nat.zero_add]

theorem ne_of_toNat {d e : Char} (h : d.toNat ≠ e.toNat) : d ≠ e := by
  rintro rfl
  exact h rfl

theorem ne_of_ofChar_ne {d e : Char} (h : CodePoint.ofChar d ≠ CodePoint.ofChar e) : d ≠ e := by
  rintro rfl
  exact h rfl

/-- The characters that are written, by number. -/
theorem isWritten_of_toNat {d : Char}
    (h : d.toNat = 0xa ∨ 0x20 ≤ d.toNat ∧ d.toNat ≤ 0x7e ∨ d.toNat = 0x85 ∨
      0xa0 ≤ d.toNat ∧ d.toNat ≤ 0xd7ff ∨ 0xe000 ≤ d.toNat ∧ d.toNat ≤ 0xfffd ∨ 0x10000 ≤ d.toNat)
    (hmark : d.toNat ≠ 0xfeff) : isWritten d = true := by
  have hallowed : isAllowed d = true := by
    simp only [isAllowed, Bool.or_eq_true, Bool.and_eq_true, decide_eq_true_eq]
    omega
  have hreturn : d ≠ '\r' := by
    rintro rfl
    revert h
    decide
  have hbom : d ≠ '\uFEFF' := ne_of_toNat hmark
  rw [isWritten, hallowed, decide_eq_true hreturn, decide_eq_true hbom]
  rfl

theorem isBreak_of_isWritten {d : Char} (h : isWritten d = true) :
    isBreak d = (d = '\n' || d = '\x85' || d = '\u2028' || d = '\u2029' : Bool) := by
  have hreturn : d ≠ '\r' := by
    rintro rfl
    cases h
  rw [isBreak, decide_eq_false hreturn, Bool.false_or]

/-- The character that stands in a scalar for a line end that was written. -/
def readBreak (b : Char) : Char :=
  if b = '\x85' then '\n' else b

/-! ## Cursors -/

namespace Cursor

/-- The place behind a character that is written. -/
theorem step_eq {c : Cursor} {d : Char} {rest : List Char} (hrest : c.rest = d :: rest)
    (h : isWritten d = true) :
    c.step = ⟨rest, c.index + 1, c.line + (if isBreak d then 1 else 0),
      columnAfter c.column [d]⟩ := by
  have hreturn : d ≠ '\r' := by
    rintro rfl
    cases h
  have hmark : d ≠ '\uFEFF' := by
    rintro rfl
    cases h
  have hbreak := isBreak_of_isWritten h
  rw [step, hrest]
  dsimp only
  rw [decide_eq_false hreturn, Bool.false_and, Bool.or_false, if_neg hmark, ← hbreak, columnAfter]
  cases isBreak d <;> rfl

/-- The place behind characters that are written. -/
theorem advance_eq {c : Cursor} {cs tail : List Char} (hrest : c.rest = cs ++ tail)
    (h : ∀ d ∈ cs, isWritten d = true) :
    c.advance cs.length = ⟨tail, c.index + cs.length, c.line + cs.countP isBreak,
      columnAfter c.column cs⟩ := by
  induction cs generalizing c with
  | nil =>
    rw [List.nil_append] at hrest
    rw [← hrest]
    rfl
  | cons d rest ih =>
    obtain ⟨hd, htail⟩ := List.forall_mem_cons.1 h
    have hstep := step_eq hrest hd
    have hbehind : c.step.rest = rest ++ tail := by
      rw [hstep]
      rfl
    rw [List.length_cons, advance, ih hbehind htail, hstep, List.countP_cons]
    congr 1
    · show c.index + 1 + rest.length = c.index + (rest.length + 1)
      omega
    · show c.line + _ + rest.countP isBreak = c.line + _
      omega

/-- The place behind blanks. -/
theorem advance_blanks {c : Cursor} {k : Nat} {tail : List Char}
    (hrest : c.rest = List.replicate k ' ' ++ tail) :
    c.advance k = ⟨tail, c.index + k, c.line, c.column + k⟩ := by
  have hblank : ∀ d ∈ List.replicate k ' ', isWritten d = true ∧ isBreak d = false := by
    intro d hd
    rw [List.eq_of_mem_replicate hd]
    decide
  have hadvance := advance_eq hrest fun d hd => (hblank d hd).1
  rw [columnAfter_inline _ fun d hd => (hblank d hd).2,
    List.countP_eq_zero.2 fun d hd => Bool.eq_false_iff.1 (hblank d hd).2] at hadvance
  rwa [List.length_replicate] at hadvance

theorem advance_rest (c : Cursor) (n : Nat) : (c.advance n).rest = c.rest.drop n := by
  induction n generalizing c with
  | zero => rfl
  | succ n ih => rw [advance, ih, step_rest, List.drop_tail]

theorem rest_advance {c : Cursor} {cs tail : List Char} (hrest : c.rest = cs ++ tail) :
    (c.advance cs.length).rest = tail := by
  rw [advance_rest, hrest, List.drop_left]

theorem advance_add (c : Cursor) (m n : Nat) : c.advance (m + n) = (c.advance m).advance n := by
  induction m generalizing c with
  | zero => rw [Nat.zero_add, advance]
  | succ m ih => rw [Nat.succ_add, advance, advance, ih]

/-- What is passed over is all that satisfies a condition, if what follows does not. -/
theorem span_eq {c : Cursor} {p : Char → Bool} {cs tail : List Char} (hrest : c.rest = cs ++ tail)
    (hcs : ∀ d ∈ cs, p d = true) (htail : ∀ d ∈ tail.head?, p d = false) :
    c.span p = (cs, c.advance cs.length) := by
  have htake : c.rest.takeWhile p = cs := by
    rw [hrest, List.takeWhile_append_of_pos hcs]
    cases tail with
    | nil => rw [List.takeWhile_nil, List.append_nil]
    | cons d rest =>
      rw [List.takeWhile_cons_of_neg (Bool.eq_false_iff.1 (htail d rfl)), List.append_nil]
  rw [span, htake]

theorem peek_zero {c : Cursor} {d : Char} {rest : List Char} (hrest : c.rest = d :: rest) :
    c.peek 0 = some d := by
  rw [peek, hrest]
  rfl

theorem peek_one {c : Cursor} {d : Char} {rest : List Char} (hrest : c.rest = d :: rest) :
    c.peek 1 = rest.head? := by
  rw [peek, hrest, List.head?_eq_getElem?]
  rfl

/-- No line end is here. -/
theorem lineBreak?_eq_none {c : Cursor} (h : ∀ d ∈ c.rest.head?, isBreak d = false) :
    c.lineBreak? = none := by
  rw [lineBreak?]
  cases hrest : c.rest with
  | nil => rfl
  | cons d rest =>
    have hd : isBreak d = false := h d (by rw [hrest]; rfl)
    simp only [isBreak, Bool.or_eq_false_iff, decide_eq_false_iff_not] at hd
    obtain ⟨⟨⟨⟨hreturn, hfeed⟩, hnext⟩, hline⟩, hparagraph⟩ := hd
    split
    · next heq =>
      cases heq
      exact absurd rfl hreturn
    · next heq =>
      cases heq
      simp [hreturn, hfeed, hnext, hline, hparagraph]
    · rfl

/-- A line end that was written is read as the character that stands for it. -/
theorem lineBreak?_eq_some {c : Cursor} {b : Char} {rest : List Char} (hrest : c.rest = b :: rest)
    (hbreak : isBreak b = true) (hwritten : isWritten b = true) :
    c.lineBreak? = some (readBreak b, c.step) := by
  have hreturn : b ≠ '\r' := by
    rintro rfl
    cases hwritten
  rw [isBreak_of_isWritten hwritten] at hbreak
  simp only [Bool.or_eq_true, decide_eq_true_eq] at hbreak
  rw [lineBreak?, hrest, readBreak]
  split
  · next heq =>
    cases heq
    exact absurd rfl hreturn
  · next heq =>
    cases heq
    rcases hbreak with ((rfl | rfl) | rfl) | rfl <;> rfl
  · next heq => cases heq

end Cursor

/-! ## Sheets -/

namespace Sheet

/-- The characters have been written on a sheet. -/
structure Prints (s s' : Sheet) (cs : List Char) : Prop where
  written : s'.written = cs.reverse ++ s.written
  column : s'.column = columnAfter s.column cs
  are_written : ∀ d ∈ cs, isWritten d = true

variable {s s' s'' : Sheet} {cs ds : List Char}

theorem Prints.refl (s : Sheet) : Prints s s [] :=
  ⟨rfl, rfl, List.forall_mem_nil _⟩

theorem Prints.trans (h : Prints s s' cs) (h' : Prints s' s'' ds) : Prints s s'' (cs ++ ds) := by
  refine ⟨?_, ?_, List.forall_mem_append.2 ⟨h.are_written, h'.are_written⟩⟩
  · rw [h'.written, h.written, List.reverse_append, List.append_assoc]
  · rw [h'.column, h.column, columnAfter_append]

/-- Only what is written and the column count. -/
theorem Prints.of_eq {t t' : Sheet} (h : Prints s s' cs) (hw : t.written = s.written)
    (hc : t.column = s.column) (hw' : t'.written = s'.written) (hc' : t'.column = s'.column) :
    Prints t t' cs :=
  ⟨by rw [hw', h.written, hw], by rw [hc', h.column, hc], h.are_written⟩

/-- Characters are written on a line. -/
theorem prints_put (s : Sheet) (h : ∀ d ∈ cs, isWritten d = true ∧ isBreak d = false) :
    Prints s (s.put cs) cs :=
  ⟨rfl, (columnAfter_inline _ fun d hd => (h d hd).2).symm, fun d hd => (h d hd).1⟩

theorem prints_break (s : Sheet) {b : Char} (hbreak : isBreak b = true)
    (hwritten : isWritten b = true) : Prints s (s.breakWith b) [b] := by
  refine ⟨rfl, ?_, List.forall_mem_singleton.2 hwritten⟩
  rw [columnAfter, hbreak, if_pos rfl]
  rfl

/-- What is written in front of a mark. -/
def lead (s : Sheet) (needsBlank : Bool) : List Char :=
  if s.spaced || !needsBlank then [] else [' ']

theorem mark_eq (s : Sheet) (cs : List Char) (needsBlank spaced indented : Bool) :
    s.mark cs needsBlank spaced indented =
      ⟨(s.lead needsBlank ++ cs).reverse ++ s.written,
        s.column + (s.lead needsBlank ++ cs).length, spaced, s.indented && indented⟩ := by
  rw [mark, lead]
  split <;> rfl

theorem prints_mark (s : Sheet) (needsBlank spaced indented : Bool)
    (h : ∀ d ∈ cs, isWritten d = true ∧ isBreak d = false) :
    Prints s (s.mark cs needsBlank spaced indented) (s.lead needsBlank ++ cs) := by
  have hall : ∀ d ∈ s.lead needsBlank ++ cs, isWritten d = true ∧ isBreak d = false := by
    refine List.forall_mem_append.2 ⟨?_, h⟩
    rw [lead]
    split
    · exact List.forall_mem_nil _
    · exact List.forall_mem_singleton.2 ⟨rfl, rfl⟩
  exact (prints_put s hall).of_eq rfl rfl (by rw [mark_eq]; rfl) (by rw [mark_eq]; rfl)

/-- Whether going to a column needs a new line. -/
def needsLine (s : Sheet) (indent : Nat) : Bool :=
  !s.indented || indent < s.column || (s.column = indent && !s.spaced)

/-- What is written to get to a column. -/
def gap (s : Sheet) (indent : Nat) : List Char :=
  if s.needsLine indent then '\n' :: List.replicate indent ' '
  else List.replicate (indent - s.column) ' '

/-- Behind the indentation nothing else is on the line. -/
theorem indentTo_eq (s : Sheet) (indent : Nat) :
    s.indentTo indent = ⟨(s.gap indent).reverse ++ s.written, indent, true, true⟩ := by
  rw [indentTo, gap, needsLine]
  by_cases hline : (!s.indented || decide (indent < s.column) ||
      (decide (s.column = indent) && !s.spaced)) = true
  · rw [if_pos hline, if_pos hline]
    cases indent with
    | zero => rfl
    | succ n =>
      have hlt : (s.breakWith '\n').column < n + 1 := Nat.succ_pos n
      dsimp only
      rw [if_pos hlt]
      simp [put, breakWith]
  · rw [if_neg hline, if_neg hline]
    simp only [Bool.or_eq_true, Bool.and_eq_true, Bool.not_eq_true', decide_eq_true_eq,
      not_or, not_and, Bool.not_eq_false] at hline
    obtain ⟨⟨hindented, hle⟩, hspaced⟩ := hline
    by_cases hlt : s.column < indent
    · rw [if_pos hlt]
      cases s
      simp only [put] at *
      simp [hindented, Nat.add_sub_cancel' (Nat.le_of_lt hlt)]
    · have heq : s.column = indent := by omega
      rw [if_neg hlt, heq, Nat.sub_self]
      cases s
      simp_all

theorem prints_indentTo (s : Sheet) (indent : Nat) :
    Prints s (s.indentTo indent) (s.gap indent) := by
  have hblanks : ∀ n, ∀ d ∈ List.replicate n ' ', isWritten d = true ∧ isBreak d = false := by
    intro n d hd
    rw [List.eq_of_mem_replicate hd]
    exact ⟨rfl, rfl⟩
  rw [indentTo_eq]
  refine ⟨rfl, ?_, ?_⟩
  · rw [gap]
    split
    · show indent = columnAfter s.column ([] ++ '\n' :: List.replicate indent ' ')
      rw [columnAfter_line _ rfl fun d hd => (hblanks _ d hd).2, List.length_replicate]
    · next hline =>
      rw [columnAfter_inline _ fun d hd => (hblanks _ d hd).2, List.length_replicate]
      simp only [needsLine, Bool.or_eq_true, decide_eq_true_eq, not_or] at hline
      have hle := hline.1.2
      show indent = s.column + (indent - s.column)
      omega
  · rw [gap]
    split
    · exact List.forall_mem_cons.2 ⟨rfl, fun d hd => (hblanks _ d hd).1⟩
    · exact fun d hd => (hblanks _ d hd).1

end Sheet

end SiteRules.Yaml
