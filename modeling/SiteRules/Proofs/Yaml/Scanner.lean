import Mathlib.Tactic.Ring
import SiteRules.Proofs.Except
import SiteRules.Proofs.Number.Decimal
import SiteRules.Yaml.Token.Scalar

/-!
# Where scanners stop

Every scanner goes on behind the place where it began, or stops with a fault of the text
(`IsLexical`). Three faults tell more than that a rule is broken: an escape that names no code point
stands in the text with its eight digits (`HoldsPastRange`, `HoldsOverflow`), and so does a number
with too many digits (`HoldsDigits`).
-/

namespace SiteRules.Yaml

/-! ## Places in a text -/

/-- A cursor is at a place in the text. -/
def Cursor.In (text : List Char) (c : Cursor) : Prop :=
  c.rest <:+ text

namespace Cursor

variable {text : List Char} {c : Cursor}

theorem step_rest (c : Cursor) : c.step.rest = c.rest.tail := by
  rw [step]
  split
  · next hrest => rw [hrest, List.tail_nil]
  · next d rest hrest =>
    rw [hrest, List.tail_cons]
    split
    · rfl
    · split <;> rfl

theorem rest_of_peek {d : Char} (h : c.peek 0 = some d) : c.rest = d :: c.step.rest := by
  rw [peek, ← List.head?_eq_getElem?] at h
  obtain ⟨rest, hrest⟩ := List.head?_eq_some_iff.1 h
  rw [step_rest, hrest, List.tail_cons]

theorem In.step (h : c.In text) : c.step.In text := by
  rw [In, step_rest]
  exact (List.tail_suffix _).trans h

theorem In.advance (h : c.In text) (n : Nat) : (c.advance n).In text := by
  induction n generalizing c with
  | zero => exact h
  | succ n ih => exact ih h.step

theorem In.span (h : c.In text) (p : Char → Bool) : (c.span p).2.In text :=
  h.advance _

theorem In.skip (h : c.In text) (p : Char → Bool) : (c.skip p).In text :=
  h.span p

/-- A line end is one character, or two. -/
theorem lineBreak?_cases {b : Char} {d : Cursor} (hbreak : c.lineBreak? = some (b, d)) :
    c.rest ≠ [] ∧ (d = c.step ∨ d = c.step.step) := by
  rw [lineBreak?] at hbreak
  split at hbreak
  · next hrest =>
    cases hbreak
    exact ⟨by simp [hrest], .inr rfl⟩
  · next hrest =>
    refine ⟨by simp [hrest], .inl ?_⟩
    split at hbreak
    · cases hbreak
      rfl
    · split at hbreak
      · cases hbreak
        rfl
      · cases hbreak
  · cases hbreak

theorem In.of_lineBreak? (h : c.In text) {b : Char} {d : Cursor}
    (hbreak : c.lineBreak? = some (b, d)) : d.In text := by
  rcases (lineBreak?_cases hbreak).2 with rfl | rfl
  · exact h.step
  · exact h.step.step

theorem In.skipLineBreak (h : c.In text) : c.skipLineBreak.In text := by
  rw [Cursor.skipLineBreak]
  cases hbreak : c.lineBreak? with
  | none => exact h
  | some found => exact h.of_lineBreak? hbreak

theorem In.skipComment (h : c.In text) : c.skipComment.In text := by
  rw [Cursor.skipComment]
  split
  · exact h.skip _
  · exact h

theorem In.peek_mem (h : c.In text) {d : Char} {k : Nat} (hd : c.peek k = some d) : d ∈ text :=
  h.subset (List.mem_of_getElem? hd)

end Cursor

/-! ## Faults of a text -/

/-- An escape in the text names a number past those of 32 bits. -/
def HoldsOverflow (text : List Char) : Prop :=
  ∃ digits n, '\\' :: 'U' :: digits <:+: text ∧ digits.length = 8 ∧
    hexNumber? digits = some n ∧ 0x80000000 ≤ n

/-- An escape in the text names a 32-bit number past the last code point. -/
def HoldsPastRange (text : List Char) : Prop :=
  ∃ digits n, '\\' :: 'U' :: digits <:+: text ∧ digits.length = 8 ∧
    hexNumber? digits = some n ∧ 0x110000 ≤ n ∧ n < 0x80000000

/-- The text holds a run of this many decimal digits. -/
def HoldsDigits (text : List Char) (count : Nat) : Prop :=
  ∃ digits, digits <:+: text ∧ (∀ d ∈ digits, d.isDigit = true) ∧ digits.length = count

/-- The faults that cutting a text into tokens can end in, with what the text has to hold for
them. -/
def IsLexical (text : List Char) : Fault → Prop
  | .malformed => True
  | .codePointRange => HoldsPastRange text
  | .codePointOverflow => HoldsOverflow text
  | .number e => ∃ count, Literal.maxDigits < count ∧ e = .tooManyDigits count ∧
      HoldsDigits text count
  | _ => False

/-- A scanner stops with a fault of the text or at a place in it. -/
abbrev Scans (text : List Char) {α : Type} : Except Fault (α × Cursor) → Prop :=
  EndsIn (IsLexical text) fun found => found.2.In text

section Scanners

variable {text : List Char} {c : Cursor}

theorem scans_malformed {α : Type} : Scans text (.error .malformed : Except Fault (α × Cursor)) :=
  trivial

/-! ## Names -/

theorem scans_anchor (h : c.In text) : Scans text (scanAnchor c) := by
  rw [scanAnchor]
  exact .ite (fun _ => scans_malformed) fun _ => h.step.span _

theorem scans_escapes (fuel : Nat) (h : c.In text) : Scans text (scanEscapes fuel c) := by
  induction fuel generalizing c with
  | zero => exact h
  | succ fuel ih =>
    rw [scanEscapes]
    split
    · split
      · exact (ih (h.advance 3)).bind fun _ hd => hd
      · exact scans_malformed
    · exact scans_malformed
    · exact h

theorem scans_uriFrom (fuel : Nat) (h : c.In text) : Scans text (scanUriFrom fuel c) := by
  induction fuel generalizing c with
  | zero => exact h
  | succ fuel ih =>
    rw [scanUriFrom]
    split
    · exact h
    · refine .ite (fun _ => ?_) fun _ => .ite (fun _ => ?_) fun _ => h
      · refine (scans_escapes _ h).bind fun ⟨bytes, d⟩ hd => ?_
        dsimp only
        split
        · exact scans_malformed
        · exact (ih hd).bind fun _ he => he
      · exact (ih h.step).bind fun _ hd => hd

theorem scans_uri (h : c.In text) : Scans text (scanUri c) := by
  rw [scanUri]
  exact .check trivial ((scans_uriFrom _ h).bind fun _ hd => hd)

theorem scans_handle (h : c.In text) : Scans text (scanHandle c) := by
  rw [scanHandle]
  exact .ite (fun _ => scans_malformed) fun _ => .ite (fun _ => h.step) fun _ =>
    .ite (fun _ => (h.step.span _).step) fun _ => scans_malformed

theorem scans_tag (h : c.In text) : Scans text (scanTag c) := by
  have hend : ∀ (tag : SpelledTag) {d : Cursor}, d.In text →
      Scans text (if endsWord (d.peek 0) then pure (tag, d) else throw .malformed) :=
    fun tag d hd => .ite (fun _ => hd) fun _ => scans_malformed
  rw [scanTag]
  refine .ite (fun _ => ?_) fun _ => .ite (fun _ => ?_) fun _ => .ite (fun _ => ?_) fun _ => ?_
  · exact (scans_uri (h.advance 2)).bind fun _ hd => .check trivial (hend _ hd.step)
  · exact hend _ h.step
  · exact (scans_handle h).bind fun _ hd => (scans_uri hd).bind fun _ he => hend _ he
  · exact (scans_uri h.step).bind fun _ hd => hend _ hd

/-! ## Directives -/

/-- The number of a version is read unless it has too many digits. -/
theorem scans_versionNumber (h : c.In text) : Scans text (scanVersionNumber c) := by
  rw [scanVersionNumber, Cursor.span]
  refine .ite (fun _ => scans_malformed) fun hempty => ?_
  have hinfix : c.rest.takeWhile Char.isDigit <:+: text :=
    (List.takeWhile_prefix _).isInfix.trans (List.IsSuffix.isInfix h)
  have hdigits : ∀ d ∈ c.rest.takeWhile Char.isDigit, d.isDigit = true :=
    fun d hd => List.mem_takeWhile_imp hd
  have hread := Literal.readInt_of_isDigit (t := Text.ofChars (c.rest.takeWhile Char.isDigit))
    (by rwa [Text.ofChars, ne_eq, List.map_eq_nil_iff, ← List.isEmpty_iff])
    (List.forall_mem_map.2 fun d hd =>
      Literal.isDigit_ten (CodePoint.isBasicDigit_ofChar (hdigits d hd)))
  rw [hread, Text.ofChars, List.length_map]
  by_cases hmany : 10 = 10 ∧ Literal.maxDigits < (c.rest.takeWhile Char.isDigit).length
  · rw [if_pos hmany]
    exact ⟨_, hmany.2, rfl, _, hinfix, hdigits, rfl⟩
  · rw [if_neg hmany]
    exact h.advance _

theorem scans_directiveValue (name : List Char) (h : c.In text) :
    Scans text (scanDirectiveValue name c) := by
  rw [scanDirectiveValue]
  refine .ite (fun _ => ?_) fun _ => .ite (fun _ => ?_) fun _ => h.skip _
  · refine (scans_versionNumber (h.skip _)).bind fun _ hd => .check trivial ?_
    exact (scans_versionNumber hd.step).bind fun _ he => .check trivial he
  · refine (scans_handle (h.skip _)).bind fun _ hd => .check trivial ?_
    exact (scans_uri (hd.skip _)).bind fun _ he => .check trivial he

/-- What can stand at the end of a line is passed over with it. -/
theorem endsIn_lineRest (h : c.In text) :
    EndsIn (IsLexical text) (Cursor.In text) (scanLineRest c) := by
  rw [scanLineRest]
  exact .ite (fun _ => (h.skip _).skipComment.skipLineBreak) fun _ => trivial

theorem scans_directive (h : c.In text) : Scans text (scanDirective c) := by
  rw [scanDirective]
  refine .check trivial ?_
  exact (scans_directiveValue _ (h.step.span _)).bind fun _ hd =>
    (endsIn_lineRest hd).bind fun _ he => he

/-! ## Quoted scalars -/

theorem scans_quotedBreaks (fuel : Nat) (h : c.In text) :
    Scans text (scanQuotedBreaks fuel c) := by
  induction fuel generalizing c with
  | zero => exact h
  | succ fuel ih =>
    rw [scanQuotedBreaks]
    refine .ite (fun _ => scans_malformed) fun _ => ?_
    dsimp only
    split
    · exact h.skip _
    · next hbreak => exact (ih ((h.skip _).of_lineBreak? hbreak)).bind fun _ hd => hd

theorem toNat_le_of_range {first last d : Char} (h : (first ≤ d && d ≤ last) = true) :
    d.toNat ≤ last.toNat := by
  rw [Bool.and_eq_true, decide_eq_true_eq, decide_eq_true_eq] at h
  exact h.2

theorem hexValue?_lt {d : Char} {n : Nat} (h : hexValue? d = some n) : n < 16 := by
  rw [hexValue?] at h
  split at h
  · next hrange =>
    cases h
    have hle : d.toNat ≤ 57 := toNat_le_of_range hrange
    omega
  · split at h
    · next hrange =>
      cases h
      have hle : d.toNat ≤ 102 := toNat_le_of_range hrange
      omega
    · split at h
      · next hrange =>
        cases h
        have hle : d.toNat ≤ 70 := toNat_le_of_range hrange
        omega
      · cases h

theorem hexNumber?_lt {digits : List Char} {n : Nat} (h : hexNumber? digits = some n) :
    n < 16 ^ digits.length := by
  have hfrom : ∀ m, digits.foldlM (fun n d => (hexValue? d).map (16 * n + ·)) m = some n →
      n < (m + 1) * 16 ^ digits.length := by
    clear h
    induction digits with
    | nil =>
      intro m hm
      cases hm
      simp
    | cons d rest ih =>
      intro m hm
      rw [List.foldlM_cons] at hm
      obtain ⟨k, hk, hrest⟩ := Option.bind_eq_some_iff.1 hm
      obtain ⟨value, hvalue, rfl⟩ := Option.map_eq_some_iff.1 hk
      have hlt := hexValue?_lt hvalue
      calc n < (16 * m + value + 1) * 16 ^ rest.length := ih _ hrest
        _ ≤ (16 * (m + 1)) * 16 ^ rest.length := Nat.mul_le_mul_right _ (by omega)
        _ = (m + 1) * 16 ^ (d :: rest).length := by
          rw [List.length_cons]
          ring
  have hlt := hfrom 0 h
  rwa [Nat.zero_add, Nat.one_mul] at hlt

/-- An escape that names no code point has eight digits. -/
theorem eq_of_lookup_numericEscapes {digits : List Char} {d : Char} {n : Nat}
    (hlookup : numericEscapes.lookup d = some digits.length)
    (hn : hexNumber? digits = some n) (hpast : 0x110000 ≤ n) : d = 'U' ∧ digits.length = 8 := by
  have hlt := hexNumber?_lt hn
  have hcases : ∀ entry ∈ numericEscapes, 16 ^ entry.2 ≤ 0x110000 ∨ entry = ('U', 8) := by decide
  obtain ⟨front, back, heq, -⟩ := List.lookup_eq_some_iff.1 hlookup
  have hmem : (d, digits.length) ∈ numericEscapes := by
    rw [heq]
    exact List.mem_append_right _ List.mem_cons_self
  rcases hcases _ hmem with hshort | hlong
  · exact absurd (Nat.lt_of_lt_of_le hlt hshort) (Nat.not_lt.2 hpast)
  · rwa [Prod.mk.injEq] at hlong

/-- The fault of an escape stands in the text. -/
theorem codePointOf_spec {digits : List Char} {d : Char} {n : Nat}
    (hescape : '\\' :: d :: digits <:+: text)
    (hlookup : numericEscapes.lookup d = some digits.length) (hn : hexNumber? digits = some n) :
    EndsIn (IsLexical text) (fun _ => True) (codePointOf n) := by
  rw [codePointOf]
  split
  · exact trivial
  · next hpast =>
    obtain ⟨rfl, hlength⟩ := eq_of_lookup_numericEscapes hlookup hn (Nat.not_lt.1 hpast)
    refine .ite (fun hlt => ?_) fun hover => ?_
    · exact ⟨digits, n, hescape, hlength, hn, Nat.not_lt.1 hpast, hlt⟩
    · exact ⟨digits, n, hescape, hlength, hn, Nat.not_lt.1 hover⟩

theorem scans_escape (hbackslash : '\\' :: c.rest <:+ text) : Scans text (scanEscape c) := by
  have h : c.In text := (List.suffix_cons _ _).trans hbackslash
  rw [scanEscape]
  split
  · exact scans_malformed
  · next d hd =>
    split
    · exact h.step
    · next width _ hwidth =>
      refine .ite (fun _ => scans_malformed) fun hlength => ?_
      split
      · exact scans_malformed
      · next n hn =>
        have hwhole : (c.step.rest.take width).length = width :=
          Nat.le_antisymm (List.length_take_le _ _) (Nat.not_lt.1 hlength)
        have hescape : '\\' :: d :: c.step.rest.take width <:+: text := by
          rw [Cursor.rest_of_peek hd] at hbackslash
          refine List.IsInfix.trans (List.IsPrefix.isInfix ?_) hbackslash.isInfix
          exact List.cons_prefix_cons.2 ⟨rfl, List.cons_prefix_cons.2 ⟨rfl, List.take_prefix _ _⟩⟩
        exact (codePointOf_spec hescape (by rw [hwidth, hwhole]) hn).bind
          fun _ _ => h.step.advance _
    · refine .ite (fun _ => ?_) fun _ => scans_malformed
      exact (scans_quotedBreaks _ h.skipLineBreak).bind fun _ hd => hd

theorem scans_quotedFrom (double : Bool) (fuel : Nat) (h : c.In text) :
    Scans text (scanQuotedFrom double fuel c) := by
  induction fuel generalizing c with
  | zero => exact scans_malformed
  | succ fuel ih =>
    rw [scanQuotedFrom]
    split
    · exact scans_malformed
    · next d rest hrest =>
      refine .ite (fun _ => ?_) fun _ => .ite (fun _ => h.step) fun _ =>
        .ite (fun hescape => ?_) fun _ => .ite (fun _ => ?_) fun _ => ?_
      · exact (ih (h.advance 2)).bind fun _ he => he
      · have hbackslash : '\\' :: c.step.rest <:+ text := by
          rw [Bool.and_eq_true, decide_eq_true_eq] at hescape
          rw [Cursor.step_rest, hrest, List.tail_cons, ← hescape.2, ← hrest]
          exact h
        exact (scans_escape hbackslash).bind fun _ he => (ih he).bind fun _ hf => hf
      · dsimp only
        split
        · next hbreak =>
          exact (scans_quotedBreaks _ ((h.span _).of_lineBreak? hbreak)).bind fun _ he =>
            (ih he).bind fun _ hf => hf
        · exact .check trivial ((ih (h.span _)).bind fun _ he => he)
      · exact (ih h.step).bind fun _ he => he

theorem scans_quoted (double : Bool) (h : c.In text) : Scans text (scanQuoted double c) :=
  scans_quotedFrom double _ h.step

/-! ## Block scalars -/

theorem endsIn_blockHeader (h : c.In text) :
    EndsIn (IsLexical text) (fun found => found.2.2.In text) (scanBlockHeader c) := by
  have hend : ∀ (chomping : Chomping) (indent : Option Nat) {d : Cursor}, d.In text →
      EndsIn (IsLexical text) (fun found => found.2.2.In text) (do
        if indent = some 0 || !endsWord (d.peek 0) then throw .malformed
        return (chomping, indent, d)) :=
    fun _ _ _ hd => .check trivial hd
  rw [scanBlockHeader]
  cases Chomping.ofSign? (c.peek 0) with
  | some chomping =>
    cases indentation? (c.peek 1) with
    | some n => exact hend chomping (some n) (h.advance 2)
    | none => exact hend chomping none h.step
  | none =>
    cases indentation? (c.peek 0) with
    | some n =>
      cases Chomping.ofSign? (c.peek 1) with
      | some chomping => exact hend chomping (some n) (h.advance 2)
      | none => exact hend .one (some n) h.step
    | none => exact hend .one none h

theorem blockIndentation_in (fuel greatest : Nat) (h : c.In text) :
    (scanBlockIndentation fuel greatest c).2.2.In text := by
  induction fuel generalizing greatest c with
  | zero => exact h
  | succ fuel ih =>
    rw [scanBlockIndentation]
    split
    · exact ih _ h.step
    · split
      · exact h
      · next hbreak => exact ih _ (h.of_lineBreak? hbreak)

theorem skipIndent_in (indent fuel : Nat) (h : c.In text) : (skipIndent indent fuel c).In text := by
  induction fuel generalizing c with
  | zero => exact h
  | succ fuel ih =>
    rw [skipIndent]
    split
    · exact ih h.step
    · exact h

theorem blockBreaks_in (indent fuel : Nat) (h : c.In text) :
    (scanBlockBreaks indent fuel c).2.In text := by
  induction fuel generalizing c with
  | zero => exact h
  | succ fuel ih =>
    rw [scanBlockBreaks]
    dsimp only
    split
    · exact skipIndent_in _ _ h
    · next hbreak => exact ih ((skipIndent_in _ _ h).of_lineBreak? hbreak)

theorem blockLines_in (fold : Bool) (indent : Nat) (breaks last : List Char) (fuel : Nat)
    (h : c.In text) : (scanBlockLines fold indent breaks last fuel c).cursor.In text := by
  induction fuel generalizing c breaks last with
  | zero => exact h
  | succ fuel ih =>
    rw [scanBlockLines]
    split
    · dsimp only
      split
      · next hbreak =>
        have hbreaks := fun fuel => blockBreaks_in indent fuel ((h.span _).of_lineBreak? hbreak)
        split
        · exact ih _ _ (hbreaks _)
        · exact hbreaks _
      · have hbreaks := fun fuel => blockBreaks_in indent fuel (h.span fun d => !isBreak d)
        split
        · exact ih _ _ (hbreaks _)
        · exact hbreaks _
    · exact h

theorem scans_block (fold : Bool) (outer : Int) (h : c.In text) :
    Scans text (scanBlock fold outer c) := by
  rw [scanBlock]
  refine (endsIn_blockHeader h.step).bind fun ⟨chomping, increment, d⟩ hd => ?_
  refine (endsIn_lineRest hd).bind fun e he => ?_
  refine blockLines_in _ _ _ _ _ ?_
  cases increment with
  | none => exact blockIndentation_in _ _ he
  | some n => exact blockBreaks_in _ _ he

/-! ## Plain scalars -/

theorem plainBreaks_in (fuel : Nat) (h : c.In text) : (plainBreaks fuel c).2.In text := by
  induction fuel generalizing c with
  | zero => exact h
  | succ fuel ih =>
    rw [plainBreaks]
    split
    · exact ih h.step
    · split
      · exact h
      · next hbreak =>
        have hd := h.of_lineBreak? hbreak
        split
        · exact hd
        · exact ih hd

theorem plainSpaces_in (h : c.In text) : (scanPlainSpaces c).2.2.In text := by
  rw [scanPlainSpaces]
  dsimp only
  split
  · exact h.span _
  · next hbreak =>
    have hd := (h.span _).of_lineBreak? hbreak
    split
    · exact hd
    · split
      · exact plainBreaks_in _ hd
      · exact plainBreaks_in _ hd

theorem plainFrom_in (inFlow : Bool) (indent : Int) (fuel : Nat) (h : c.In text) :
    (scanPlainFrom inFlow indent fuel c).2.2.In text := by
  induction fuel generalizing c with
  | zero => exact h
  | succ fuel ih =>
    have hspaces := plainSpaces_in (h.advance (plainRun inFlow c.rest).length)
    rw [scanPlainFrom]
    dsimp only
    split
    · exact hspaces
    · split
      · exact hspaces
      · exact ih hspaces

/-- No run of a plain scalar holds a line end. -/
theorem isBreak_of_mem_plainRun {inFlow : Bool} {cs : List Char} {d : Char}
    (hd : d ∈ plainRun inFlow cs) : isBreak d = false := by
  induction cs with
  | nil => cases hd
  | cons first rest ih =>
    rw [plainRun] at hd
    split at hd
    · cases hd
    · next hends =>
      rcases List.mem_cons.1 hd with rfl | hmem
      · rw [Bool.not_eq_true, endsPlain] at hends
        simp only [Bool.or_eq_false_iff] at hends
        exact hends.1.1.2
      · exact ih hmem

/-- What stands behind the next character is shorter. -/
theorem length_lt_of_in_step {d : Cursor} (hne : c.rest ≠ []) (h : d.In c.step.rest) :
    d.rest.length < c.rest.length := by
  have hle := h.length_le
  have hpos := List.length_pos_iff.2 hne
  rw [Cursor.step_rest, List.length_tail] at hle
  omega

/-- What parts two runs takes up some of the text. -/
theorem plainSpaces_shorter (hne : (scanPlainSpaces c).1 ≠ []) :
    (scanPlainSpaces c).2.2.rest.length < c.rest.length := by
  rw [scanPlainSpaces] at hne ⊢
  dsimp only at hne ⊢
  split at hne
  · -- a run of blanks
    cases hblanks : c.rest.takeWhile (· = ' ') with
    | nil => exact absurd (congrArg Text.ofChars hblanks) hne
    | cons blank blanks =>
      have hspan : (c.span (· = ' ')).2 = c.step.advance blanks.length := by
        rw [Cursor.span, hblanks]
        rfl
      have hrest : c.rest ≠ [] := by
        rintro heq
        rw [heq] at hblanks
        cases hblanks
      dsimp only
      rw [hspan]
      exact length_lt_of_in_step hrest (Cursor.In.advance (List.suffix_refl _) _)
  · next b d hbreak =>
    have hle : (c.span (· = ' ')).2.rest.length ≤ c.rest.length :=
      (Cursor.In.span (List.suffix_refl c.rest) _).length_le
    have hlt : ∀ {e : Cursor}, e.In d.rest → e.rest.length < c.rest.length := by
      intro e he
      obtain ⟨hrest, hd⟩ := Cursor.lineBreak?_cases hbreak
      refine Nat.lt_of_lt_of_le (length_lt_of_in_step hrest ?_) hle
      rcases hd with rfl | rfl
      · exact he
      · exact he.trans (Cursor.In.step (List.suffix_refl _))
    split
    · exact hlt (List.suffix_refl _)
    · split
      · exact hlt (plainBreaks_in _ (List.suffix_refl _))
      · exact hlt (plainBreaks_in _ (List.suffix_refl _))

theorem plainFrom_ne_nil {inFlow : Bool} (indent : Int) {fuel : Nat} (hfuel : 0 < fuel)
    (hrun : plainRun inFlow c.rest ≠ []) : (scanPlainFrom inFlow indent fuel c).1 ≠ [] := by
  obtain ⟨fuel, rfl⟩ := Nat.exists_eq_add_one_of_ne_zero (Nat.ne_of_gt hfuel)
  have hpart : Text.ofChars (plainRun inFlow c.rest) ≠ [] := by
    rwa [Text.ofChars, ne_eq, List.map_eq_nil_iff]
  rw [scanPlainFrom]
  dsimp only
  split
  · exact hpart
  · split
    · exact hpart
    · simp [hpart]

theorem getLast?_plainRun (inFlow : Bool) (cs : List Char) :
    ∀ d ∈ (Text.ofChars (plainRun inFlow cs)).getLast?, d ≠ CodePoint.ofChar '\n' := by
  intro d hd
  obtain ⟨ch, hch, rfl⟩ := List.mem_map.1 (List.mem_of_getLast? hd)
  intro heq
  have hbreak := isBreak_of_mem_plainRun hch
  have hval : ch.toNat = '\n'.toNat := congrArg CodePoint.val heq
  rw [Char.toNat_inj.1 hval] at hbreak
  cases hbreak

/-- A plain scalar ends in a run, if it is not empty. -/
theorem getLast?_plainFrom (inFlow : Bool) (indent : Int) (fuel : Nat)
    (hfuel : c.rest.length < fuel) :
    ∀ d ∈ (scanPlainFrom inFlow indent fuel c).1.getLast?, d ≠ CodePoint.ofChar '\n' := by
  induction fuel generalizing c with
  | zero => exact absurd hfuel (Nat.not_lt_zero _)
  | succ fuel ih =>
    rw [scanPlainFrom]
    cases hfound : scanPlainSpaces (c.advance (plainRun inFlow c.rest).length) with
    | mk spaces behind =>
    obtain ⟨ended, d⟩ := behind
    dsimp only
    split
    · exact getLast?_plainRun inFlow c.rest
    · next hspaces =>
      split
      · exact getLast?_plainRun inFlow c.rest
      · next hmore =>
        -- the runs go on, so the fuel is not used up
        have hshort : d.rest.length < c.rest.length := by
          have hlt := plainSpaces_shorter (c := c.advance (plainRun inFlow c.rest).length) (by
            rw [hfound]
            rintro rfl
            simp at hspaces)
          rw [hfound] at hlt
          exact Nat.lt_of_lt_of_le hlt (Cursor.In.advance (List.suffix_refl c.rest) _).length_le
        have hnext : (scanPlainFrom inFlow indent fuel d).1 ≠ [] :=
          plainFrom_ne_nil _ (by omega) (by simpa using hmore)
        intro e he
        rw [Option.mem_def, List.getLast?_append, List.getLast?_eq_some_getLast hnext,
          Option.some_or, ← List.getLast?_eq_some_getLast hnext] at he
        exact ih (Nat.lt_of_lt_of_le hshort (Nat.le_of_lt_succ hfuel)) e he

/-- A plain scalar is read from the text and does not end in a line end. -/
theorem plain_spec (inFlow : Bool) (indent : Int) (h : c.In text) :
    (scanPlain inFlow indent c).2.2.In text ∧
      ∀ d ∈ (scanPlain inFlow indent c).1.getLast?, d ≠ CodePoint.ofChar '\n' :=
  ⟨plainFrom_in _ _ _ h, getLast?_plainFrom _ _ _ (Nat.lt_succ_self _)⟩

end Scanners

end SiteRules.Yaml
