import SiteRules.Proofs.Text.Utf8
import SiteRules.Proofs.Yaml.Column

/-!
# Runs

A scalar is written run by run. The runs of a text make it up again, each is of one kind, and two
runs of one kind are never side by side (`Sheet.runs_spec`).
-/

namespace SiteRules.Yaml

/-! ## Code points that are not special -/

/-- What is not special is a character that is written, and it is a line end or a blank of a text
just if the character is one. -/
theorem isWritten_of_not_isSpecial {c : CodePoint} (h : Style.isSpecial c = false) :
    c = CodePoint.ofChar c.toChar ∧ isWritten c.toChar = true ∧
      isBreak c.toChar = Style.isBreak c ∧ (isSpace c.toChar = true → c.toChar = ' ') := by
  have hrange : c = CodePoint.ofChar '\n' ∨ (0x20 ≤ c.val ∧ c.val ≤ 0x7e) ∨
      (c = CodePoint.ofChar '\x85' ∨ (0xa0 ≤ c.val ∧ c.val ≤ 0xd7ff) ∨
        (0xe000 ≤ c.val ∧ c.val ≤ 0xfffd) ∨ (0x10000 ≤ c.val ∧ c.val < 0x10ffff)) ∧
        c.val ≠ 0xfeff := by
    simp only [Style.isSpecial, Bool.not_eq_false', Bool.or_eq_true, Bool.and_eq_true,
      decide_eq_true_eq] at h
    tauto
  simp only [CodePoint.eq_ofChar_iff] at hrange
  have hsurrogate : c.isSurrogate = false := by
    rw [CodePoint.isSurrogate, Bool.and_eq_false_iff, decide_eq_false_iff_not,
      decide_eq_false_iff_not]
    have hfeed : '\n'.toNat = 0xa := rfl
    have hnext : '\x85'.toNat = 0x85 := rfl
    omega
  have hchar := CodePoint.ofChar_toChar hsurrogate
  generalize c.toChar = d at hchar ⊢
  subst hchar
  have hval : (CodePoint.ofChar d).val = d.toNat := rfl
  have hfeed : '\n'.toNat = 0xa := rfl
  have hnext : '\x85'.toNat = 0x85 := rfl
  rw [hval, hfeed, hnext] at hrange
  have hwritten : isWritten d = true := isWritten_of_toNat (by omega) (by omega)
  refine ⟨rfl, hwritten, ?_, fun hspace => ?_⟩
  · have heq : ∀ e : Char, (d = e) = (CodePoint.ofChar d = CodePoint.ofChar e) := fun e =>
      propext ⟨congrArg CodePoint.ofChar, fun heq => by
        rw [← CodePoint.toChar_ofChar d, heq, CodePoint.toChar_ofChar]⟩
    simp only [isBreak_of_isWritten hwritten, Style.isBreak, heq]
  · rw [isSpace, Bool.or_eq_true, decide_eq_true_eq, decide_eq_true_eq] at hspace
    refine hspace.resolve_right (ne_of_toNat ?_)
    show d.toNat ≠ 9
    omega

namespace Sheet

/-! ## The runs of a text -/

/-- The text that runs make up. -/
def ofRuns (rs : List (Run × Text)) : Text :=
  rs.flatMap Prod.snd

/-- Runs are not empty, each is of its kind, and the kinds alternate. -/
inductive AreRuns : List (Run × Text) → Prop
  | nil : AreRuns []
  | cons {kind : Run} {run : Text} {rest : List (Run × Text)} (hne : run ≠ [])
      (hkind : ∀ c ∈ run, Run.of c = kind) (hnext : ∀ r ∈ rest.head?, r.1 ≠ kind)
      (hrest : AreRuns rest) : AreRuns ((kind, run) :: rest)

theorem runs_spec (t : Text) : AreRuns (runs t) ∧ ofRuns (runs t) = t := by
  induction t with
  | nil => exact ⟨.nil, rfl⟩
  | cons c rest ih =>
    obtain ⟨hruns, htext⟩ := ih
    rw [runs]
    split
    · next heq =>
      rw [heq] at htext
      refine ⟨.cons (List.cons_ne_nil _ _) (List.forall_mem_singleton.2 rfl) ?_ .nil, ?_⟩
      · exact fun r hr => by cases hr
      · rw [← htext]
        rfl
    · next kind run more heq =>
      rw [heq] at hruns htext
      cases hruns with
      | cons hne hkind hnext hmore =>
        split
        · next hsame =>
          refine ⟨.cons (List.cons_ne_nil _ _) (List.forall_mem_cons.2 ⟨hsame.symm, hkind⟩) hnext
            hmore, ?_⟩
          rw [← htext]
          rfl
        · next hother =>
          refine ⟨.cons (List.cons_ne_nil _ _) (List.forall_mem_singleton.2 rfl) ?_
            (.cons hne hkind hnext hmore), ?_⟩
          · rintro _ ⟨rfl⟩
            exact hother
          · rw [← htext]
            rfl

/-- A text has no other runs. -/
theorem runs_ofRuns {rs : List (Run × Text)} (h : AreRuns rs) : runs (ofRuns rs) = rs := by
  have hone : ∀ {kind : Run} {run : Text} {rest : List (Run × Text)}, run ≠ [] →
      (∀ c ∈ run, Run.of c = kind) → (∀ r ∈ rest.head?, r.1 ≠ kind) → runs (ofRuns rest) = rest →
      runs (run ++ ofRuns rest) = (kind, run) :: rest := by
    intro kind run rest hne hkind hnext hrest
    induction run with
    | nil => exact absurd rfl hne
    | cons c more ih =>
      obtain ⟨hc, hmore⟩ := List.forall_mem_cons.1 hkind
      cases more with
      | nil =>
        rw [List.singleton_append, runs, hrest, hc]
        cases rest with
        | nil => rfl
        | cons r rest => exact if_neg (hnext r rfl)
      | cons d more =>
        rw [List.cons_append, runs, ih (List.cons_ne_nil _ _) hmore, hc]
        exact if_pos rfl
  induction h with
  | nil => rfl
  | cons hne hkind hnext _ ih => exact hone hne hkind hnext ih

theorem Run.of_eq_blanks {c : CodePoint} (h : Run.of c = .blanks) : c = CodePoint.ofChar ' ' := by
  rw [Run.of] at h
  split at h
  · next heq => exact heq
  · split at h <;> cases h

theorem Run.of_eq_breaks {c : CodePoint} (h : Run.of c = .breaks) : Style.isBreak c = true := by
  rw [Run.of] at h
  split at h
  · cases h
  · split at h
    · next heq => exact heq
    · cases h

theorem Run.of_eq_words {c : CodePoint} (h : Run.of c = .words) :
    c ≠ CodePoint.ofChar ' ' ∧ Style.isBreak c = false := by
  rw [Run.of] at h
  split at h
  · cases h
  · next hblank =>
    split at h
    · cases h
    · next hbreak => exact ⟨hblank, Bool.eq_false_iff.2 hbreak⟩

/-- A run of blanks holds nothing else. -/
theorem eq_replicate_of_blanks {run : Text} (h : ∀ c ∈ run, Run.of c = .blanks) :
    run = List.replicate run.length (CodePoint.ofChar ' ') :=
  List.eq_replicate_iff.2 ⟨rfl, fun c hc => Run.of_eq_blanks (h c hc)⟩

end Sheet

/-- The character of a code point in a word is neither a blank nor a line end. -/
theorem exists_char_of_words {c : CodePoint} (hspecial : Style.isSpecial c = false)
    (hkind : Sheet.Run.of c = .words) : c = CodePoint.ofChar c.toChar ∧
      isWritten c.toChar = true ∧ isBreak c.toChar = false ∧ isSpace c.toChar = false := by
  obtain ⟨hchar, hwritten, hbreak, hspace⟩ := isWritten_of_not_isSpecial hspecial
  obtain ⟨hblank, hline⟩ := Sheet.Run.of_eq_words hkind
  refine ⟨hchar, hwritten, hbreak.trans hline, ?_⟩
  by_contra hgap
  rw [Bool.not_eq_false] at hgap
  exact hblank (hchar.trans (congrArg CodePoint.ofChar (hspace hgap)))

/-- A text whose code points are characters. -/
theorem ofChars_map_toChar {run : Text} (h : ∀ c ∈ run, c = CodePoint.ofChar c.toChar) :
    Text.ofChars (run.map CodePoint.toChar) = run := by
  rw [Text.ofChars, List.map_map]
  exact (List.map_congr_left fun c hc => (h c hc).symm).trans (List.map_id _)

end SiteRules.Yaml
