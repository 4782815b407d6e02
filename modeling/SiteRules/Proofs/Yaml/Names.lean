import SiteRules.Proofs.Number.Spelling
import SiteRules.Proofs.Value.Equality
import SiteRules.Yaml.Writer

/-!
# Names of marks

No two marks are given the same name (`Draft.distinct_gather`), and no two names have the same text.
-/

namespace SiteRules.Yaml

/-- Names with the same text are the same. -/
theorem nameText_injective {m n : Nat} (h : nameText m = nameText n) : m = n := by
  have hread (n : Nat) : Nat.ofDigitChars 10 ((nameText n).drop 2) 0 = n :=
    (Binary64.zeros_ofDigitChars _ _).trans Nat.ofDigitChars_ten_toDigits
  rw [← hread m, h, hread n]

namespace Draft

/-- Each name is given once, and the next name is a new one. -/
structure Names.Distinct (names : Names) : Prop where
  below : ∀ e ∈ names.named, e.2 ≤ names.named.length
  nodup : (names.named.map Prod.snd).Nodup

theorem Names.mem_named {names : Names} {mark : Mark} {n : Nat} (h : names.name? mark = some n) :
    (mark, n) ∈ names.named := by
  obtain ⟨front, back, heq, -⟩ := List.lookup_eq_some_iff.1 h
  rw [heq]
  exact List.mem_append_right _ List.mem_cons_self

/-- A name belongs to one mark only. -/
theorem Names.Distinct.unique {names : Names} (h : names.Distinct) {mark mark' : Mark} {n : Nat}
    (hname : names.name? mark = some n) (hname' : names.name? mark' = some n) : mark = mark' :=
  congrArg Prod.fst (List.inj_on_of_nodup_map h.nodup (mem_named hname) (mem_named hname') rfl)

theorem Names.Distinct.meetAgain {names : Names} (h : names.Distinct) (mark : Mark) :
    (names.meetAgain mark).Distinct := by
  unfold Names.meetAgain
  split
  · exact h
  · refine ⟨List.forall_mem_cons.2 ⟨Nat.le_refl _, fun e he => (h.below e he).trans
      (Nat.le_succ _)⟩, List.nodup_cons.2 ⟨fun hmem => ?_, h.nodup⟩⟩
    obtain ⟨e, he, heq⟩ := List.mem_map.1 hmem
    have hle := h.below e he
    omega

mutual

theorem distinct_gather : (v : Value) → {names : Names} → names.Distinct → (gather v names).Distinct
  | .shared mark v, names, h => by
    rw [gather]
    split
    · exact h.meetAgain mark
    · exact distinct_gather v ⟨h.below, h.nodup⟩
  | .cycle mark, _, h => h.meetAgain mark
  | .list items, _, h | .tuple items, _, h | .set items, _, h => distinct_gatherAll items h
  | .map entries, _, h => distinct_gatherEntries entries h
  | .null, _, h | .bool _, _, h | .int _, _, h | .float _, _, h | .text _, _, h | .bytes _, _, h
  | .date _, _, h | .moment _, _, h => h

theorem distinct_gatherAll : (vs : List Value) → {names : Names} → names.Distinct →
    (gatherAll vs names).Distinct
  | [], _, h => h
  | v :: rest, _, h => distinct_gatherAll rest (distinct_gather v h)

theorem distinct_gatherEntries : (entries : List (Value × Value)) → {names : Names} →
    names.Distinct → (gatherEntries entries names).Distinct
  | [], _, h => h
  | (k, v) :: rest, _, h =>
    distinct_gatherEntries rest (distinct_gather v (distinct_gather k h))

end

end Draft

end SiteRules.Yaml
