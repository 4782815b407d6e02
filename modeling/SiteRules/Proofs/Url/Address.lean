import SiteRules.Proofs.Text.Lower
import SiteRules.Url.Address

/-!
# Theory of internet addresses

Which code points an address is made of, and that the case of its hexadecimal digits does not count
(`Address.isVersion6Unscoped_small`).
-/

namespace SiteRules.Address

/-! ## Version 4 -/

/-- A version 4 address is made of digits and points. -/
theorem mem_of_isVersion4 {t : Text} (h : isVersion4 t = true) {c : CodePoint} (hc : c ∈ t) :
    c = CodePoint.ofChar '.' ∨ c.isBasicDigit = true := by
  by_cases hpoint : c = CodePoint.ofChar '.'
  · exact .inl hpoint
  · right
    obtain ⟨piece, hpiece, hmem⟩ := Text.exists_mem_splitAt hpoint hc
    rw [isVersion4, Bool.and_eq_true] at h
    have hoctet := List.all_eq_true.1 h.2 piece hpiece
    simp only [isOctet, Bool.and_eq_true] at hoctet
    exact List.all_eq_true.1 hoctet.1.1.2 c hmem

/-! ## Changes of case -/

open CodePoint (small small_eq_iff)

theorem isOctet_small (t : Text) : isOctet (t.map small) = isOctet t := by
  have hdigits : (t.map small).all CodePoint.isBasicDigit = t.all CodePoint.isBasicDigit := by
    rw [List.all_map]
    exact List.all_congr rfl CodePoint.isBasicDigit_small
  by_cases hall : t.all CodePoint.isBasicDigit = true
  · have hsame : t.map small = t.map id := by
      refine List.map_congr_left fun c hc => CodePoint.small_eq_self ?_
      have hdigit := CodePoint.isBasicDigit_iff.1 (List.all_eq_true.1 hall c hc)
      rw [← Bool.not_eq_true, CodePoint.isBasicLetter_iff]
      omega
    rw [hsame, List.map_id]
  · -- neither text is made of digits
    rw [Bool.not_eq_true] at hall
    simp only [isOctet, hdigits, hall, Bool.and_false, Bool.false_and]

theorem isGroup_small (t : Text) : isGroup (t.map small) = isGroup t := by
  have hdigits : (t.map small).all CodePoint.isHexDigit = t.all CodePoint.isHexDigit := by
    rw [List.all_map]
    exact List.all_congr rfl CodePoint.isHexDigit_small
  simp only [isGroup, List.length_map, hdigits]

theorem isVersion4_small (t : Text) : isVersion4 (t.map small) = isVersion4 t := by
  have hsplit := Text.splitAt_map fun c (_ : c ∈ t) =>
    small_eq_iff (c := c) (show (CodePoint.ofChar '.').isBasicLetter = false by decide)
  have hoctets : ((t.splitAt '.').map (List.map small)).all isOctet =
      (t.splitAt '.').all isOctet := by
    rw [List.all_map]
    exact List.all_congr rfl isOctet_small
  simp only [isVersion4, hsplit, List.length_map, hoctets]

theorem areGroups_small (parts : List Text) :
    areGroups (parts.map (List.map small)) = areGroups parts := by
  -- whether a part is empty or a group does not depend on the case of its letters
  have hempty : List.isEmpty ∘ List.map small = List.isEmpty := funext fun part => by
    cases part <;> rfl
  have hfilled : (fun part => !List.isEmpty part) ∘ List.map small =
      fun part => !List.isEmpty part := funext fun part => by
    cases part <;> rfl
  have hgroup : isGroup ∘ List.map small = isGroup := funext isGroup_small
  have hends : ∀ l : List Text, (if l.map (List.map small) = [[]] then [] else
      l.map (List.map small)) = (if l = [[]] then [] else l).map (List.map small) := by
    intro l
    have hiff : l.map (List.map small) = [[]] ↔ l = [[]] := by
      simp [List.map_eq_singleton_iff]
    by_cases hl : l = [[]]
    · rw [if_pos (hiff.2 hl), if_pos hl]
      rfl
    · rw [if_neg (fun hmap => hl (hiff.1 hmap)), if_neg hl]
  simp only [areGroups, List.length_map, ← List.map_drop, ← List.map_dropLast, ← List.map_take,
    List.countP_map, List.takeWhile_map, hempty, hfilled, hends, List.all_map, hgroup]

/-- Whether a text spells an address does not depend on the case of its letters. -/
theorem isVersion6Unscoped_small (t : Text) :
    isVersion6Unscoped (t.map small) = isVersion6Unscoped t := by
  have hsplit := Text.splitAt_map fun c (_ : c ∈ t) =>
    small_eq_iff (c := c) (show (CodePoint.ofChar ':').isBasicLetter = false by decide)
  have hpoint : ∀ part : Text, (part.map small).any (· = CodePoint.ofChar '.') =
      part.any (· = CodePoint.ofChar '.') := by
    intro part
    rw [List.any_map]
    refine List.any_congr rfl fun c => ?_
    rw [Function.comp_apply, decide_eq_decide]
    exact small_eq_iff (by decide)
  have hzeros : [Text.ofChars ['0'], Text.ofChars ['0']] =
      [Text.ofChars ['0'], Text.ofChars ['0']].map (List.map small) := by decide
  simp only [isVersion6Unscoped, hsplit, List.getLast?_map, List.length_map, ← List.map_dropLast]
  cases (t.splitAt ':').getLast? with
  | none => rfl
  | some last =>
    simp only [Option.map_some, hpoint, isVersion4_small]
    rw [hzeros, ← List.map_append, areGroups_small, areGroups_small, ← hzeros]

end SiteRules.Address
