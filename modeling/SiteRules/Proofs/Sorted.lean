/-!
# Strictly sorted lists

A list that is sorted without ties is settled by its members. So it is what sorting gives for every
list with the same members, whatever their order there.
-/

namespace SiteRules.Sorted

variable {α : Type}

/-- Of two members of a list that is sorted without ties, one comes before the other one. -/
theorem eq_or_rel_of_pairwise {R : α → α → Prop} {l : List α} (h : l.Pairwise R) {a b : α}
    (ha : a ∈ l) (hb : b ∈ l) : a = b ∨ R a b ∨ R b a := by
  obtain ⟨i, hi, rfl⟩ := List.mem_iff_getElem.1 ha
  obtain ⟨j, hj, rfl⟩ := List.mem_iff_getElem.1 hb
  rw [List.pairwise_iff_getElem] at h
  rcases Nat.lt_trichotomy i j with hij | rfl | hji
  · exact .inr (.inl (h i j hi hj hij))
  · exact .inl rfl
  · exact .inr (.inr (h j i hj hi hji))

/-- Two lists with the same members that are sorted by the same strict order are the same. -/
theorem eq_of_pairwise {R : α → α → Prop} (asymm : ∀ {a b}, R a b → ¬R b a) {l l' : List α}
    (h : l.Pairwise R) (h' : l'.Pairwise R) (hmem : ∀ a, a ∈ l ↔ a ∈ l') : l = l' := by
  have hne : ∀ {a b}, R a b → a ≠ b := by
    rintro a b hab rfl
    exact asymm hab hab
  have hnodup : ∀ {l : List α}, l.Pairwise R → l.Nodup := fun h => h.imp hne
  have hperm := (List.perm_ext_iff_of_nodup (hnodup h) (hnodup h')).2 hmem
  exact hperm.eq_of_pairwise (fun a b _ _ hab hba => absurd hba (asymm hab)) h h'

section MergeSort

variable (le : α → α → Bool) (trans : ∀ a b c, le a b = true → le b c = true → le a c = true)
  (total : ∀ a b, (le a b || le b a) = true)

include trans total

/-- Sorting gives the list that has the same members and is sorted without ties. -/
theorem mergeSort_eq {l l' : List α} (hperm : l.Perm l')
    (h : l'.Pairwise fun a b => le b a = false) : l.mergeSort le = l' := by
  have hle : l'.Pairwise fun a b => le a b = true :=
    h.imp fun {a b} hba => by simpa [hba] using total a b
  have hsorted := hperm.symm.trans (List.mergeSort_perm l le).symm
  refine List.Perm.eq_of_pairwise ?_ (List.pairwise_mergeSort trans total l) hle hsorted.symm
  intro a b ha hb hab hba
  rcases eq_or_rel_of_pairwise h (hsorted.mem_iff.2 ha) hb with heq | hlt | hlt
  · exact heq
  · simp [hba] at hlt
  · simp [hab] at hlt

/-- A list whose members never tie is sorted without ties. -/
theorem pairwise_mergeSort {l : List α}
    (h : l.Pairwise fun a b => ¬(le a b = true ∧ le b a = true)) :
    (l.mergeSort le).Pairwise fun a b => le b a = false := by
  have hne := (List.mergeSort_perm l le).symm.pairwise h fun hab hba => hab ⟨hba.2, hba.1⟩
  refine ((List.pairwise_mergeSort trans total l).and hne).imp fun {a b} hab => ?_
  rw [← Bool.not_eq_true]
  exact fun hba => hab.2 ⟨hab.1, hba⟩

end MergeSort

end SiteRules.Sorted
