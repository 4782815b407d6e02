import SiteRules.Proofs.Store.Alike
import SiteRules.Proofs.Store.Resolution

/-!
# Writes that commute

Two writes to different patterns give the same records in either order, but the order of their two
patterns is not the same in the end. This matters only if the patterns have the same rank. If they
have not, the two stores are alike within each rank (`Tracks.alike_merge_comm`), they stay so
whatever is written to both of them next (`Alike.mergeAll`), and so they answer alike
(`merge_comm_answers`).
-/

namespace SiteRules.Store

variable {κ ν : Type} [BEq κ]

/-! ## Several writes -/

/-- The store after several writes, each given by a pattern, a key and a value. -/
def mergeAll (s : Store κ ν) (later : List (Text × κ × ν)) : Store κ ν :=
  later.foldl (fun s write => s.merge write.1 write.2.1 write.2.2) s

theorem Tracks.mergeAll {s : Store κ ν} {writes : List Text} (h : s.Tracks writes)
    (later : List (Text × κ × ν)) : (s.mergeAll later).Tracks (writes ++ later.map Prod.fst) := by
  induction later generalizing s writes with
  | nil =>
    rw [List.map_nil, List.append_nil]
    exact h
  | cons write rest ih =>
    have hrest := ih (h.merge write.1 write.2.1 write.2.2)
    rw [List.append_assoc] at hrest
    exact hrest

/-- The same writes keep two stores alike. -/
theorem Alike.mergeAll {tied : Text → Text → Prop} {s t : Store κ ν} (h : Alike tied s t)
    {writes writes' : List Text} (hs : s.Tracks writes) (ht : t.Tracks writes')
    (later : List (Text × κ × ν)) : Alike tied (s.mergeAll later) (t.mergeAll later) := by
  induction later generalizing s t writes writes' with
  | nil => exact h
  | cons write rest ih =>
    exact ih (h.merge hs ht write.1 write.2.1 write.2.2) (hs.merge ..) (ht.merge ..)

/-! ## Two writes in either order -/

theorem get?_merge_comm (s : Store κ ν) {p q : Text} (hne : p ≠ q) (k j : κ) (v w : ν) (x : Text) :
    ((s.merge p k v).merge q j w).get? x = ((s.merge q j w).merge p k v).get? x := by
  have hq : (s.merge p k v).get? q = s.get? q := by rw [get?_merge, if_neg hne]
  have hp : (s.merge q j w).get? p = s.get? p := by rw [get?_merge, if_neg hne.symm]
  rw [get?_merge, get?_merge (s.merge q j w), hp, hq, get?_merge, get?_merge]
  by_cases hpx : p = x
  · have hqx : q ≠ x := fun h => hne (hpx.trans h.symm)
    rw [if_neg hqx, if_pos hpx, if_pos hpx]
  · rw [if_neg hpx, if_neg hpx]

/-- Two writes in either order give stores that are alike, unless their patterns are tied. -/
theorem Tracks.alike_merge_comm {tied : Text → Text → Prop} {s : Store κ ν} {writes : List Text}
    (h : s.Tracks writes) {p q : Text} (hne : p ≠ q) (hpq : ¬tied p q) (hqp : ¬tied q p) (k j : κ)
    (v w : ν) : Alike tied ((s.merge p k v).merge q j w) ((s.merge q j w).merge p k v) := by
  refine ⟨s.get?_merge_comm hne k j v w, fun a b hab => ?_⟩
  rw [(h.merge p k v).earlier_merge_iff, h.earlier_merge_iff, (h.merge q j w).earlier_merge_iff,
    h.earlier_merge_iff]
  by_cases hpa : p = a
  · -- in one order `p` is before `q`, in the other one after it, but the two are not tied
    subst hpa
    have hqb : q ≠ b := fun heq => hpq (heq ▸ hab)
    simp [hqb]
  by_cases hqa : q = a
  · subst hqa
    have hpb : p ≠ b := fun heq => hqp (heq ▸ hab)
    simp [hpb]
  -- neither write is to `a`
  rw [get?_merge, get?_merge, if_neg hpa, if_neg hqa]
  by_cases hpb : p = b
  · subst hpb
    simp [hpa, hqa, hne.symm]
  · simp [hpa, hqa, hpb]

/-- Two writes to patterns of different ranks can be made in either order. The two stores are equal,
list their patterns and their records in the same order and resolve every URL and every pattern
alike, then and after any further writes. -/
theorem merge_comm_answers [EquivBEq κ] [BEq ν] [ReflBEq ν] {s : Store κ ν} {writes : List Text}
    (built : Built s writes) {p q : Text} (hrank : rank p ≠ rank q) (k j : κ) (v w : ν)
    (later : List (Text × κ × ν)) :
    let t := ((s.merge p k v).merge q j w).mergeAll later
    let u := ((s.merge q j w).merge p k v).mergeAll later
    (t == u) = true ∧ t.patterns = u.patterns ∧ t.ranked = u.ranked ∧
      (∀ source, t.resolveUrl source = u.resolveUrl source) ∧
      ∀ source, t.resolvePattern source = u.resolvePattern source := by
  have htracks := built.tracks
  have hne : p ≠ q := fun heq => hrank (congrArg rank heq)
  have hpq := (htracks.merge p k v).merge q j w
  have hqp := (htracks.merge q j w).merge p k v
  have hties : ¬SameRank p q ∧ ¬SameRank q p := ⟨hrank, Ne.symm hrank⟩
  have halike := htracks.alike_merge_comm hne hties.1 hties.2 k j v w
  have hlater := halike.mergeAll hpq hqp later
  have ht := hpq.mergeAll later
  have hu := hqp.mergeAll later
  exact ⟨hlater.beq, hlater.patterns_eq ht hu, hlater.ranked_eq ht hu,
    hlater.resolveUrl_eq ht hu, hlater.resolvePattern_eq ht hu⟩

/-- A domain and `*` are written in either order, and then a site inside the domain. The stores
differ in which of the two was written last, but the site gets the same. -/
theorem merge_comm_answers_nested : Built nested nestedWrites ∧
    rank (Text.ofString "https://*.b.c") ≠ rank (Text.ofString "*") ∧
    let later := [(Text.ofString "https://a.b.c", 1, 70)]
    let t := ((nested.merge (Text.ofString "https://*.b.c") 2 50).merge (Text.ofString "*") 2
      60).mergeAll later
    let u := ((nested.merge (Text.ofString "*") 2 60).merge (Text.ofString "https://*.b.c") 2
      50).mergeAll later
    t.Earlier (Text.ofString "https://*.b.c") (Text.ofString "*") ∧
      u.Earlier (Text.ofString "*") (Text.ofString "https://*.b.c") ∧ (t == u) = true ∧
      t.resolveUrl (Text.ofString "https://a.b.c/") =
        u.resolveUrl (Text.ofString "https://a.b.c/") := by
  have hrank : rank (Text.ofString "https://*.b.c") ≠ rank (Text.ofString "*") := by decide
  obtain ⟨hbeq, -, -, hurl, -⟩ := merge_comm_answers built_nested hrank 2 2 50 60
    [(Text.ofString "https://a.b.c", 1, 70)]
  exact ⟨built_nested, hrank, ⟨_, _, rfl, rfl, by decide⟩, ⟨_, _, rfl, rfl, by decide⟩, hbeq,
    hurl _⟩

end SiteRules.Store
