import Mathlib.Data.Finset.Card
import Mathlib.Logic.Relation
import SiteRules.Value.Entries
import SiteRules.Yaml.Graph.Check

/-!
# What the nodes of a graph spell

A node spells a value without marks if it is a scalar that is read as the value, or a collection
whose children spell what is in the value (`Graph.Spells`). It spells one value only
(`Graph.Spells.unique`), and it is not among its own descendants (`Graph.Spells.not_below_self`).
The check of a graph whose root spells a value finds nothing and changes nothing
(`Graph.check_of_spells`).
-/

namespace SiteRules.Yaml

namespace Graph

open Checker (isCollection)

/-- A node spells a value without marks. The keys of a mapping and the members of a set are no
collections, and whatever a member has beside it spells a value as well. -/
inductive Spells (g : Graph) : Nat → Value → Prop
  | scalar {n : Nat} {tag : Tag} {content : Text} {v : Value} (hget : g.get n = .scalar tag content)
      (htag : isCollection tag = false) (hread : Scalar.read tag n content = .ok v) : Spells g n v
  | list {n : Nat} {items : List Nat} {vs : List Value} (hget : g.get n = .sequence .seq items)
      (hlength : items.length = vs.length) (h : ∀ p ∈ items.zip vs, Spells g p.1 p.2) :
      Spells g n (.list vs)
  | map {n : Nat} {entries : List (Nat × Nat)} {ks vs : List Value}
      (hget : g.get n = .mapping .map entries)
      (hkeys : ∀ e ∈ entries, isCollection (g.get e.1).tag = false)
      (hlength : entries.length = ks.length ∧ entries.length = vs.length)
      (hks : ∀ p ∈ (entries.map Prod.fst).zip ks, Spells g p.1 p.2)
      (hvs : ∀ p ∈ (entries.map Prod.snd).zip vs, Spells g p.1 p.2) :
      Spells g n (.ofEntries (ks.zip vs))
  | set {n : Nat} {entries : List (Nat × Nat)} {ks vs : List Value}
      (hget : g.get n = .mapping .set entries)
      (hkeys : ∀ e ∈ entries, isCollection (g.get e.1).tag = false)
      (hlength : entries.length = ks.length ∧ entries.length = vs.length)
      (hks : ∀ p ∈ (entries.map Prod.fst).zip ks, Spells g p.1 p.2)
      (hvs : ∀ p ∈ (entries.map Prod.snd).zip vs, Spells g p.1 p.2) :
      Spells g n (.ofMembers ks)

/-- What each of several nodes spells is told by the nodes, if it is told by each of them. -/
theorem eq_of_zip {g : Graph} {items : List Nat} {vs vs' : List Value}
    (hlength : items.length = vs.length) (hlength' : items.length = vs'.length)
    (h : ∀ p ∈ items.zip vs, ∀ {v'}, g.Spells p.1 v' → p.2 = v')
    (h' : ∀ p ∈ items.zip vs', g.Spells p.1 p.2) : vs = vs' := by
  induction items generalizing vs vs' with
  | nil =>
    rw [List.eq_nil_of_length_eq_zero hlength.symm, List.eq_nil_of_length_eq_zero hlength'.symm]
  | cons n items ih =>
    obtain ⟨v, vs, rfl⟩ := List.exists_cons_of_length_eq_add_one hlength.symm
    obtain ⟨v', vs', rfl⟩ := List.exists_cons_of_length_eq_add_one hlength'.symm
    obtain ⟨hv, hvs⟩ := List.forall_mem_cons.1 h
    obtain ⟨hv', hvs'⟩ := List.forall_mem_cons.1 h'
    have hhead : v = v' := hv hv'
    rw [hhead, ih (Nat.succ.inj hlength) (Nat.succ.inj hlength') hvs hvs']

namespace Spells

variable {g : Graph} {n : Nat} {v : Value}

/-- A node spells one value only. -/
theorem unique (h : g.Spells n v) {v' : Value} (h' : g.Spells n v') : v = v' := by
  induction h generalizing v' with
  | scalar hget htag hread =>
    cases h' with
    | scalar hget' _ hread' =>
      rw [hget] at hget'
      cases hget'
      exact Except.ok.inj (hread.symm.trans hread')
    | list hget' | map hget' | set hget' =>
      rw [hget] at hget'
      cases hget'
  | list hget hlength _ ih =>
    cases h' with
    | scalar hget' | map hget' | set hget' =>
      rw [hget] at hget'
      cases hget'
    | list hget' hlength' h' =>
      rw [hget] at hget'
      cases hget'
      rw [eq_of_zip hlength hlength' ih h']
  | map hget _ hlength _ _ ihk ihv =>
    cases h' with
    | scalar hget' | list hget' | set hget' =>
      rw [hget] at hget'
      cases hget'
    | map hget' _ hlength' hks' hvs' =>
      rw [hget] at hget'
      cases hget'
      rw [eq_of_zip ((List.length_map _).trans hlength.1) ((List.length_map _).trans hlength'.1)
        ihk hks', eq_of_zip ((List.length_map _).trans hlength.2)
        ((List.length_map _).trans hlength'.2) ihv hvs']
  | set hget _ hlength _ _ ihk _ =>
    cases h' with
    | scalar hget' | list hget' | map hget' =>
      rw [hget] at hget'
      cases hget'
    | set hget' _ hlength' hks' _ =>
      rw [hget] at hget'
      cases hget'
      rw [eq_of_zip ((List.length_map _).trans hlength.1) ((List.length_map _).trans hlength'.1)
        ihk hks']

end Spells

/-! ## Descendants -/

/-- A node is a child of another one. -/
def Below (g : Graph) (m n : Nat) : Prop :=
  m ∈ (g.get n).children

theorem exists_mem_zip_of_mem {α β : Type} {as : List α} {bs : List β}
    (hlength : as.length = bs.length) {a : α} (ha : a ∈ as) : ∃ b, (a, b) ∈ as.zip bs := by
  rw [← List.map_fst_zip (Nat.le_of_eq hlength), List.mem_map] at ha
  obtain ⟨p, hp, rfl⟩ := ha
  exact ⟨p.2, hp⟩

theorem mem_children_mapping {tag : Tag} {entries : List (Nat × Nat)} {m : Nat} :
    m ∈ (Node.mapping tag entries).children ↔
      m ∈ entries.map Prod.fst ∨ m ∈ entries.map Prod.snd := by
  simp only [Node.children, List.mem_flatMap, List.mem_cons, List.not_mem_nil, or_false,
    List.mem_map, and_or_left, exists_or, eq_comm]

/-- There is an end to the descendants of a node that spells a value. -/
theorem Spells.acc {g : Graph} {n : Nat} {v : Value} (h : g.Spells n v) : Acc g.Below n := by
  induction h with
  | scalar hget =>
    refine ⟨_, fun m hm => ?_⟩
    rw [Below, hget] at hm
    cases hm
  | list hget hlength _ ih =>
    refine ⟨_, fun m hm => ?_⟩
    rw [Below, hget] at hm
    obtain ⟨v, hv⟩ := exists_mem_zip_of_mem hlength hm
    exact ih _ hv
  | map hget _ hlength _ _ ihk ihv | set hget _ hlength _ _ ihk ihv =>
    refine ⟨_, fun m hm => ?_⟩
    rw [Below, hget, mem_children_mapping] at hm
    rcases hm with hm | hm
    · obtain ⟨v, hv⟩ := exists_mem_zip_of_mem ((List.length_map _).trans hlength.1) hm
      exact ihk _ hv
    · obtain ⟨v, hv⟩ := exists_mem_zip_of_mem ((List.length_map _).trans hlength.2) hm
      exact ihv _ hv

theorem not_rel_self_of_acc {α : Type} {r : α → α → Prop} {a : α} (h : Acc r a) : ¬r a a := by
  induction h with
  | intro a _ ih => exact fun haa => ih a haa haa

/-- A node that spells a value is not among its own descendants. -/
theorem Spells.not_below_self {g : Graph} {n : Nat} {v : Value} (h : g.Spells n v) :
    ¬Relation.TransGen g.Below n n :=
  not_rel_self_of_acc h.acc.transGen

/-! ## The check -/

theorem lt_size_of_isCollection {g : Graph} {n : Nat} (h : isCollection (g.get n).tag = true) :
    n < g.size := by
  rw [← Nat.not_le]
  intro hle
  rw [get, Array.getElem?_eq_none hle] at h
  cases h

theorem entries_of_get {g : Graph} {n : Nat} {tag : Tag} {entries : List (Nat × Nat)}
    (h : g.get n = .mapping tag entries) : g.entries n = entries := by
  rw [Graph.entries, h]

theorem ne_merge_of_read {tag : Tag} {number : Nat} {content : Text} {v : Value}
    (h : Scalar.read tag number content = .ok v) : tag ≠ .merge ∧ tag ≠ .value := by
  constructor
  · rintro rfl
    cases h
  · rintro rfl
    cases h

/-- A node that spells a value without being a collection is a scalar. -/
theorem Spells.exists_scalar {g : Graph} {n : Nat} {v : Value} (h : g.Spells n v)
    (htag : isCollection (g.get n).tag = false) : ∃ tag content,
      g.get n = .scalar tag content ∧ Scalar.read tag n content = .ok v := by
  cases h with
  | scalar hget _ hread => exact ⟨_, _, hget, hread⟩
  | list hget | map hget | set hget =>
    rw [hget] at htag
    cases htag

/-- Where the keys of a mapping are scalars with a value, no entry is taken over. -/
theorem flatten_eq_self {g : Graph} {n : Nat}
    (h : ∀ e ∈ g.entries n, ∃ v tag content, g.get e.1 = .scalar tag content ∧
      Scalar.read tag e.1 content = .ok v) : g.flatten n = .ok g := by
  have hmerge : ¬(g.entries n).any g.isMerge = true := by
    rw [List.any_eq_true]
    rintro ⟨e, he, hmerge⟩
    obtain ⟨v, tag, content, hget, hread⟩ := h e he
    rw [isMerge, hget, decide_eq_true_eq] at hmerge
    exact (ne_merge_of_read hread).1 hmerge
  have hplain : ∀ entries : List (Nat × Nat), entries ⊆ g.entries n →
      entries.foldl (fun g entry => g.plainKey entry.1) g = g := by
    intro entries hsub
    induction entries with
    | nil => rfl
    | cons e rest ih =>
      obtain ⟨he, hrest⟩ := List.cons_subset.1 hsub
      obtain ⟨v, tag, content, hget, hread⟩ := h e he
      have hkey : g.plainKey e.1 = g := by
        rw [plainKey, hget, if_neg]
        exact (ne_merge_of_read hread).2
      rw [List.foldl_cons, hkey, ih hrest]
  rw [flatten, if_neg hmerge, hplain _ (List.Subset.refl _)]

end Graph

namespace Checker

variable {g : Graph}

theorem scalarValue_of_scalar {n : Nat} {tag : Tag} {content : Text} {v : Value}
    (hget : g.get n = .scalar tag content) (hread : Scalar.read tag n content = .ok v) :
    scalarValue g n = .ok v := by
  have hcontent : Checker.content g (g.size + 1) n = .ok content := by rw [Checker.content, hget]
  have hmapping : g.isMapping n = false := by rw [Graph.isMapping, hget]
  have htag : (g.get n).tag = tag := by
    rw [hget]
    rfl
  rw [scalarValue, htag]
  split
  · cases hread
  · cases hread
  · cases hread
  · rw [hcontent, hmapping, Bool.and_false]
    exact hread

/-- The check has changed nothing, and all that it has left for the next level are collections that
spell a value. -/
structure Sound (g : Graph) (s : Checker) : Prop where
  graph : s.graph = g
  closed : s.open_ = []
  spelled : ∀ n ∈ s.next, isCollection (g.get n).tag = true ∧ ∃ v, g.Spells n v

/-- The collections that have not been met. -/
def unmet (g : Graph) (s : Checker) : Finset Nat :=
  (Finset.range g.size).filter fun n =>
    isCollection (g.get n).tag = true ∧ s.checked.contains n = false

/-- What is to be done: the collections that have not been met and those left for the next level. -/
def remaining (g : Graph) (s : Checker) : Nat :=
  (unmet g s).card + s.next.length

/-- A step of the check finds nothing. Nothing but what is met is left for the next level. -/
def Passes (g : Graph) (s : Checker) (result : Except Fault Checker) : Prop :=
  ∃ s', result = .ok s' ∧ Sound g s' ∧ remaining g s' = remaining g s

theorem unmet_insert_scalar {s : Checker} {n : Nat} (h : isCollection (g.get n).tag = false) :
    unmet g { s with checked := s.checked.insert n } = unmet g s := by
  refine Finset.filter_congr fun m _ => and_congr_right fun hm => ?_
  have hne : n ≠ m := by
    rintro rfl
    rw [h] at hm
    cases hm
  rw [Std.HashSet.contains_insert, beq_false_of_ne hne, Bool.false_or]

theorem card_unmet_insert {s : Checker} {n : Nat} (h : isCollection (g.get n).tag = true)
    (hnew : s.checked.contains n = false) (next : List Nat) :
    (unmet g { s with checked := s.checked.insert n, next }).card + 1 = (unmet g s).card := by
  have herase : unmet g { s with checked := s.checked.insert n, next } = (unmet g s).erase n := by
    ext m
    simp only [unmet, Finset.mem_filter, Finset.mem_erase, Std.HashSet.contains_insert,
      Bool.or_eq_false_iff, beq_eq_false_iff_ne]
    grind
  rw [herase]
  exact Finset.card_erase_add_one (Finset.mem_filter.2
    ⟨Finset.mem_range.2 (Graph.lt_size_of_isCollection h), h, hnew⟩)

/-- A node that spells a value passes the check, where it is a collection as one that is left for
the next level. -/
theorem visit_passes {s : Checker} (hs : Sound g s) {n : Nat} {v : Value} (h : g.Spells n v)
    {deep : Bool} (hdeep : deep = true → isCollection (g.get n).tag = false) (fuel : Nat) :
    Passes g s (visit deep (fuel + 1) n s) := by
  have hclosed : s.open_.contains n = false := by
    rw [hs.closed]
    rfl
  rw [visit, hclosed, hs.graph]
  by_cases hchecked : s.checked.contains n = true
  · rw [if_pos hchecked]
    exact ⟨s, rfl, hs, rfl⟩
  · rw [if_neg hchecked, if_neg Bool.false_ne_true]
    by_cases htag : isCollection (g.get n).tag = true
    · have hshallow : ¬deep = true := fun hd => by
        rw [hdeep hd] at htag
        cases htag
      rw [if_pos htag, if_neg hshallow]
      refine ⟨_, rfl, ⟨rfl, hs.closed, List.forall_mem_cons.2 ⟨⟨htag, v, h⟩, hs.spelled⟩⟩, ?_⟩
      have hcard := card_unmet_insert htag (Bool.not_eq_true _ ▸ hchecked) (n :: s.next)
      show (unmet g { s with checked := s.checked.insert n, next := n :: s.next }).card +
        (n :: s.next).length = (unmet g s).card + s.next.length
      rw [List.length_cons]
      omega
    · rw [Bool.not_eq_true] at htag
      obtain ⟨tag, content, hget, hread⟩ := h.exists_scalar htag
      rw [htag, if_neg Bool.false_ne_true, scalarValue_of_scalar hget hread]
      refine ⟨_, rfl, ⟨rfl, hs.closed, hs.spelled⟩, ?_⟩
      show (unmet g { s with checked := s.checked.insert n }).card + s.next.length = _
      rw [unmet_insert_scalar htag]
      rfl

/-- A series of steps, each of which finds nothing. -/
theorem Passes.foldlM {α : Type} {step : Checker → α → Except Fault Checker} {parts : List α}
    (h : ∀ part ∈ parts, ∀ s, Sound g s → Passes g s (step s part)) {s : Checker}
    (hs : Sound g s) : Passes g s (parts.foldlM step s) := by
  induction parts generalizing s with
  | nil => exact ⟨s, rfl, hs, rfl⟩
  | cons part rest ih =>
    obtain ⟨hpart, hrest⟩ := List.forall_mem_cons.1 h
    obtain ⟨s', hstep, hs', hsame⟩ := hpart s hs
    obtain ⟨s'', hfold, hs'', hsame'⟩ := ih hrest hs'
    refine ⟨s'', ?_, hs'', hsame'.trans hsame⟩
    rw [List.foldlM_cons, hstep]
    exact hfold

theorem exists_spells_of_mem {items : List Nat} {vs : List Value}
    (hlength : items.length = vs.length) (h : ∀ p ∈ items.zip vs, g.Spells p.1 p.2) :
    ∀ n ∈ items, ∃ v, g.Spells n v := by
  intro n hn
  obtain ⟨v, hv⟩ := Graph.exists_mem_zip_of_mem hlength hn
  exact ⟨v, h _ hv⟩

/-- The entries of a mapping or a set pass the check. -/
theorem entries_pass {entries : List (Nat × Nat)}
    (hkeys : ∀ e ∈ entries, isCollection (g.get e.1).tag = false)
    (hks : ∀ n ∈ entries.map Prod.fst, ∃ v, g.Spells n v)
    (hvs : ∀ n ∈ entries.map Prod.snd, ∃ v, g.Spells n v) (fuel : Nat) {s : Checker}
    (hs : Sound g s) :
    Passes g s (entries.foldlM (fun s (key, value) => do
      let s ← visit true (fuel + 1) key s
      if isCollection (s.graph.get key).tag then throw .malformed
      visit false (fuel + 1) value s) s) := by
  refine Passes.foldlM (fun e he s hs => ?_) hs
  obtain ⟨k, hk⟩ := hks _ (List.mem_map_of_mem he)
  obtain ⟨v, hv⟩ := hvs _ (List.mem_map_of_mem he)
  obtain ⟨s', hvisit, hs', hsame⟩ := visit_passes hs hk (fun _ => hkeys e he) fuel
  obtain ⟨s'', hvisit', hs'', hsame'⟩ :=
    visit_passes hs' hv (fun h => absurd h Bool.false_ne_true) fuel
  refine ⟨s'', ?_, hs'', hsame'.trans hsame⟩
  dsimp only [bind, Except.bind]
  rw [hvisit]
  dsimp only
  rw [hs'.graph, hkeys e he, if_neg Bool.false_ne_true]
  exact hvisit'

/-- What is inside a collection that spells a value passes the check. -/
theorem visitContent_passes {s : Checker} (hs : Sound g s) {n : Nat} {v : Value}
    (h : g.Spells n v) (htag : isCollection (g.get n).tag = true) (fuel : Nat) :
    Passes g s (visitContent false (fuel + 2) n s) := by
  have hgraph := hs.graph
  cases h with
  | scalar hget hfalse =>
    rw [hget] at htag
    cases htag.symm.trans hfalse
  | list hget hlength hitems =>
    rw [visitContent, hgraph, hget]
    refine Passes.foldlM (fun m hm s hs => ?_) hs
    obtain ⟨v, hv⟩ := exists_spells_of_mem hlength hitems m hm
    exact visit_passes hs hv (fun h => absurd h Bool.false_ne_true) fuel
  | map hget hkeys hlength hks hvs | set hget hkeys hlength hks hvs =>
    have hks := exists_spells_of_mem ((List.length_map _).trans hlength.1) hks
    have hvs := exists_spells_of_mem ((List.length_map _).trans hlength.2) hvs
    have hentries := Graph.entries_of_get hget
    have hflatten : g.flatten n = .ok g := by
      refine Graph.flatten_eq_self fun e he => ?_
      rw [hentries] at he
      obtain ⟨v, hv⟩ := hks e.1 (List.mem_map_of_mem he)
      exact ⟨v, hv.exists_scalar (hkeys e he)⟩
    rw [visitContent, hgraph, hget]
    dsimp only [Node.tag]
    rw [hflatten]
    dsimp only [bind, Except.bind]
    rw [hentries]
    exact entries_pass hkeys hks hvs fuel ⟨rfl, hs.closed, hs.spelled⟩

/-- The levels come to an end, since each of them leaves less to be done than the one before. -/
theorem visitLevels_of_sound (levels : Nat) {fuel : Nat} {s : Checker} (hs : Sound g s)
    (h : remaining g s < levels) :
    ∃ s', visitLevels (fuel + 2) levels s = .ok s' ∧ s'.graph = g := by
  induction levels generalizing s with
  | zero => exact absurd h (Nat.not_lt_zero _)
  | succ levels ih =>
    rw [visitLevels]
    split
    · exact ⟨s, rfl, hs.graph⟩
    · next hnext =>
      have hpos : 0 < s.next.length := by
        rw [List.isEmpty_iff] at hnext
        exact List.length_pos_iff.2 hnext
      obtain ⟨s', hfold, hs', hsame⟩ := Passes.foldlM
        (s := { s with next := [] })
        (fun n hn s₁ hs₁ => by
          obtain ⟨htag, v, hv⟩ := hs.spelled n (List.mem_reverse.1 hn)
          exact visitContent_passes hs₁ hv htag fuel)
        ⟨hs.graph, hs.closed, List.forall_mem_nil _⟩
      have hless : remaining g { s with next := [] } + s.next.length = remaining g s := rfl
      obtain ⟨s'', hlevels, hgraph⟩ := ih hs' (by omega)
      refine ⟨s'', ?_, hgraph⟩
      dsimp only [bind, Except.bind]
      rw [hfold]
      exact hlevels

end Checker

/-- The check of a graph whose root spells a value finds nothing and changes nothing. -/
theorem Graph.check_of_spells {g : Graph} {root : Nat} {v : Value} (h : g.Spells root v) :
    g.check root = .ok g := by
  let start : Checker := ⟨g, ∅, [], []⟩
  have hstart : Checker.Sound g start := ⟨rfl, rfl, List.forall_mem_nil _⟩
  have hcount : Checker.remaining g start ≤ g.size :=
    (Finset.card_filter_le _ _).trans (Nat.le_of_eq (Finset.card_range _))
  obtain ⟨s, hvisit, hs, hsame⟩ :=
    Checker.visit_passes hstart h (fun h => absurd h Bool.false_ne_true) (2 * g.size + 1)
  obtain ⟨s', hlevels, hgraph⟩ := Checker.visitLevels_of_sound (g.size + 2)
    hs (by omega)
  show (Checker.visit false (2 * g.size + 2) root start).bind _ = _
  rw [hvisit]
  show (Checker.visitLevels (2 * g.size + 2) (g.size + 2) s).bind _ = _
  rw [hlevels]
  exact congrArg Except.ok hgraph

end SiteRules.Yaml
