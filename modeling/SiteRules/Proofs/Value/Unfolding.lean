import SiteRules.Proofs.Value.Rebuild
import SiteRules.Proofs.Value.Spellable

/-!
# What is seen of a value

Marks tell apart parts that are equal, and let a collection stand inside itself. They do not count
for what a value says. This is what one sees when one goes down from the whole: no marks, and
wherever a place stands for a collection around it, that collection once more (`Value.view`). Two
values are alike if the same is seen of both, however deep one goes (`Value.Alike`).

Rebuilding a value takes marks away and fills in the collections around a place, so that another
value results. What is seen of it stays the same (`Value.rebuild_alike`), provided that each place
that stands for a collection is inside of it (`Value.isClosedIn`), as in every copy of a value.
-/

namespace SiteRules.Value

/-! ## What a collection holds -/

/-- Whether a value is neither marked nor stands for a collection around it. -/
def isBare : Value → Bool
  | shared _ _ => false
  | cycle _ => false
  | _ => true

/-- The values that a collection holds, other than keys and members of sets. -/
def held : Value → List Value
  | list items => items
  | tuple items => items
  | map entries => entries.map Prod.snd
  | _ => []

theorem held_subset_parts {v part : Value} (h : part ∈ v.held) : part ∈ v.parts := by
  cases v with
  | list items => exact h
  | tuple items => exact h
  | map entries =>
    obtain ⟨e, he, rfl⟩ := List.mem_map.1 h
    exact value_mem_parts he
  | _ => cases h

/-- What holds of a marked value and of a collection if it holds of what is in it, and of places
that stand for a collection, holds of every value. -/
@[elab_as_elim]
theorem induct_held {P : Value → Prop} (marked : ∀ mark v, P v → P (shared mark v))
    (place : ∀ mark, P (cycle mark))
    (bare : ∀ v, v.isBare = true → (∀ part ∈ v.held, P part) → P v) (v : Value) : P v := by
  induction v using induct_parts with | _ v ih
  cases v with
  | shared mark v => exact marked mark v (ih v List.mem_cons_self)
  | cycle mark => exact place mark
  | _ => exact bare _ rfl fun part hpart => ih part (held_subset_parts hpart)

/-- A collection with another value for each that it holds. -/
def mapHeld (f : Value → Value) : Value → Value
  | list items => list (items.map f)
  | tuple items => tuple (items.map f)
  | map entries => map (entries.map fun e => (e.1, f e.2))
  | v => v

theorem mapHeld_mapHeld (f g : Value → Value) (v : Value) :
    (v.mapHeld f).mapHeld g = v.mapHeld fun part => g (f part) := by
  cases v <;> simp [mapHeld]

theorem mapHeld_id (v : Value) : v.mapHeld id = v := by
  cases v <;> simp [mapHeld]

theorem mapHeld_congr {f g : Value → Value} {v : Value} (h : ∀ part ∈ v.held, f part = g part) :
    v.mapHeld f = v.mapHeld g := by
  cases v with
  | list items => exact congrArg list (List.map_congr_left h)
  | tuple items => exact congrArg tuple (List.map_congr_left h)
  | map entries =>
    refine congrArg map (List.map_congr_left fun e he => ?_)
    rw [h e.2 (List.mem_map_of_mem he)]
  | _ => rfl

theorem isBare_mapHeld (f : Value → Value) (v : Value) : (v.mapHeld f).isBare = v.isBare := by
  cases v <;> rfl

/-- A bare value is filled in by filling in what it holds. -/
theorem fill_eq_mapHeld {v : Value} (bare : v.isBare = true) (around : Mark → Value)
    (inside : List Mark) : fill around inside v = v.mapHeld (fill around inside) := by
  cases v with
  | shared mark v => cases bare
  | cycle mark => cases bare
  | list items => rw [fill, fillAll_eq_map, mapHeld]
  | tuple items => rw [fill, fillAll_eq_map, mapHeld]
  | map entries => rw [fill, fillEntries_eq_map, mapHeld]
  | _ => rfl

/-! ## Views -/

/-- The collection with a mark among those around a place, and the collections around it. -/
def standing : List (Mark × Value) → Mark → Option (Value × List (Mark × Value))
  | [], _ => none
  | (m, v) :: outer, mark => if m = mark then some (v, outer) else standing outer mark

/-- What is seen of a value down to a depth; `around` are the collections that the value is in, from
the innermost to the outermost. -/
def view : Nat → List (Mark × Value) → Value → Value
  | 0, _, _ => .null
  | n + 1, around, shared mark v => v.mapHeld (view n ((mark, v) :: around))
  | n + 1, around, cycle mark => match standing around mark with
    | some (v, outer) => v.mapHeld (view n ((mark, v) :: outer))
    | none => cycle mark
  | n + 1, around, v => v.mapHeld (view n around)

/-- The same is seen of two values, however deep one goes. -/
def Alike (a b : Value) : Prop :=
  ∀ n, view n [] a = view n [] b

theorem view_of_isBare {v : Value} (bare : v.isBare = true) (n : Nat)
    (around : List (Mark × Value)) :
    view (n + 1) around v = v.mapHeld (view n around) := by
  cases v <;> first | rfl | cases bare

theorem Alike.symm {a b : Value} (h : a.Alike b) : b.Alike a :=
  fun n => (h n).symm

theorem Alike.trans {a b c : Value} (hab : a.Alike b) (hbc : b.Alike c) : a.Alike c :=
  fun n => (hab n).trans (hbc n)

/-! ## Closed values -/

mutual

/-- Whether each place in a value that stands for a collection is inside of it, or stands for one
with a mark given. Only bare values are marked, and nothing in a set is but points in time. -/
def isClosedIn (marks : List Mark) : Value → Bool
  | .shared mark v => v.isBare && isClosedIn (mark :: marks) v
  | .cycle mark => marks.contains mark
  | .list items => areClosedIn marks items
  | .tuple items => areClosedIn marks items
  | .set items => areTrees items
  | .map entries => haveClosedIn marks entries
  | _ => true

/-- Whether the values of a list are closed. -/
def areClosedIn (marks : List Mark) : List Value → Bool
  | [] => true
  | v :: rest => isClosedIn marks v && areClosedIn marks rest

/-- Whether the values of the entries of a list are closed. -/
def haveClosedIn (marks : List Mark) : List (Value × Value) → Bool
  | [] => true
  | (_, v) :: rest => isClosedIn marks v && haveClosedIn marks rest

end

theorem areClosedIn_iff {marks : List Mark} {vs : List Value} :
    areClosedIn marks vs = true ↔ ∀ v ∈ vs, v.isClosedIn marks = true := by
  induction vs with
  | nil => simp [areClosedIn]
  | cons v rest ih => simp [areClosedIn, ih]

theorem haveClosedIn_iff {marks : List Mark} {entries : List (Value × Value)} :
    haveClosedIn marks entries = true ↔ ∀ v ∈ entries.map Prod.snd, v.isClosedIn marks = true := by
  induction entries with
  | nil => simp [haveClosedIn]
  | cons e rest ih => simp [haveClosedIn, ih]

/-- What a closed collection holds is closed. -/
theorem isClosedIn_of_mem_held {marks : List Mark} {v : Value} (h : v.isClosedIn marks = true) :
    ∀ part ∈ v.held, part.isClosedIn marks = true := by
  cases v with
  | list items => exact areClosedIn_iff.1 h
  | tuple items => exact areClosedIn_iff.1 h
  | map entries => exact haveClosedIn_iff.1 h
  | _ => exact fun _ hpart => absurd hpart List.not_mem_nil

/-- A closed collection is closed as well with other closed values in it. -/
theorem isClosedIn_mapHeld {marks marks' : List Mark} {f : Value → Value} {v : Value}
    (bare : v.isBare = true) (h : v.isClosedIn marks = true)
    (hf : ∀ part ∈ v.held, (f part).isClosedIn marks' = true) :
    (v.mapHeld f).isClosedIn marks' = true := by
  cases v with
  | shared mark v => cases bare
  | cycle mark => cases bare
  | list items => exact areClosedIn_iff.2 (List.forall_mem_map.2 hf)
  | tuple items => exact areClosedIn_iff.2 (List.forall_mem_map.2 hf)
  | map entries =>
    refine haveClosedIn_iff.2 ?_
    rw [List.map_map, List.forall_mem_map]
    exact fun e he => hf e.2 (List.mem_map_of_mem he)
  | _ => exact h

/-- Nothing in a value without marks stands for a collection around it. -/
theorem isClosedIn_of_isTree {v : Value} (h : v.isTree = true) (marks : List Mark) :
    v.isClosedIn marks = true := by
  induction v using induct_held generalizing marks with
  | marked mark v =>
    -- a point in time may be marked
    have htime : v.isTime = true := h
    cases v <;> first | rfl | cases htime
  | place mark => cases h
  | bare v bare ih =>
    cases v with
    | list items => exact areClosedIn_iff.2 fun v hv => ih v hv (areTrees_iff.1 h v hv) marks
    | tuple items => exact areClosedIn_iff.2 fun v hv => ih v hv (areTrees_iff.1 h v hv) marks
    | map entries =>
      refine haveClosedIn_iff.2 fun v hv => ?_
      obtain ⟨e, he, rfl⟩ := List.mem_map.1 hv
      exact ih e.2 hv (haveTrees_iff.1 h e he) marks
    | set items => exact h
    | shared mark v => cases bare
    | cycle mark => cases bare
    | _ => rfl

/-- Fewer collections have to be around what is closed without them. -/
theorem isClosedIn_mono {marks marks' : List Mark} {v : Value} (h : v.isClosedIn marks = true)
    (hsub : marks ⊆ marks') : v.isClosedIn marks' = true := by
  induction v using induct_held generalizing marks marks' with
  | marked mark v ih =>
    rw [isClosedIn, Bool.and_eq_true] at h ⊢
    exact ⟨h.1, ih h.2 (List.cons_subset_cons mark hsub)⟩
  | place mark =>
    rw [isClosedIn, List.contains_iff_mem] at h ⊢
    exact hsub h
  | bare v bare ih =>
    rw [← mapHeld_id v]
    exact isClosedIn_mapHeld bare h fun part hpart =>
      ih part hpart (isClosedIn_of_mem_held h part hpart) hsub

/-- Each of the collections around a place is closed among those around it. -/
def AreClosed : List (Mark × Value) → Prop
  | [] => True
  | (mark, v) :: outer =>
    (shared mark v).isClosedIn (outer.map Prod.fst) = true ∧ AreClosed outer

theorem AreClosed.of_append {inner outer : List (Mark × Value)} (h : AreClosed (inner ++ outer)) :
    AreClosed outer := by
  induction inner with
  | nil => exact h
  | cons e rest ih => exact ih h.2

/-! ## Filling in -/

/-- The collections around a place, which are in others, with these filled in. -/
def fillAround (outer : List (Mark × Value)) : List (Mark × Value) → List (Mark × Value)
  | [] => []
  | (mark, v) :: rest =>
    (mark, fill (enclosing outer) (mark :: rest.map Prod.fst) v) :: fillAround outer rest

/-- A place that stands for one of the inner collections. -/
theorem standing_of_mem_inner {inner : List (Mark × Value)} {mark : Mark}
    (h : mark ∈ inner.map Prod.fst) (outer tail : List (Mark × Value)) :
    ∃ front v rest, inner = front ++ (mark, v) :: rest ∧
      standing (inner ++ outer) mark = some (v, rest ++ outer) ∧
      standing (fillAround outer inner ++ tail) mark =
        some (fill (enclosing outer) (mark :: rest.map Prod.fst) v,
          fillAround outer rest ++ tail) := by
  induction inner with
  | nil => cases h
  | cons e inner ih =>
    by_cases heq : e.1 = mark
    · subst heq
      refine ⟨[], e.2, inner, rfl, ?_, ?_⟩
      · rw [List.cons_append, standing, if_pos rfl]
      · rw [fillAround, List.cons_append, standing, if_pos rfl]
    · have hmem : mark ∈ inner.map Prod.fst := by
        rw [List.map_cons, List.mem_cons] at h
        exact h.resolve_left (Ne.symm heq)
      obtain ⟨front, v, rest, hsplit, hstands, hfilled⟩ := ih hmem
      refine ⟨e :: front, v, rest, by rw [hsplit]; rfl, ?_, ?_⟩
      · rw [List.cons_append, standing, if_neg heq, hstands]
      · rw [fillAround, List.cons_append, standing, if_neg heq, hfilled]

theorem standing_append_of_notMem {inner : List (Mark × Value)} {mark : Mark}
    (h : mark ∉ inner.map Prod.fst) (outer : List (Mark × Value)) :
    standing (inner ++ outer) mark = standing outer mark := by
  induction inner with
  | nil => rfl
  | cons e inner ih =>
    rw [List.map_cons, List.mem_cons, not_or] at h
    rw [List.cons_append, standing, if_neg (Ne.symm h.1), ih h.2]

/-- A place that stands for one of the outer collections gets it as a whole. -/
theorem standing_of_mem {outer : List (Mark × Value)} {mark : Mark}
    (h : mark ∈ outer.map Prod.fst) : ∃ front v rest, outer = front ++ (mark, v) :: rest ∧
      standing outer mark = some (v, rest) ∧
      enclosing outer mark = shared mark (fill (enclosing rest) [mark] v) := by
  induction outer with
  | nil => cases h
  | cons e outer ih =>
    by_cases heq : e.1 = mark
    · subst heq
      refine ⟨[], e.2, outer, rfl, ?_, ?_⟩
      · rw [standing, if_pos rfl]
      · rw [enclosing, if_pos rfl]
    · have hmem : mark ∈ outer.map Prod.fst := by
        rw [List.map_cons, List.mem_cons] at h
        exact h.resolve_left (Ne.symm heq)
      obtain ⟨front, v, rest, hsplit, hstands, hencloses⟩ := ih hmem
      refine ⟨e :: front, v, rest, by rw [hsplit]; rfl, ?_, ?_⟩
      · rw [standing, if_neg heq, hstands]
      · rw [enclosing, if_neg heq, hencloses]

/-- Of a value with the outer collections filled in the same is seen as of the value in them. -/
theorem view_fill (n : Nat) (inner : List (Mark × Value)) {outer tail : List (Mark × Value)}
    {v : Value} (h : v.isClosedIn ((inner ++ outer).map Prod.fst) = true)
    (hall : AreClosed (inner ++ outer)) :
    view n (fillAround outer inner ++ tail) (fill (enclosing outer) (inner.map Prod.fst) v) =
      view n (inner ++ outer) v := by
  induction n generalizing inner outer tail v with
  | zero => rfl
  | succ n ih =>
    -- the depth goes down with each collection, so what it holds looks the same
    have hheld : ∀ (inner : List (Mark × Value)) {outer tail : List (Mark × Value)} {v : Value},
        v.isBare = true → v.isClosedIn ((inner ++ outer).map Prod.fst) = true →
        AreClosed (inner ++ outer) →
        (fill (enclosing outer) (inner.map Prod.fst) v).mapHeld
            (view n (fillAround outer inner ++ tail)) = v.mapHeld (view n (inner ++ outer)) := by
      intro inner outer tail v bare h hall
      rw [fill_eq_mapHeld bare, mapHeld_mapHeld]
      exact mapHeld_congr fun part hpart => ih inner (isClosedIn_of_mem_held h part hpart) hall
    induction v using induct_held with
    | marked mark v =>
      have hclosed := Bool.and_eq_true_iff.1 h
      exact hheld ((mark, v) :: inner) hclosed.1 hclosed.2 ⟨h, hall⟩
    | place mark =>
      rw [isClosedIn, List.contains_iff_mem, List.map_append, List.mem_append] at h
      by_cases hinner : mark ∈ inner.map Prod.fst
      · obtain ⟨front, v, rest, rfl, hstands, hfilled⟩ :=
          standing_of_mem_inner hinner outer tail
        rw [fill, if_pos (List.contains_iff_mem.2 hinner), view, view, hstands, hfilled]
        rw [List.append_assoc] at hall
        have hthere := hall.of_append
        have hclosed := Bool.and_eq_true_iff.1 hthere.1
        exact hheld ((mark, v) :: rest) hclosed.1 hclosed.2 hthere
      · obtain ⟨front, v, rest, rfl, hstands, hencloses⟩ := standing_of_mem (h.resolve_left hinner)
        have hno : ¬(inner.map Prod.fst).contains mark = true := by
          rwa [List.contains_iff_mem]
        rw [fill, if_neg hno, view, standing_append_of_notMem hinner, hstands, hencloses, view]
        have hthere := hall.of_append.of_append
        have hclosed := Bool.and_eq_true_iff.1 hthere.1
        exact hheld [(mark, v)] hclosed.1 hclosed.2 hthere
    | bare v bare =>
      have hbare : (fill (enclosing outer) (inner.map Prod.fst) v).isBare = true := by
        rw [fill_eq_mapHeld bare, isBare_mapHeld, bare]
      rw [view_of_isBare hbare, view_of_isBare bare]
      exact hheld inner bare h hall

/-! ## Rebuilding -/

theorem rebuildIn_of_isBare {v : Value} (bare : v.isBare = true) {marks : List Mark}
    (h : v.isClosedIn marks = true) (around : List (Mark × Value)) (depth : Nat) :
    rebuildIn around depth v = if depth = 0 then fill (enclosing around) [] v
      else v.mapHeld (rebuildIn around (depth - 1)) := by
  cases v with
  | shared mark v => cases bare
  | cycle mark => cases bare
  | list items => rw [rebuildIn, rebuildAll_eq_map, mapHeld]
  | tuple items => rw [rebuildIn, rebuildAll_eq_map, mapHeld]
  | map entries => rw [rebuildIn, rebuildEntries_eq_map, mapHeld]
  | set items =>
    -- nothing in a set is made anew
    rw [rebuildIn, rebuildAll_of_areTrees around items (depth - 1) h]
    rfl
  | _ => exact (ite_self _).symm

/-- Of a value made anew the same is seen as of the value in the collections around it. -/
theorem view_rebuildIn (n : Nat) (around : List (Mark × Value)) {tail : List (Mark × Value)}
    {depth : Nat} {v : Value}
    (h : v.isClosedIn (around.map Prod.fst) = true) (hall : AreClosed around) :
    view n tail (rebuildIn around depth v) = view n around v := by
  induction n generalizing around tail depth v with
  | zero => rfl
  | succ n ih =>
    have hfill : view (n + 1) tail (fill (enclosing around) [] v) = view (n + 1) around v :=
      view_fill (n + 1) [] h hall
    have hheld : ∀ (around : List (Mark × Value)) {v : Value}, v.isBare = true →
        v.isClosedIn (around.map Prod.fst) = true → AreClosed around →
        view (n + 1) tail (v.mapHeld (rebuildIn around (depth - 1))) =
          v.mapHeld (view n around) := by
      intro around v bare h hall
      rw [view_of_isBare ((isBare_mapHeld _ v).trans bare), mapHeld_mapHeld]
      exact mapHeld_congr fun part hpart => ih around (isClosedIn_of_mem_held h part hpart) hall
    induction v using induct_held with
    | marked mark v =>
      rw [rebuildIn]
      split
      · exact hfill
      · next hdeep =>
        have hclosed := Bool.and_eq_true_iff.1 h
        rw [Bool.or_eq_true, decide_eq_true_eq, not_or] at hdeep
        rw [rebuildIn_of_isBare hclosed.1 hclosed.2, if_neg hdeep.1]
        exact hheld ((mark, v) :: around) hclosed.1 hclosed.2 ⟨h, hall⟩
    | place mark => exact hfill
    | bare v bare =>
      rw [rebuildIn_of_isBare bare h]
      split
      · exact hfill
      · rw [view_of_isBare bare]
        exact hheld around bare h hall

/-- Rebuilding a closed value does not change what is seen of it. -/
theorem rebuild_alike {v : Value} (h : v.isClosedIn [] = true) : v.rebuild.Alike v :=
  fun n => view_rebuildIn n [] h trivial

/-! ## What is rebuilt is closed -/

/-- With closed values filled in for the collections around it a value is closed. -/
theorem isClosedIn_fill {outer : List (Mark × Value)} (inside : List Mark) {v : Value}
    (h : v.isClosedIn (inside ++ outer.map Prod.fst) = true)
    (houter : ∀ mark ∈ outer.map Prod.fst, (enclosing outer mark).isClosedIn [] = true) :
    (fill (enclosing outer) inside v).isClosedIn inside = true := by
  induction v using induct_held generalizing inside with
  | marked mark v ih =>
    rw [isClosedIn, Bool.and_eq_true] at h
    rw [fill, isClosedIn, fill_eq_mapHeld h.1, isBare_mapHeld, ← fill_eq_mapHeld h.1, h.1]
    exact ih (mark :: inside) h.2
  | place mark =>
    rw [isClosedIn, List.contains_iff_mem, List.mem_append] at h
    rw [fill]
    split
    · next hinside => exact hinside
    · next hinside =>
      rw [List.contains_iff_mem] at hinside
      exact isClosedIn_mono (houter mark (h.resolve_left hinside)) (List.nil_subset _)
  | bare v bare ih =>
    rw [fill_eq_mapHeld bare]
    exact isClosedIn_mapHeld bare h fun part hpart =>
      ih part hpart inside (isClosedIn_of_mem_held h part hpart)

theorem isClosedIn_enclosing {outer : List (Mark × Value)} (hall : AreClosed outer) :
    ∀ mark ∈ outer.map Prod.fst, (enclosing outer mark).isClosedIn [] = true := by
  induction outer with
  | nil => exact fun mark hmark => absurd hmark List.not_mem_nil
  | cons e outer ih =>
    intro mark hmark
    rw [enclosing]
    split
    · exact isClosedIn_fill [] hall.1 (ih hall.2)
    · next hne =>
      rw [List.map_cons, List.mem_cons] at hmark
      exact ih hall.2 mark (hmark.resolve_left (Ne.symm hne))

/-- A closed value is closed when it has been rebuilt. -/
theorem isClosedIn_rebuildIn (around : List (Mark × Value)) {depth : Nat} {v : Value}
    (h : v.isClosedIn (around.map Prod.fst) = true) (hall : AreClosed around) :
    (rebuildIn around depth v).isClosedIn [] = true := by
  induction v using induct_held generalizing around depth with
  | marked mark v ih =>
    rw [rebuildIn]
    split
    · exact isClosedIn_fill [] h (isClosedIn_enclosing hall)
    · have hclosed := Bool.and_eq_true_iff.1 h
      exact ih ((mark, v) :: around) hclosed.2 ⟨h, hall⟩
  | place mark => exact isClosedIn_fill [] h (isClosedIn_enclosing hall)
  | bare v bare ih =>
    rw [rebuildIn_of_isBare bare h]
    split
    · exact isClosedIn_fill [] h (isClosedIn_enclosing hall)
    · exact isClosedIn_mapHeld bare h fun part hpart =>
        ih part hpart around (isClosedIn_of_mem_held h part hpart) hall

theorem isClosedIn_rebuild {v : Value} (h : v.isClosedIn [] = true) :
    v.rebuild.isClosedIn [] = true :=
  isClosedIn_rebuildIn [] h trivial

end SiteRules.Value
