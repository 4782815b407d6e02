import SiteRules.Proofs.Value.Spellable
import SiteRules.Proofs.Yaml.Image
import SiteRules.Proofs.Yaml.Names
import SiteRules.Proofs.Yaml.Nodes
import SiteRules.Proofs.Yaml.Spells

/-!
# Nodes that spell what was written

The nodes of the draft of a value that can be loaded spell the image of the value
(`Draft.spells_ofValue`). A part that is met again is the node that its name belongs to: whatever
has a name is spelled by its node, apart from the parts that the value is in, and these are larger
than the value.
-/

namespace SiteRules.Yaml

/-- Nodes stand in a graph from a number on. -/
def Graph.Holds (g : Graph) (next : Nat) (nodes : List Node) : Prop :=
  ∀ i node, nodes[i]? = some node → g.get (next + i) = node

theorem Graph.holds_append {g : Graph} {next : Nat} {nodes more : List Node}
    (h : g.Holds next (nodes ++ more)) :
    g.Holds next nodes ∧ g.Holds (next + nodes.length) more := by
  refine ⟨fun i node hi => h i node ?_, fun i node hi => ?_⟩
  · obtain ⟨hlt, -⟩ := List.getElem?_eq_some_iff.1 hi
    rw [List.getElem?_append_left hlt, hi]
  · rw [Nat.add_assoc]
    refine h _ node ?_
    rw [List.getElem?_append_right (Nat.le_add_right _ _), Nat.add_sub_cancel_left, hi]

theorem Graph.holds_cons {g : Graph} {next : Nat} {node : Node} {nodes : List Node}
    (h : g.Holds next (node :: nodes)) : g.get next = node ∧ g.Holds (next + 1) nodes := by
  have happend : g.Holds next ([node] ++ nodes) := h
  exact ⟨h 0 node rfl, (holds_append happend).2⟩

/-- A node that spells a scalar is no collection. -/
theorem Graph.Spells.isCollection_of_isScalar {g : Graph} {n : Nat} {v : Value} (h : g.Spells n v)
    (hv : isScalar v = true) : Checker.isCollection (g.get n).tag = false := by
  cases h with
  | scalar hget htag => rw [hget, Node.tag, htag]
  | list | map | set => cases hv

namespace Draft

/-! ## What is known of marks -/

/-- The marks with a name that have been met, and the nodes of the names. -/
structure Scope where
  met : List Mark
  anchors : Anchors

namespace Scope

variable {names : Names} {owner : Mark → Value} {s s' s'' : Scope} {next size : Nat}
  {nodes more : List Node} {P Q : Graph → Prop}

/-- The node of a mark that has been met. -/
def place? (names : Names) (s : Scope) (mark : Mark) : Option Nat :=
  if mark ∈ s.met then (names.name? mark).bind fun n => s.anchors.lookup (nameText n) else none

/-- The names with a node are those of the marks that have been met. -/
structure Fits (names : Names) (s : Scope) : Prop where
  defined : ∀ mark ∈ s.met, ∀ n, names.name? mark = some n →
    (s.anchors.lookup (nameText n)).isSome = true
  used : ∀ n, (s.anchors.lookup (nameText n)).isSome = true →
    ∃ mark ∈ s.met, names.name? mark = some n

/-- The marks that have been met are spelled by their nodes if they are smaller than `size`. -/
def Tells (names : Names) (owner : Mark → Value) (s : Scope) (g : Graph) (size : Nat) : Prop :=
  ∀ mark n, s.place? names mark = some n →
    size ≤ sizeOf (owner mark) ∨ g.Spells n (image (owner mark))

/-- With some nodes a scope becomes another one, in which whatever is new is spelled. Of a graph
with these nodes something holds, if what was met before is spelled so far as it is smaller than
`size`. -/
structure Leads (names : Names) (owner : Mark → Value) (s : Scope) (next : Nat) (nodes : List Node)
    (size : Nat) (s' : Scope) (P : Graph → Prop) : Prop where
  fits : s'.Fits names
  spells : ∀ (g : Graph) (least : Nat), g.Holds next nodes → size ≤ least →
    s.Tells names owner g least → P g ∧ ∀ mark n, s'.place? names mark = some n →
      s.place? names mark = some n ∨ g.Spells n (image (owner mark))

theorem Leads.refl (h : s.Fits names) (next size : Nat) :
    s.Leads names owner next [] size s fun _ => True :=
  ⟨h, fun _ _ _ _ _ => ⟨trivial, fun _ _ => .inl⟩⟩

theorem Leads.imp (h : s.Leads names owner next nodes size s' P) (hPQ : ∀ g, P g → Q g) :
    s.Leads names owner next nodes size s' Q :=
  ⟨h.fits, fun g least hholds hle htells => (h.spells g least hholds hle htells).imp_left (hPQ g)⟩

theorem Leads.mono (h : s.Leads names owner next nodes size s' P) {size' : Nat}
    (hle : size ≤ size') : s.Leads names owner next nodes size' s' P :=
  ⟨h.fits, fun g least hholds hle' => h.spells g least hholds (hle.trans hle')⟩

theorem Leads.append (h : s.Leads names owner next nodes size s' P)
    (h' : s'.Leads names owner (next + nodes.length) more size s'' Q) :
    s.Leads names owner next (nodes ++ more) size s'' fun g => P g ∧ Q g := by
  refine ⟨h'.fits, fun g least hholds hle htells => ?_⟩
  obtain ⟨hnodes, hmore⟩ := Graph.holds_append hholds
  obtain ⟨hP, hnew⟩ := h.spells g least hnodes hle htells
  have htells' : s'.Tells names owner g least := fun mark n hplace =>
    (hnew mark n hplace).elim (htells mark n) .inr
  obtain ⟨hQ, hnew'⟩ := h'.spells g least hmore hle htells'
  exact ⟨⟨hP, hQ⟩, fun mark n hplace => (hnew' mark n hplace).elim (hnew mark n) .inr⟩

theorem Leads.cons {node : Node} (h : s.Leads names owner (next + 1) nodes size s' P) :
    s.Leads names owner next (node :: nodes) size s' fun g => g.get next = node ∧ P g := by
  refine ⟨h.fits, fun g least hholds hle htells => ?_⟩
  obtain ⟨hnode, hnodes⟩ := Graph.holds_cons hholds
  obtain ⟨hP, hnew⟩ := h.spells g least hnodes hle htells
  exact ⟨⟨hnode, hP⟩, hnew⟩

end Scope

/-! ## Values -/

section Compose

variable {names : Names} {owner : Mark → Value}

/-- The nodes of a value under a name, which a value with a mark of its own does not take on, spell
the image of the value. -/
def Composes (names : Names) (owner : Mark → Value) (v : Value) : Prop :=
  ∀ (name : Option Nat) (s : Scope) (next : Nat) (anchors : Anchors),
    anchor name next anchors = some s.anchors → s.Fits names →
    (name.isSome = true → v.content = v) →
    ∃ n nodes s', compose next anchors (ofValueNamed names name v s.met).1 =
        some (n, nodes, s'.anchors) ∧ (ofValueNamed names name v s.met).2 = s'.met ∧
      (name.isSome = true → n = next) ∧
      s.Leads names owner next nodes (sizeOf v) s' fun g => g.Spells n (image v)

theorem composes_of_scalar {v : Value} {tag : Tag} {content : Text} {asLines : Bool}
    (hdraft : ∀ names name met, ofValueNamed names name v met =
      (.scalar name tag content asLines, met)) (h : Gives tag content asLines (image v)) :
    Composes names owner v := by
  intro name s next anchors hname fits _
  refine ⟨next, [.scalar tag content], s, ?_, ?_, fun _ => rfl, ?_⟩
  · rw [hdraft, compose, hname]
    rfl
  · rw [hdraft]
  · exact (Scope.Leads.refl fits (next + 1) _).cons.imp fun g hg =>
      .scalar hg.1 h.isScalar (h.read next)

/-- The items of a sequence spell the images of the values. -/
theorem composes_items {items : List Value} (h : ∀ v ∈ items, Composes names owner v) {size : Nat}
    (hsize : ∀ v ∈ items, sizeOf v ≤ size) {s : Scope} (fits : s.Fits names) (next : Nat) :
    ∃ ns nodes s', composeItems next s.anchors (ofValues names items s.met).1 =
        some (ns, nodes, s'.anchors) ∧ (ofValues names items s.met).2 = s'.met ∧
      ns.length = (imageAll items).length ∧
      s.Leads names owner next nodes size s' fun g =>
        ∀ p ∈ ns.zip (imageAll items), g.Spells p.1 p.2 := by
  induction items generalizing s next with
  | nil =>
    exact ⟨[], [], s, rfl, rfl, rfl, (Scope.Leads.refl fits next size).imp fun _ _ =>
      List.forall_mem_nil _⟩
  | cons v rest ih =>
    obtain ⟨hv, hrest⟩ := List.forall_mem_cons.1 h
    obtain ⟨hsizev, hsizerest⟩ := List.forall_mem_cons.1 hsize
    obtain ⟨n, nodes, s', hcompose, hmet, -, hleads⟩ :=
      hv none s next _ rfl fits (by rintro ⟨⟩)
    obtain ⟨ns, more, s'', hcomposes, hmets, hlength, hmore⟩ :=
      ih hrest hsizerest hleads.fits (next + nodes.length)
    refine ⟨n :: ns, nodes ++ more, s'', ?_, ?_, congrArg Nat.succ hlength,
      ((hleads.mono hsizev).append hmore).imp fun g hg => List.forall_mem_cons.2 hg⟩
    · rw [ofValues]
      dsimp only
      rw [hmet, composeItems, hcompose]
      dsimp only [bind, Option.bind]
      rw [hcomposes]
      rfl
    · rw [ofValues]
      dsimp only
      rw [hmet, hmets]

/-- The entries of a mapping spell the images of the keys and the values. -/
theorem composes_entries {entries : List (Value × Value)}
    (hkeys : ∀ e ∈ entries, Composes names owner e.1)
    (hvalues : ∀ e ∈ entries, Composes names owner e.2) {size : Nat}
    (hsize : ∀ e ∈ entries, sizeOf e.1 ≤ size ∧ sizeOf e.2 ≤ size) {s : Scope}
    (fits : s.Fits names) (next : Nat) :
    ∃ ns nodes s', composeEntries next s.anchors (ofEntries names entries s.met).1 =
        some (ns, nodes, s'.anchors) ∧ (ofEntries names entries s.met).2 = s'.met ∧
      ns.length = entries.length ∧
      s.Leads names owner next nodes size s' fun g =>
        (∀ p ∈ (ns.map Prod.fst).zip (entries.map fun e => image e.1), g.Spells p.1 p.2) ∧
        ∀ p ∈ (ns.map Prod.snd).zip (entries.map fun e => image e.2), g.Spells p.1 p.2 := by
  induction entries generalizing s next with
  | nil =>
    exact ⟨[], [], s, rfl, rfl, rfl, (Scope.Leads.refl fits next size).imp fun _ _ =>
      ⟨List.forall_mem_nil _, List.forall_mem_nil _⟩⟩
  | cons e rest ih =>
    obtain ⟨k, v⟩ := e
    obtain ⟨hk, hkrest⟩ := List.forall_mem_cons.1 hkeys
    obtain ⟨hv, hvrest⟩ := List.forall_mem_cons.1 hvalues
    obtain ⟨hsizee, hsizerest⟩ := List.forall_mem_cons.1 hsize
    obtain ⟨n, nodes, s₁, hkey, hkeymet, -, hkeyleads⟩ :=
      hk none s next _ rfl fits (by rintro ⟨⟩)
    obtain ⟨m, nodes', s₂, hvalue, hvaluemet, -, hvalueleads⟩ :=
      hv none s₁ (next + nodes.length) _ rfl hkeyleads.fits (by rintro ⟨⟩)
    obtain ⟨ns, more, s₃, hcomposes, hmets, hlength, hmore⟩ :=
      ih hkrest hvrest hsizerest hvalueleads.fits (next + nodes.length + nodes'.length)
    refine ⟨(n, m) :: ns, nodes ++ (nodes' ++ more), s₃, ?_, ?_, congrArg Nat.succ hlength,
      ((hkeyleads.mono hsizee.1).append ((hvalueleads.mono hsizee.2).append hmore)).imp
        fun g hg => ⟨List.forall_mem_cons.2 ⟨hg.1, hg.2.2.1⟩,
          List.forall_mem_cons.2 ⟨hg.2.1, hg.2.2.2⟩⟩⟩
    · rw [ofEntries]
      dsimp only
      rw [hkeymet, hvaluemet, composeEntries, hkey]
      dsimp only [bind, Option.bind]
      rw [hvalue]
      dsimp only
      rw [hcomposes]
      rfl
    · rw [ofEntries]
      dsimp only
      rw [hkeymet, hvaluemet, hmets]

theorem anchor_eq_some {name : Option Nat} {next : Nat} {anchors : Anchors} {s : Scope}
    (h : anchor name next anchors = some s.anchors)
    (f : Anchors → Option (Nat × List Node × Anchors)) :
    (anchor name next anchors).bind f = f s.anchors := by
  rw [h]
  rfl

/-- A sequence spells the list of the images of its items. -/
theorem composes_sequence {v : Value} {items : List Value}
    (hdraft : ∀ name met, ofValueNamed names name v met =
      (.sequence name (ofValues names items met).1, (ofValues names items met).2))
    (himage : image v = .list (imageAll items)) (hsize : ∀ w ∈ items, sizeOf w ≤ sizeOf v)
    (h : ∀ w ∈ items, Composes names owner w) : Composes names owner v := by
  intro name s next anchors hname fits _
  obtain ⟨ns, nodes, s', hcomposes, hmet, hlength, hleads⟩ :=
    composes_items h hsize fits (next + 1)
  refine ⟨next, .sequence .seq ns :: nodes, s', ?_, by rw [hdraft, hmet], fun _ => rfl, ?_⟩
  · rw [hdraft, compose]
    dsimp only [bind]
    rw [anchor_eq_some hname, hcomposes]
    rfl
  · rw [himage]
    exact hleads.cons.imp fun g hg => .list hg.1 hlength hg.2

/-- The keys of the nodes of a mapping are no collections. -/
theorem isCollection_keys {g : Graph} {ns : List (Nat × Nat)} {entries : List (Value × Value)}
    (hlength : ns.length = entries.length)
    (hkeys : ∀ e ∈ entries, isScalar e.1 = true)
    (hspells : ∀ p ∈ (ns.map Prod.fst).zip (entries.map fun e => image e.1), g.Spells p.1 p.2) :
    ∀ e ∈ ns, Checker.isCollection (g.get e.1).tag = false := by
  intro e he
  have hlengths : (ns.map Prod.fst).length = (entries.map fun e => image e.1).length := by
    rw [List.length_map, List.length_map, hlength]
  obtain ⟨v, hv⟩ := Graph.exists_mem_zip_of_mem hlengths (List.mem_map_of_mem (f := Prod.fst) he)
  obtain ⟨entry, hentry, rfl⟩ := List.mem_map.1 (List.of_mem_zip hv).2
  exact (hspells _ hv).isCollection_of_isScalar
    ((isScalar_image entry.1).trans (hkeys entry hentry))

/-- A mapping or a set spells the images of its keys and values. -/
theorem composes_mapping {v : Value} (isSet : Bool) (entries : List (Value × Value))
    (hdraft : ∀ name met, ofValueNamed names name v met =
      (.mapping name isSet (ofEntries names entries met).1, (ofEntries names entries met).2))
    (himage : image v = if isSet then .ofMembers (entries.map fun e => image e.1)
      else .ofEntries ((entries.map fun e => image e.1).zip (entries.map fun e => image e.2)))
    (hscalars : ∀ e ∈ entries, isScalar e.1 = true)
    (hsize : ∀ e ∈ entries, sizeOf e.1 ≤ sizeOf v ∧ sizeOf e.2 ≤ sizeOf v)
    (hkeys : ∀ e ∈ entries, Composes names owner e.1)
    (hvalues : ∀ e ∈ entries, Composes names owner e.2) : Composes names owner v := by
  intro name s next anchors hname fits _
  obtain ⟨ns, nodes, s', hcomposes, hmet, hlength, hleads⟩ :=
    composes_entries hkeys hvalues hsize fits (next + 1)
  refine ⟨next, .mapping (if isSet then .set else .map) ns :: nodes, s', ?_,
    by rw [hdraft, hmet], fun _ => rfl, ?_⟩
  · rw [hdraft, compose]
    dsimp only [bind]
    rw [anchor_eq_some hname, hcomposes]
    rfl
  · have hlengths : ns.length = (entries.map fun e => image e.1).length ∧
        ns.length = (entries.map fun e => image e.2).length := by
      rw [List.length_map, List.length_map]
      exact ⟨hlength, hlength⟩
    rw [himage]
    refine hleads.cons.imp fun g hg => ?_
    have hcollection := isCollection_keys hlength hscalars hg.2.1
    cases isSet with
    | false => exact .map hg.1 hcollection hlengths hg.2.1 hg.2.2
    | true => exact .set hg.1 hcollection hlengths hg.2.1 hg.2.2

/-! ## Parts with a mark -/

section Shared

variable {mark : Mark} {v : Value} {i : Nat} (hi : names.name? mark = some i) {s : Scope}

include hi

/-- A part that is met again is the node of its name. -/
theorem leads_alias (one : owner mark = v) (fits : s.Fits names) (hmet : mark ∈ s.met)
    (next : Nat) : ∃ n, s.anchors.lookup (nameText i) = some n ∧
      s.Leads names owner next [] (sizeOf (Value.shared mark v)) s fun g =>
        g.Spells n (image v) := by
  obtain ⟨n, hn⟩ := Option.isSome_iff_exists.1 (fits.defined mark hmet i hi)
  have hplace : s.place? names mark = some n := by
    rw [Scope.place?, if_pos hmet, hi]
    exact hn
  refine ⟨n, hn, fits, fun g least _ hle htells => ⟨?_, fun _ _ => .inl⟩⟩
  rcases htells mark n hplace with hlarge | hspells
  · -- the part would be inside itself
    rw [one] at hlarge
    have hsize : sizeOf (Value.shared mark v) = 1 + sizeOf mark + sizeOf v := rfl
    omega
  · rwa [one] at hspells

/-- The scope behind the name of a part that is met for the first time. -/
theorem fits_first (distinct : names.Distinct) (fits : s.Fits names) (hmet : mark ∉ s.met)
    (next : Nat) : anchor (some i) next s.anchors = some ((nameText i, next) :: s.anchors) ∧
      Scope.Fits names ⟨mark :: s.met, (nameText i, next) :: s.anchors⟩ ∧
      ∀ m n, Scope.place? names ⟨mark :: s.met, (nameText i, next) :: s.anchors⟩ m = some n →
        m = mark ∧ n = next ∨ s.place? names m = some n := by
  have hfresh : ¬(s.anchors.lookup (nameText i)).isSome = true := fun hsome => by
    obtain ⟨mark', hmem, hmark'⟩ := fits.used i hsome
    exact hmet (distinct.unique hmark' hi ▸ hmem)
  -- The names are distinct, so that the new one hides none of the others.
  have hne : ∀ {m j}, m ≠ mark → names.name? m = some j →
      ((nameText i, next) :: s.anchors).lookup (nameText j) = s.anchors.lookup (nameText j) := by
    intro m j hm hj
    have hnames : nameText j ≠ nameText i := fun heq =>
      hm (distinct.unique hj (nameText_injective heq ▸ hi))
    rw [List.lookup_cons, beq_false_of_ne hnames]
  refine ⟨if_neg hfresh, ⟨?_, ?_⟩, ?_⟩
  · intro m hm j hj
    by_cases heq : m = mark
    · rw [heq, hi] at hj
      cases hj
      rw [List.lookup_cons_self]
      rfl
    · rw [hne heq hj]
      exact fits.defined m ((List.mem_cons.1 hm).resolve_left heq) j hj
  · intro j hj
    by_cases heq : nameText j = nameText i
    · exact ⟨mark, List.mem_cons_self, nameText_injective heq ▸ hi⟩
    · rw [List.lookup_cons, beq_false_of_ne heq] at hj
      obtain ⟨m, hm, hname⟩ := fits.used j hj
      exact ⟨m, List.mem_cons_of_mem _ hm, hname⟩
  · intro m n hplace
    rw [Scope.place?] at hplace
    split at hplace
    · next hm =>
      obtain ⟨j, hj, hlookup⟩ := Option.bind_eq_some_iff.1 hplace
      by_cases heq : m = mark
      · rw [heq, hi] at hj
        cases hj
        rw [List.lookup_cons_self] at hlookup
        exact .inl ⟨heq, (Option.some.inj hlookup).symm⟩
      · rw [hne heq hj] at hlookup
        refine .inr ?_
        rw [Scope.place?, if_pos ((List.mem_cons.1 hm).resolve_left heq), hj]
        exact hlookup
    · cases hplace

end Shared

/-- A part with a mark spells what is under the mark. -/
theorem composes_shared (distinct : names.Distinct) {mark : Mark} {v : Value} (one : owner mark = v)
    (unshared : v.content = v) (h : Composes names owner v) :
    Composes names owner (.shared mark v) := by
  have hsize : sizeOf (Value.shared mark v) = 1 + sizeOf mark + sizeOf v := rfl
  intro name s next anchors hname fits hown
  -- Only what is under a mark is given a name, so there is none here.
  have hnone : name = none := by
    cases name with
    | none => rfl
    | some i =>
      have hsame : v = .shared mark v := unshared.symm.trans (hown rfl)
      have hsizes := congrArg sizeOf hsame
      omega
  cases hnone
  cases hname
  cases hi : names.name? mark with
  | none =>
    have hdraft : ofValueNamed names none (.shared mark v) s.met =
        ofValueNamed names none v s.met := by
      rw [ofValueNamed, hi]
    obtain ⟨n, nodes, s', hcompose, hmet, -, hleads⟩ :=
      h none s next _ rfl fits (by rintro ⟨⟩)
    refine ⟨n, nodes, s', by rw [hdraft, hcompose], by rw [hdraft, hmet], by rintro ⟨⟩, ?_⟩
    exact hleads.mono (by omega)
  | some i =>
    by_cases hmem : mark ∈ s.met
    · have hdraft : ofValueNamed names none (.shared mark v) s.met = (.alias i, s.met) := by
        rw [ofValueNamed, hi]
        exact if_pos (List.contains_iff_mem.2 hmem)
      obtain ⟨n, hn, hleads⟩ := leads_alias hi one fits hmem next
      refine ⟨n, [], s, ?_, by rw [hdraft], by rintro ⟨⟩, hleads⟩
      rw [hdraft, compose, hn]
      rfl
    · have hdraft : ofValueNamed names none (.shared mark v) s.met =
          ofValueNamed names (some i) v (mark :: s.met) := by
        rw [ofValueNamed, hi]
        exact if_neg fun hcontains => hmem (List.contains_iff_mem.1 hcontains)
      obtain ⟨hanchor, hfits, hplaces⟩ := fits_first hi distinct fits hmem next
      obtain ⟨n, nodes, s', hcompose, hmet, hn, hleads⟩ :=
        h (some i) _ next _ hanchor hfits fun _ => unshared
      cases hn rfl
      refine ⟨next, nodes, s', by rw [hdraft, hcompose], by rw [hdraft, hmet], by rintro ⟨⟩,
        hleads.fits, fun g least hholds hle htells => ?_⟩
      -- inside the part it counts as one of those that are around
      obtain ⟨hspells, hnew⟩ := hleads.spells g (sizeOf v) hholds (Nat.le_refl _) (by
        intro m j hm
        rcases hplaces m j hm with ⟨rfl, -⟩ | hm
        · exact .inl (by rw [one])
        · exact (htells m j hm).imp_left fun hlarge => by omega)
      refine ⟨hspells, fun m j hm => ?_⟩
      rcases hnew m j hm with hm | hm
      · rcases hplaces m j hm with ⟨rfl, rfl⟩ | hm
        · rw [one]
          exact .inr hspells
        · exact .inl hm
      · exact .inr hm

/-- A part of a value is not larger than the value. -/
theorem sizeOf_le_of_mem_parts {v : Value} : ∀ part ∈ v.parts, sizeOf part ≤ sizeOf v := by
  intro part hpart
  cases v with
  | list items | tuple items | set items =>
    have hlt : sizeOf part < sizeOf items := List.sizeOf_lt_of_mem hpart
    simp
    omega
  | map entries =>
    obtain ⟨e, he, hpart⟩ := List.mem_flatMap.1 hpart
    have hlt : sizeOf e < sizeOf entries := List.sizeOf_lt_of_mem he
    have hentry : sizeOf e = 1 + sizeOf e.1 + sizeOf e.2 := rfl
    have hmap : sizeOf (Value.map entries) = 1 + sizeOf entries := by simp
    rcases List.mem_pair.1 hpart with rfl | rfl <;> omega
  | shared mark v =>
    rw [List.mem_singleton.1 hpart]
    simp
  | _ => cases hpart

/-- A set is written as a mapping whose values are null. -/
theorem ofEntries_members (items : List Value) (met : List Mark) :
    ofEntries names (items.map fun v => (v, .null)) met =
      ((ofValues names items met).1.map fun d => (d, line none .null (Text.ofString "null")),
        (ofValues names items met).2) := by
  induction items generalizing met with
  | nil => rfl
  | cons v rest ih =>
    rw [List.map_cons, ofEntries, ofValues]
    dsimp only
    rw [show ofValueNamed names none .null (ofValueNamed names none v met).2 =
      (line none .null (Text.ofString "null"), (ofValueNamed names none v met).2) from rfl]
    dsimp only
    rw [ih, List.map_cons]

/-- The nodes of a value that can be loaded spell its image. -/
theorem composes_of_loadable (distinct : names.Distinct) {v : Value} (h : Loadable owner v) :
    v.isSpellable = true → Composes names owner v := by
  refine Loadable.induct (P := fun v => v.isSpellable = true → Composes names owner v)
    ?scalar ?list ?tuple ?set ?map ?shared h
  case scalar =>
    intro v h hscalar hcontent hspellable
    obtain ⟨tag, content, asLines, hdraft, hgives⟩ := h.exists_scalar hscalar hcontent hspellable
    exact composes_of_scalar hdraft hgives
  case list =>
    intro items ih hspellable
    exact composes_sequence (fun _ _ => rfl) rfl (sizeOf_le_of_mem_parts (v := .list items))
      fun w hw => ih w hw (Value.areSpellable_iff.1 hspellable w hw)
  case tuple =>
    intro items ih hspellable
    exact composes_sequence (fun _ _ => rfl) rfl (sizeOf_le_of_mem_parts (v := .tuple items))
      fun w hw => ih w hw (Value.areSpellable_iff.1 hspellable w hw)
  case set =>
    intro items scalars ih hspellable
    have hnull : Composes names owner .null := composes_of_scalar (fun _ _ _ => rfl) gives_null
    refine composes_mapping true (items.map fun v => (v, .null))
      (fun name met => ?_) ?_ (List.forall_mem_map.2 scalars)
      (List.forall_mem_map.2 fun w hw => ?_) (List.forall_mem_map.2 fun w hw => ?_)
      (List.forall_mem_map.2 fun _ _ => hnull)
    · rw [ofEntries_members]
      rfl
    · rw [if_pos rfl, List.map_map, image, imageAll_eq_map]
      rfl
    · have hle := sizeOf_le_of_mem_parts (v := .set items) w hw
      exact ⟨hle, by simp⟩
    · exact ih w hw (Value.areSpellable_iff.1 hspellable w hw)
  case map =>
    intro entries scalars ihk ihv hspellable
    have hspellables := Value.areSpellableEntries_iff.1 hspellable
    refine composes_mapping _ _ (fun _ _ => rfl) ?_ scalars
      (fun e he => ⟨sizeOf_le_of_mem_parts _ (Value.key_mem_parts he),
        sizeOf_le_of_mem_parts _ (Value.value_mem_parts he)⟩)
      (fun e he => ihk e he (hspellables e he).1) fun e he => ihv e he (hspellables e he).2
    rw [if_neg Bool.false_ne_true, image, imageEntries_eq_map, List.zip_map']
    rfl
  case shared =>
    intro mark v one unshared ih hspellable
    exact composes_shared distinct one unshared (ih hspellable)

end Compose

/-! ## Drafts of values -/

section Drawn

variable {names : Names}

theorem drawn_items {items : List Value}
    (h : ∀ v ∈ items, ∀ name met, Drawn (ofValueNamed names name v met).1) (met : List Mark) :
    ∀ d ∈ (ofValues names items met).1, Drawn d := by
  induction items generalizing met with
  | nil => exact List.forall_mem_nil _
  | cons v rest ih =>
    obtain ⟨hv, hrest⟩ := List.forall_mem_cons.1 h
    exact List.forall_mem_cons.2 ⟨hv none met, ih hrest _⟩

theorem drawn_entries {entries : List (Value × Value)}
    (hkeys : ∀ e ∈ entries, ∀ name met, Drawn (ofValueNamed names name e.1 met).1)
    (hvalues : ∀ e ∈ entries, ∀ name met, Drawn (ofValueNamed names name e.2 met).1)
    (met : List Mark) : ∀ e ∈ (ofEntries names entries met).1, Drawn e.1 ∧ Drawn e.2 := by
  induction entries generalizing met with
  | nil => exact List.forall_mem_nil _
  | cons e rest ih =>
    obtain ⟨hk, hkrest⟩ := List.forall_mem_cons.1 hkeys
    obtain ⟨hv, hvrest⟩ := List.forall_mem_cons.1 hvalues
    exact List.forall_mem_cons.2 ⟨⟨hk none met, hv none _⟩, ih hkrest hvrest _⟩

/-- All scalars in the draft of a value that can be loaded are drafts of values. -/
theorem drawn_of_loadable {owner : Mark → Value} {v : Value} (h : Loadable owner v) :
    v.isSpellable = true → ∀ name met, Drawn (ofValueNamed names name v met).1 := by
  refine Loadable.induct (P := fun v => v.isSpellable = true → ∀ name met,
    Drawn (ofValueNamed names name v met).1) ?scalar ?list ?tuple ?set ?map ?shared h
  case scalar =>
    intro v h hscalar hcontent hspellable name met
    obtain ⟨tag, content, asLines, hdraft, hgives⟩ := h.exists_scalar hscalar hcontent hspellable
    rw [hdraft]
    exact .scalar hgives.drawn
  case list | tuple =>
    intro items ih hspellable name met
    exact .sequence (drawn_items (fun w hw =>
      ih w hw (Value.areSpellable_iff.1 hspellable w hw)) met)
  case set =>
    intro items scalars ih hspellable name met
    have hitems := drawn_items (fun w hw =>
      ih w hw (Value.areSpellable_iff.1 hspellable w hw)) met
    exact .mapping (List.forall_mem_map.2 hitems)
      (List.forall_mem_map.2 fun _ _ => .scalar gives_null.drawn)
  case map =>
    intro entries scalars ihk ihv hspellable name met
    have hspellables := Value.areSpellableEntries_iff.1 hspellable
    have hentries := drawn_entries (fun e he => ihk e he (hspellables e he).1)
      (fun e he => ihv e he (hspellables e he).2) met
    exact .mapping (fun e he => (hentries e he).1) fun e he => (hentries e he).2
  case shared =>
    intro mark v one unshared ih hspellable name met
    rw [ofValueNamed]
    split
    · exact ih hspellable name met
    · split
      · exact .alias _
      · exact ih hspellable _ _

end Drawn

/-! ## Values as a whole -/

/-- The draft of a value that can be loaded has nodes that spell the image of the value. -/
theorem spells_ofValue {owner : Mark → Value} {v : Value} (h : Loadable owner v)
    (hspellable : v.isSpellable = true) : ∃ n nodes anchors,
      compose 0 [] (ofValue v) = some (n, nodes, anchors) ∧
        Graph.Spells ⟨nodes.toArray⟩ n (image v) := by
  have distinct : (gather v ⟨[], []⟩).Distinct :=
    distinct_gather v ⟨List.forall_mem_nil _, List.nodup_nil⟩
  have fits : Scope.Fits (gather v ⟨[], []⟩) ⟨[], []⟩ :=
    ⟨fun _ hm => absurd hm List.not_mem_nil, fun _ hlookup => by cases hlookup⟩
  obtain ⟨n, nodes, s', hcompose, -, -, hleads⟩ :=
    composes_of_loadable distinct h hspellable none _ 0 _ rfl fits (by rintro ⟨⟩)
  refine ⟨n, nodes, s'.anchors, hcompose, ?_⟩
  refine (hleads.spells ⟨nodes.toArray⟩ (sizeOf v) (fun i node hi => ?_) (Nat.le_refl _) ?_).1
  · rw [Graph.get, Nat.zero_add, List.getElem?_toArray, hi]
    rfl
  · intro mark n hplace
    cases hplace

end Draft

end SiteRules.Yaml
