import SiteRules.Proofs.Yaml.Composer
import SiteRules.Proofs.Yaml.Plain
import SiteRules.Yaml.Graph.Check

/-!
# What the check of a graph finds

The check of a graph ends in a graph, or its structure breaks a rule, or reading one of its nodes
fails (`Graph.check_fails`). The fault of a node names a rule that is broken, or the node is not of
the kind it is marked as (`Node.Fails.rule_or_misfits`). Taking out merge keys makes no node fail
that did not fail before (`Graph.Keeps`).
-/

namespace SiteRules.Yaml

/-- Whether the values of a kind are spelled by scalars. The key of a value is a text where it does
not stand for a mapping. -/
def Tag.isScalar : Tag → Bool
  | .null | .bool | .int | .float | .binary | .timestamp | .str | .value => true
  | _ => false

/-- A node is not of the kind that it is marked as. A mapping can be marked as a scalar: then it
stands for the one under its value key. -/
inductive Node.Misfits : Node → Fault → Prop
  | scalar {tag : Tag} {content : Text} {fault : Fault} (h : Scalar.Misfit tag content fault) :
      Misfits (.scalar tag content) fault
  | under {tag : Tag} {entries : List (Nat × Nat)} {content : Text} {fault : Fault}
      (h : Scalar.Misfit tag content fault) : Misfits (.mapping tag entries) fault
  | endless {tag : Tag} {entries : List (Nat × Nat)} (h : tag.isScalar = true) :
      Misfits (.mapping tag entries) .endless
  | time {entries : List (Nat × Nat)} : Misfits (.mapping .timestamp entries) .timeMapping

/-- Reading a node fails. A mapping that is marked as a scalar is read as the one under its value
key. -/
inductive Node.Fails : Node → Fault → Prop
  | scalar {tag : Tag} {number : Nat} {content : Text} {fault : Fault}
      (h : Scalar.read tag number content = .error fault) : Fails (.scalar tag content) fault
  | under {tag : Tag} {entries : List (Nat × Nat)} {number : Nat} {content : Text} {fault : Fault}
      (h : Scalar.read tag number content = .error fault) : Fails (.mapping tag entries) fault
  | endless {tag : Tag} {entries : List (Nat × Nat)} (h : tag.isScalar = true) :
      Fails (.mapping tag entries) .endless
  | time {entries : List (Nat × Nat)} : Fails (.mapping .timestamp entries) .timeMapping

namespace Node.Fails

theorem of_entries {tag : Tag} {entries others : List (Nat × Nat)} {fault : Fault}
    (h : Fails (.mapping tag entries) fault) : Fails (.mapping tag others) fault := by
  cases h with
  | under h => exact .under h
  | endless h => exact .endless h
  | time => exact .time

/-- Reading a text does not fail, and a mapping that is marked as a text was one that is marked as
the key of a value. -/
theorem of_withTag_str {node : Node} {fault : Fault} (htag : node.tag = .value)
    (h : Fails (node.withTag .str) fault) : Fails node fault := by
  cases node with
  | scalar tag content =>
    cases h with
    | scalar h => cases h
  | sequence tag items => cases h
  | mapping tag entries =>
    cases h with
    | under h => cases h
    | endless _ =>
      rw [show tag = .value from htag]
      exact .endless rfl

/-- A node that fails breaks a rule, or it is not of the kind it is marked as. -/
theorem rule_or_misfits {node : Node} {fault : Fault} (h : Fails node fault) :
    fault.IsRule ∨ node.Misfits fault := by
  cases h with
  | scalar h => exact ((Scalar.read_spec _ _ _).of_error h).imp_right .scalar
  | under h => exact ((Scalar.read_spec _ _ _).of_error h).imp_right .under
  | endless h => exact .inr (.endless h)
  | time => exact .inr .time

end Node.Fails

/-- A node whose kind is the one that its spelling gives fails only as a plain scalar that has no
value. -/
theorem Node.Untagged.lapse_of_fails {node : Node} {fault : Fault} (h : node.Untagged)
    (hfails : node.Fails fault) : fault = .malformed ∨ ∃ content,
      node = .scalar (.ofPlain content) content ∧ Scalar.Lapse content fault := by
  cases hfails with
  | scalar hread =>
    rcases h with rfl | ⟨rfl, hend⟩
    · cases hread
    · exact ((Scalar.read_ofPlain hend _).of_error hread).imp_right fun hlapse => ⟨_, rfl, hlapse⟩
  | under hread =>
    cases (show _ = Tag.map from h)
    cases hread
    exact .inl rfl
  | endless hscalar =>
    cases (show _ = Tag.map from h)
    cases hscalar
  | time => cases (show Tag.timestamp = Tag.map from h)

namespace Graph

/-! ## Taking out merge keys -/

/-- No node of a graph fails that does not fail in another one, and the graph has all mappings of
that one. -/
structure Keeps (g g' : Graph) : Prop where
  fails {n : Nat} {fault : Fault} : (g'.get n).Fails fault → (g.get n).Fails fault
  isMapping {n : Nat} : g.isMapping n = true → g'.isMapping n = true

theorem isMapping_eq_true_iff {g : Graph} {n : Nat} :
    g.isMapping n = true ↔ ∃ tag entries, g.get n = .mapping tag entries := by
  rw [isMapping]
  cases g.get n <;> simp

theorem isMapping_of_mem_entries {g : Graph} {n : Nat} {entry : Nat × Nat}
    (h : entry ∈ g.entries n) : g.isMapping n = true := by
  rw [entries] at h
  rw [isMapping]
  split at h
  · rfl
  · cases h

namespace Keeps

variable {g g' g'' : Graph}

theorem refl (g : Graph) : Keeps g g :=
  ⟨id, id⟩

theorem trans (h : Keeps g g') (h' : Keeps g' g'') : Keeps g g'' :=
  ⟨fun hfails => h.fails (h'.fails hfails),
    fun hmapping => h'.isMapping (h.isMapping hmapping)⟩

/-- A node is put in the place of one. -/
theorem set {n : Nat} {node : Node}
    (hfails : ∀ {fault : Fault}, node.Fails fault → (g.get n).Fails fault)
    (hmapping : g.isMapping n = true → ∃ tag entries, node = .mapping tag entries) :
    Keeps g (g.set n node) := by
  constructor
  · intro m fault h
    rw [get_set] at h
    split at h
    · next heq => exact heq.1 ▸ hfails h
    · exact h
  · intro m h
    rw [isMapping_eq_true_iff, get_set]
    split
    · next heq => exact hmapping (heq.1 ▸ h)
    · exact isMapping_eq_true_iff.1 h

theorem setEntries {n : Nat} (h : g.isMapping n = true) (entries : List (Nat × Nat)) :
    Keeps g (g.setEntries n entries) := by
  obtain ⟨tag, others, hget⟩ := isMapping_eq_true_iff.1 h
  refine set (fun hfails => ?_) fun _ => ⟨_, _, rfl⟩
  rw [hget] at hfails ⊢
  exact hfails.of_entries

theorem plainKey (g : Graph) (key : Nat) : Keeps g (g.plainKey key) := by
  rw [Graph.plainKey]
  split
  · next htag =>
    refine set (fun hfails => hfails.of_withTag_str htag) fun hmapping => ?_
    obtain ⟨tag, entries, hget⟩ := isMapping_eq_true_iff.1 hmapping
    exact ⟨.str, entries, by rw [hget]; rfl⟩
  · exact refl g

theorem plainKeys (g : Graph) (entries : List (Nat × Nat)) :
    Keeps g (entries.foldl (fun g entry => g.plainKey entry.1) g) := by
  induction entries generalizing g with
  | nil => exact refl g
  | cons entry rest ih => exact (plainKey g entry.1).trans (ih _)

end Keeps

/-- What the two steps of taking over entries keep with a given fuel. -/
structure Flattens (fuel : Nat) : Prop where
  from_ {g : Graph} {n : Nat} (h : g.isMapping n = true) (index : Nat)
    (merged : List (Nat × Nat)) :
    EndsIn (· = Fault.malformed) (Keeps g) (flattenFrom fuel n index merged g)
  all (items : List Nat) (g : Graph) :
    EndsIn (· = Fault.malformed) (fun made => Keeps g made.2) (flattenAll fuel items g)

namespace Flattens

variable {fuel : Nat} (ih : Flattens fuel) {g : Graph}

include ih

theorem from_succ {n : Nat} (h : g.isMapping n = true) (index : Nat)
    (merged : List (Nat × Nat)) :
    EndsIn (· = Fault.malformed) (Keeps g) (flattenFrom (fuel + 1) n index merged g) := by
  rw [flattenFrom]
  extract_lets without
  have hplain := Keeps.plainKeys g
    (((g.entries n).drop index).takeWhile fun entry => !g.isMerge entry)
  split
  · refine EndsIn.ok ?_
    split
    · exact hplain
    · exact hplain.trans (.setEntries (hplain.isMapping h) _)
  · -- the merge key is taken out, and what it merges is flattened first
    have hwithout : Keeps g without := hplain.trans (.setEntries (hplain.isMapping h) _)
    have hgo : ∀ {g' : Graph}, Keeps g g' → ∀ index merged,
        EndsIn (· = Fault.malformed) (Keeps g) (flattenFrom fuel n index merged g') :=
      fun h' index merged => (ih.from_ (h'.isMapping h) index merged).mono (fun _ => id)
        fun _ hkeeps => h'.trans hkeeps
    split
    · next hget =>
      have hvalue := isMapping_eq_true_iff.2 ⟨_, _, hget⟩
      exact (ih.from_ hvalue 0 []).bind fun _ hkeeps => hgo (hwithout.trans hkeeps) _ _
    · exact (ih.all _ without).bind fun _ hkeeps => hgo (hwithout.trans hkeeps) _ _
    · exact rfl

theorem all_succ (items : List Nat) (g : Graph) :
    EndsIn (· = Fault.malformed) (fun made => Keeps g made.2)
      (flattenAll (fuel + 1) items g) := by
  cases items with
  | nil => exact .refl g
  | cons n rest =>
    rw [flattenAll]
    by_cases h : g.isMapping n = true
    · rw [h]
      exact (ih.from_ h 0 []).bind fun g' hkeeps => (ih.all rest g').bind fun _ hrest =>
        hkeeps.trans hrest
    · rw [Bool.eq_false_iff.2 h]
      exact rfl

end Flattens

/-- The two steps call each other with less fuel, so this holds of both at once. -/
theorem flattens (fuel : Nat) : Flattens fuel := by
  induction fuel with
  | zero => constructor <;> intros <;> exact rfl
  | succ fuel ih => exact ⟨ih.from_succ, ih.all_succ⟩

theorem flatten_spec (g : Graph) (n : Nat) :
    EndsIn (· = Fault.malformed) (Keeps g) (g.flatten n) := by
  rw [flatten]
  refine .ite (fun hmerge => ?_) fun _ => .plainKeys g _
  obtain ⟨entry, hentry, -⟩ := List.any_eq_true.1 hmerge
  exact (flattens _).from_ (isMapping_of_mem_entries hentry) 0 []

end Graph

namespace Checker

/-! ## Scalars -/

theorem content_spec (g : Graph) (fuel n : Nat) :
    EndsIn (fun fault => fault = .malformed ∨ fault = .endless) (fun _ => True)
      (content g fuel n) := by
  induction fuel generalizing n with
  | zero => exact .inr rfl
  | succ fuel ih =>
    rw [content]
    split
    · exact trivial
    · exact .inl rfl
    · split
      · exact ih _
      · exact .inl rfl

theorem isScalar_of_not_isCollection {tag : Tag} (h : isCollection tag = false)
    (hunknown : ∀ uri, tag ≠ .unknown uri) (hmerge : tag ≠ .merge) : tag.isScalar = true := by
  cases tag with
  | unknown uri => exact absurd rfl (hunknown uri)
  | merge => exact absurd rfl hmerge
  | seq | map | set | omap | pairs => cases h
  | _ => rfl

/-- A node that is no collection has a value, or it is not put together as its kind asks, or reading
it fails. -/
theorem scalarValue_spec {g : Graph} {n : Nat} (h : isCollection (g.get n).tag = false) :
    EndsIn (fun fault => fault = .malformed ∨ (g.get n).Fails fault) (fun _ => True)
      (scalarValue g n) := by
  rw [scalarValue]
  split
  · exact .inl rfl
  · exact .inl rfl
  · exact .inl rfl
  · next hunknown hmerge _ =>
    cases hget : g.get n with
    | scalar tag t =>
      have hcontent : content g (g.size + 1) n = .ok t := by rw [content, hget]
      have hmapping : g.isMapping n = false := by rw [Graph.isMapping, hget]
      rw [hcontent, hmapping, Bool.and_false]
      exact EndsIn.of_cases (fun fault hread => .inr (.scalar hread)) fun _ _ => trivial
    | sequence tag items =>
      have hcontent : content g (g.size + 1) n = .error .malformed := by rw [content, hget]
      rw [hcontent]
      exact .inl rfl
    | mapping tag entries =>
      rw [hget] at h hunknown hmerge
      have hscalar := isScalar_of_not_isCollection h hunknown hmerge
      refine EndsIn.bind ((content_spec g _ n).weaken ?_) fun t _ => .ite (fun htime => ?_) fun _ =>
        EndsIn.of_cases (fun fault hread => .inr (.under hread)) fun _ _ => trivial
      · rintro _ (rfl | rfl)
        · exact .inl rfl
        · exact .inr (.endless hscalar)
      · rw [Bool.and_eq_true, decide_eq_true_eq] at htime
        cases (show tag = .timestamp from htime.1)
        exact .inr .time

/-! ## Visits -/

/-- A step of the check finds a broken rule, or a node of the graph that fails, or it ends in a
graph in which no other nodes fail. -/
abbrev Checks (g : Graph) : Except Fault Checker → Prop :=
  EndsIn (fun fault => fault = .malformed ∨ ∃ n, (g.get n).Fails fault) fun s => g.Keeps s.graph

/-- What the two steps of the check keep with a given fuel. -/
structure Visits (g : Graph) (fuel : Nat) : Prop where
  node (deep : Bool) (n : Nat) {s : Checker} (h : g.Keeps s.graph) :
    Checks g (visit deep fuel n s)
  content (deep : Bool) (n : Nat) {s : Checker} (h : g.Keeps s.graph) :
    Checks g (visitContent deep fuel n s)

namespace Visits

variable {g : Graph} {fuel : Nat} (ih : Visits g fuel) {s : Checker}

include ih

theorem node_succ (deep : Bool) (n : Nat) (h : g.Keeps s.graph) :
    Checks g (visit deep (fuel + 1) n s) := by
  rw [visit]
  refine .ite (fun _ => h) fun _ => .ite (fun _ => .inl rfl) fun _ =>
    .ite (fun _ => .ite (fun _ => ?_) fun _ => h) fun hscalar => ?_
  · exact EndsIn.bind (ih.content true n h) fun s hs => EndsIn.ok hs
  · have hvalue := scalarValue_spec (Bool.eq_false_iff.2 hscalar)
    exact EndsIn.bind (hvalue.weaken fun _ => .imp_right fun hfails => ⟨n, h.fails hfails⟩)
      fun _ _ => h

theorem entry (deep : Bool) (key value : Nat) (h : g.Keeps s.graph) : Checks g (do
    let s ← visit true fuel key s
    if isCollection (s.graph.get key).tag then throw .malformed
    visit deep fuel value s) :=
  EndsIn.bind (ih.node true key h) fun _ hs => .check (.inl rfl) (ih.node deep value hs)

theorem pair (deep : Bool) (m : Nat) (h : g.Keeps s.graph) :
    Checks g (match s.graph.get m with
      | .mapping _ [(key, value)] => do
        let s ← visit deep fuel key s
        visit deep fuel value s
      | _ => throw .malformed) := by
  split
  · exact EndsIn.bind (ih.node deep _ h) fun _ hs => ih.node deep _ hs
  · exact .inl rfl

theorem content_succ (deep : Bool) (n : Nat) (h : g.Keeps s.graph) :
    Checks g (visitContent deep (fuel + 1) n s) := by
  have hflatten : EndsIn (fun fault => fault = .malformed ∨ ∃ n, (g.get n).Fails fault)
      (Graph.Keeps g) (s.graph.flatten n) :=
    (s.graph.flatten_spec n).mono (fun _ => .inl) fun _ hkeeps => h.trans hkeeps
  rw [visitContent]
  split
  · exact EndsIn.foldlM (fun s m hs => ih.node deep m hs) h _
  · exact hflatten.bind fun _ hkeeps =>
      EndsIn.foldlM (fun s entry hs => ih.entry deep entry.1 entry.2 hs) hkeeps _
  · exact hflatten.bind fun _ hkeeps =>
      EndsIn.foldlM (fun s entry hs => ih.entry deep entry.1 entry.2 hs) hkeeps _
  · exact EndsIn.foldlM (fun s m hs => ih.pair deep m hs) h _
  · exact EndsIn.foldlM (fun s m hs => ih.pair deep m hs) h _
  · exact .inl rfl

end Visits

/-- The two steps call each other with less fuel, so this holds of both at once. -/
theorem visits (g : Graph) (fuel : Nat) : Visits g fuel := by
  induction fuel with
  | zero => constructor <;> intros <;> exact .inl rfl
  | succ fuel ih =>
    exact ⟨fun deep n _ h => ih.node_succ deep n h, fun deep n _ h => ih.content_succ deep n h⟩

theorem levels_spec {g : Graph} (fuel levels : Nat) {s : Checker} (h : g.Keeps s.graph) :
    Checks g (s.visitLevels fuel levels) := by
  induction levels generalizing s with
  | zero => exact .inl rfl
  | succ levels ih =>
    rw [visitLevels]
    refine .ite (fun _ => h) fun _ => EndsIn.bind
      (EndsIn.foldlM (fun s n hs => (visits g fuel).content false n hs) ?_ _) fun _ hs => ih hs
    exact h

end Checker

/-- The check of a graph finds a broken rule, or a node of the graph that fails, or it ends in a
graph. -/
theorem Graph.check_fails (g : Graph) (root : Nat) :
    EndsIn (fun fault => fault = .malformed ∨ ∃ n, (g.get n).Fails fault) (Keeps g)
      (g.check root) :=
  EndsIn.bind ((Checker.visits g _).node false root (.refl g)) fun _ hs =>
    EndsIn.bind (Checker.levels_spec _ _ hs) fun _ hs => EndsIn.ok hs

end SiteRules.Yaml
