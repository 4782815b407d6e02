import SiteRules.Proofs.Yaml.Lexer
import SiteRules.Yaml.Graph.OfTokens

/-!
# What the composer makes

The graph of a text ends in a fault of the text, or in nodes of which each has the kind that its
spelling gives, unless the text holds an exclamation mark (`Graph.ofTokens_spec`).
-/

namespace SiteRules.Yaml

/-! ## Nodes -/

/-- The kind of a node is the one that its spelling gives. -/
def Node.Untagged : Node → Prop
  | .scalar tag content =>
    tag = .str ∨ (tag = .ofPlain content ∧ ∀ d ∈ content.getLast?, d ≠ CodePoint.ofChar '\n')
  | .sequence tag _ => tag = .seq
  | .mapping tag _ => tag = .map

namespace Graph

theorem get_set (g : Graph) (n m : Nat) (node : Node) :
    (g.set n node).get m = if n = m ∧ n < g.size then node else g.get m := by
  rw [get, set, get, size, Array.getElem?_setIfInBounds]
  by_cases hnm : n = m
  · subst hnm
    by_cases hlt : n < g.nodes.size
    · simp [hlt]
    · simp [hlt]
  · simp [hnm]

theorem get_push (g : Graph) (m : Nat) (node : Node) :
    (g.push node).2.get m = if m = g.size then node else g.get m := by
  rw [get, push, get, size, Array.getElem?_push]
  split <;> rfl

end Graph

namespace Composer

/-- The tokens to come were found in the text, the fault behind them is one of the text, and the
nodes so far have the kinds that their spellings give, unless the text holds a tag. -/
structure Sound (text : List Char) (s : Composer) : Prop where
  tokens : ∀ t ∈ s.tokens, t.FoundIn text
  fault : ∀ f ∈ s.fault, IsLexical text f
  nodes : ∀ n, '!' ∈ text ∨ (s.graph.get n).Untagged

/-- A step of the composer stops with a fault of the text or goes on in it. -/
abbrev Composes (text : List Char) {α : Type} : Except Fault (α × Composer) → Prop :=
  EndsIn (IsLexical text) fun made => made.2.Sound text

variable {text : List Char} {s : Composer}

/-! ## The state -/

theorem Sound.peek (h : s.Sound text) : EndsIn (IsLexical text) (Token.FoundIn text) s.peek := by
  rw [Composer.peek]
  split
  · next htokens => exact h.tokens _ (by rw [htokens]; exact List.mem_cons_self)
  · cases hfault : s.fault with
    | none => exact trivial
    | some fault => exact h.fault fault hfault

theorem Sound.drop (h : s.Sound text) : s.drop.Sound text :=
  ⟨fun t ht => h.tokens t (List.mem_of_mem_tail ht), h.fault, h.nodes⟩

theorem Sound.define (h : s.Sound text) (name : Option (List Char)) (n : Nat) :
    (s.define name n).Sound text := by
  cases name <;> exact ⟨h.tokens, h.fault, h.nodes⟩

theorem Sound.add (h : s.Sound text) {node : Node} (hnode : '!' ∈ text ∨ node.Untagged) :
    (s.add node).2.Sound text := by
  refine ⟨h.tokens, h.fault, fun n => ?_⟩
  show '!' ∈ text ∨ ((s.graph.push node).2.get n).Untagged
  rw [Graph.get_push]
  split
  · exact hnode
  · exact h.nodes n

theorem Sound.fill (h : s.Sound text) (n : Nat) {node : Node}
    (hnode : '!' ∈ text ∨ node.Untagged) : (s.fill n node).Sound text := by
  refine ⟨h.tokens, h.fault, fun m => ?_⟩
  show '!' ∈ text ∨ ((s.graph.set n node).get m).Untagged
  rw [Graph.get_set]
  split
  · exact hnode
  · exact h.nodes m

theorem untagged_empty : Node.Untagged (.scalar .null []) :=
  .inr ⟨rfl, fun _ hd => by cases hd⟩

theorem Sound.addEmpty (h : s.Sound text) : s.addEmpty.2.Sound text :=
  h.add (.inr untagged_empty)

/-! ## Properties -/

/-- A tag is only met in a text that holds an exclamation mark. -/
theorem Sound.properties (h : s.Sound text) : EndsIn (IsLexical text)
    (fun found => (∀ t ∈ found.2.1, '!' ∈ text) ∧ found.2.2.Sound text) s.properties := by
  have hnone : ∀ t ∈ (none : Option SpelledTag), '!' ∈ text := fun _ ht => by cases ht
  rw [Composer.properties]
  refine h.peek.bind fun t ht => ?_
  split
  · refine h.drop.peek.bind fun t ht => ?_
    split
    · exact ⟨fun _ _ => ht, h.drop.drop⟩
    · exact ⟨hnone, h.drop⟩
  · have hmark : '!' ∈ text := ht
    refine h.drop.peek.bind fun t ht => ?_
    split
    · exact ⟨fun _ _ => hmark, h.drop.drop⟩
    · exact ⟨fun _ _ => hmark, h.drop⟩
  · exact ⟨hnone, h⟩

theorem endsIn_expand (s : Composer) (t : SpelledTag) :
    EndsIn (IsLexical text) (fun _ => True) (s.expand t) := by
  rw [Composer.expand]
  split
  · exact trivial
  · split
    · exact trivial
    · exact trivial

/-- A node goes on with the full name of its tag, if it has one. -/
theorem endsIn_tagged {α : Type} {V : α → Prop} (s : Composer) {spelled : Option SpelledTag}
    (h : ∀ t ∈ spelled, '!' ∈ text) {rest : Option Text → Except Fault α}
    (hrest : ∀ uri, (∀ name ∈ uri, '!' ∈ text) → EndsIn (IsLexical text) V (rest uri)) :
    EndsIn (IsLexical text) V (match spelled with
      | some t => do
        let uri ← (s.expand t).map some
        rest uri
      | none => do
        let uri ← pure none
        rest uri) := by
  cases spelled with
  | none => exact hrest none fun _ hname => by cases hname
  | some t =>
    refine EndsIn.bind (V := fun _ => True) ((endsIn_expand s t).map fun _ _ => trivial) ?_
    exact fun uri _ => hrest uri fun _ _ => h t rfl

theorem Sound.emptyNode (h : s.Sound text) (name : Option (List Char)) {uri : Option Text}
    (huri : ∀ name ∈ uri, '!' ∈ text) (n : Nat) :
    Composes text (Composer.emptyNode name uri (specificTag uri) n s) := by
  rw [Composer.emptyNode]
  refine .ite (fun _ => trivial) fun _ => h.fill n ?_
  cases uri with
  | none => exact .inr untagged_empty
  | some name => exact .inl (huri name rfl)

section Kinds

variable {uri : Option Text} (huri : ∀ name ∈ uri, '!' ∈ text)

include huri

theorem sequence_kind (items : List Nat) :
    '!' ∈ text ∨ (Node.sequence ((specificTag uri).getD .seq) items).Untagged := by
  cases uri with
  | none => exact .inr rfl
  | some name => exact .inl (huri name rfl)

theorem mapping_kind (entries : List (Nat × Nat)) :
    '!' ∈ text ∨ (Node.mapping ((specificTag uri).getD .map) entries).Untagged := by
  cases uri with
  | none => exact .inr rfl
  | some name => exact .inl (huri name rfl)

theorem scalar_kind {tag : Tag} {plain : Bool} {content : Text}
    (hscalar : (Token.scalar plain content).FoundIn text)
    (htag : uri = none → tag = if plain then Tag.ofPlain content else .str) :
    '!' ∈ text ∨ (Node.scalar tag content).Untagged := by
  cases uri with
  | none =>
    rw [htag rfl]
    cases plain with
    | true => exact .inr (.inr ⟨rfl, hscalar⟩)
    | false => exact .inr (.inl rfl)
  | some name => exact .inl (huri name rfl)

end Kinds

/-! ## Nodes and collections -/

/-- What the mutually recursive steps of the composer keep with a given fuel. -/
structure ComposesAll (text : List Char) (fuel : Nat) : Prop where
  node (block indentless : Bool) {s : Composer} (h : s.Sound text) :
    Composes text (Composer.node block indentless fuel s)
  nodeUnless (stops : List Token) (block indentless : Bool) {s : Composer} (h : s.Sound text) :
    Composes text (Composer.nodeUnless stops block indentless fuel s)
  blockItems {s : Composer} (h : s.Sound text) : Composes text (Composer.blockItems fuel s)
  indentlessItems {s : Composer} (h : s.Sound text) :
    Composes text (Composer.indentlessItems fuel s)
  blockEntries {s : Composer} (h : s.Sound text) : Composes text (Composer.blockEntries fuel s)
  blockValue {s : Composer} (h : s.Sound text) : Composes text (Composer.blockValue fuel s)
  flowValue (stops : List Token) {s : Composer} (h : s.Sound text) :
    Composes text (Composer.flowValue stops fuel s)
  flowItems (first : Bool) {s : Composer} (h : s.Sound text) :
    Composes text (Composer.flowItems first fuel s)
  flowEntries (first : Bool) {s : Composer} (h : s.Sound text) :
    Composes text (Composer.flowEntries first fuel s)

namespace ComposesAll

variable {fuel : Nat} (ih : ComposesAll text fuel)

include ih

theorem node_succ (block indentless : Bool) (h : s.Sound text) :
    Composes text (Composer.node block indentless (fuel + 1) s) := by
  rw [Composer.node]
  refine h.peek.bind fun t ht => ?_
  split
  · split
    · exact h.drop
    · exact trivial
  · refine h.properties.bind fun ⟨name, spelled, s⟩ ⟨hspelled, h⟩ => ?_
    refine endsIn_tagged s hspelled fun uri huri => ?_
    refine h.peek.bind fun t ht => .check trivial ?_
    have hbegun := h.addEmpty.define name (s.add (.scalar .null [])).1
    have hsequence := fun items => sequence_kind huri items
    have hmapping := fun entries => mapping_kind huri entries
    have hempty := hbegun.emptyNode name huri (s.add (.scalar .null [])).1
    dsimp only
    refine .ite (fun _ => ?_) fun _ => ?_
    · exact (ih.indentlessItems hbegun).map fun made hs => hs.fill _ (hsequence made.1)
    split
    · exact hbegun.drop.fill _ (scalar_kind huri ht (by rintro rfl; rfl))
    · exact (ih.flowItems true hbegun.drop).map fun made hs => hs.fill _ (hsequence made.1)
    · exact (ih.flowEntries true hbegun.drop).map fun made hs => hs.fill _ (hmapping made.1)
    · refine .ite (fun _ => ?_) fun _ => hempty
      exact (ih.blockItems hbegun.drop).map fun made hs => hs.fill _ (hsequence made.1)
    · refine .ite (fun _ => ?_) fun _ => hempty
      exact (ih.blockEntries hbegun.drop).map fun made hs => hs.fill _ (hmapping made.1)
    · exact hempty

theorem nodeUnless_succ (stops : List Token) (block indentless : Bool) (h : s.Sound text) :
    Composes text (Composer.nodeUnless stops block indentless (fuel + 1) s) := by
  rw [Composer.nodeUnless]
  exact h.peek.bind fun t _ => .ite (fun _ => h.addEmpty) fun _ => ih.node block indentless h

theorem blockItems_succ (h : s.Sound text) :
    Composes text (Composer.blockItems (fuel + 1) s) := by
  rw [Composer.blockItems]
  refine h.peek.bind fun t ht => ?_
  split
  · exact (ih.nodeUnless _ true false h.drop).bind fun _ hs =>
      (ih.blockItems hs).bind fun _ hs => hs
  · exact h.drop
  · exact trivial

theorem indentlessItems_succ (h : s.Sound text) :
    Composes text (Composer.indentlessItems (fuel + 1) s) := by
  rw [Composer.indentlessItems]
  refine h.peek.bind fun t ht => ?_
  split
  · exact (ih.nodeUnless _ true false h.drop).bind fun _ hs =>
      (ih.indentlessItems hs).bind fun _ hs => hs
  · exact h

theorem blockEntries_succ (h : s.Sound text) :
    Composes text (Composer.blockEntries (fuel + 1) s) := by
  rw [Composer.blockEntries]
  refine h.peek.bind fun t ht => ?_
  split
  · exact (ih.nodeUnless _ true true h.drop).bind fun _ hs =>
      (ih.blockValue hs).bind fun _ hs => (ih.blockEntries hs).bind fun _ hs => hs
  · exact h.drop
  · exact trivial

theorem blockValue_succ (h : s.Sound text) :
    Composes text (Composer.blockValue (fuel + 1) s) := by
  rw [Composer.blockValue]
  refine h.peek.bind fun t ht => ?_
  split
  · exact ih.nodeUnless _ true true h.drop
  · exact h.addEmpty

theorem flowValue_succ (stops : List Token) (h : s.Sound text) :
    Composes text (Composer.flowValue stops (fuel + 1) s) := by
  rw [Composer.flowValue]
  refine h.peek.bind fun t ht => ?_
  split
  · exact ih.nodeUnless _ false false h.drop
  · exact h.addEmpty

theorem flowItems_succ (first : Bool) (h : s.Sound text) :
    Composes text (Composer.flowItems first (fuel + 1) s) := by
  have hnext : (if first then s else s.drop).Sound text := by
    split
    · exact h
    · exact h.drop
  rw [Composer.flowItems]
  refine h.peek.bind fun _ _ => .ite (fun _ => h.drop) fun _ => h.peek.bind fun _ _ =>
    .check trivial (hnext.peek.bind fun _ _ => ?_)
  split
  · exact hnext.drop
  · -- a key makes the item a mapping of one entry
    have hitem : ∀ entries, '!' ∈ text ∨ (Node.mapping .map entries).Untagged :=
      fun _ => .inr rfl
    have hadd := hnext.addEmpty
    refine (ih.nodeUnless _ false false hadd.drop).bind fun key hs =>
      (ih.flowValue _ hs).bind fun value hs => ?_
    exact (ih.flowItems false (hs.fill _ (hitem _))).bind fun _ hs => hs
  · exact (ih.node false false hnext).bind fun _ hs =>
      (ih.flowItems false hs).bind fun _ hs => hs

theorem flowEntries_succ (first : Bool) (h : s.Sound text) :
    Composes text (Composer.flowEntries first (fuel + 1) s) := by
  have hnext : (if first then s else s.drop).Sound text := by
    split
    · exact h
    · exact h.drop
  rw [Composer.flowEntries]
  refine h.peek.bind fun _ _ => .ite (fun _ => h.drop) fun _ => h.peek.bind fun _ _ =>
    .check trivial (hnext.peek.bind fun _ _ => ?_)
  split
  · exact hnext.drop
  · exact (ih.nodeUnless _ false false hnext.drop).bind fun _ hs =>
      (ih.flowValue _ hs).bind fun _ hs => (ih.flowEntries false hs).bind fun _ hs => hs
  · exact (ih.node false false hnext).bind fun _ hs =>
      (ih.flowEntries false hs.addEmpty).bind fun _ hs => hs

end ComposesAll

theorem composesAll (text : List Char) (fuel : Nat) : ComposesAll text fuel := by
  induction fuel with
  | zero => constructor <;> intros <;> exact trivial
  | succ fuel ih =>
    exact ⟨fun block indentless _ h => ih.node_succ block indentless h,
      fun stops block indentless _ h => ih.nodeUnless_succ stops block indentless h,
      ih.blockItems_succ, ih.indentlessItems_succ, ih.blockEntries_succ, ih.blockValue_succ,
      fun stops _ h => ih.flowValue_succ stops h, fun first _ h => ih.flowItems_succ first h,
      fun first _ h => ih.flowEntries_succ first h⟩

/-! ## Documents -/

theorem Sound.directives (h : s.Sound text) (version : Bool) (fuel : Nat) :
    EndsIn (IsLexical text) (Sound text) (Composer.directives version fuel s) := by
  induction fuel generalizing version s with
  | zero => exact trivial
  | succ fuel ih =>
    rw [Composer.directives]
    refine h.peek.bind fun _ _ => ?_
    split
    · exact .check trivial (ih h.drop true)
    · refine .check trivial (ih ?_ version)
      exact ⟨h.drop.tokens, h.fault, h.nodes⟩
    · exact ih h.drop version
    · exact h

theorem Sound.explicitDocument (h : s.Sound text) (fuel : Nat) :
    Composes text (s.explicitDocument fuel) := by
  have hstart : Sound text { s with handles := [] } := ⟨h.tokens, h.fault, h.nodes⟩
  rw [Composer.explicitDocument]
  refine (hstart.directives false fuel).bind fun s h => h.peek.bind fun _ _ => .check trivial ?_
  have hbody : Sound text { s.drop with handles := s.handles ++ defaultHandles } :=
    ⟨h.drop.tokens, h.fault, h.nodes⟩
  refine hbody.peek.bind fun _ _ => ?_
  split
  · exact hbody.addEmpty
  · exact hbody.addEmpty
  · exact hbody.addEmpty
  · exact hbody.addEmpty
  · exact (composesAll text fuel).node true false hbody

theorem Sound.finish (h : s.Sound text) (fuel : Nat) :
    EndsIn (IsLexical text) (fun _ => True) (Composer.finish fuel s) := by
  induction fuel generalizing s with
  | zero => exact trivial
  | succ fuel ih =>
    rw [Composer.finish]
    refine h.peek.bind fun _ _ => ?_
    split
    · exact ih h.drop
    · exact trivial
    · exact trivial

end Composer

/-- The graph that a text spells ends in a fault of the text, or each of its nodes has the kind that
its spelling gives, unless the text holds an exclamation mark. -/
theorem Graph.ofTokens_spec {text : List Char} {tokens : List Token} {fault : Option Fault}
    (htokens : ∀ t ∈ tokens, t.FoundIn text) (hfault : ∀ f ∈ fault, IsLexical text f) :
    EndsIn (IsLexical text)
      (fun found => ∀ document ∈ found, ∀ n, '!' ∈ text ∨ (document.2.get n).Untagged)
      (Graph.ofTokens tokens fault) := by
  have hstart : Composer.Sound text ⟨tokens, fault, .empty, [], Composer.defaultHandles⟩ :=
    ⟨htokens, hfault, fun _ => .inr Composer.untagged_empty⟩
  have hend : ∀ {made : Except Fault (Nat × Composer)} {fuel : Nat}, Composer.Composes text made →
      EndsIn (IsLexical text)
        (fun found => ∀ document ∈ found, ∀ n, '!' ∈ text ∨ (document.2.get n).Untagged)
        (do
          let made ← made
          made.2.finish fuel
          return some (made.1, made.2.graph)) := fun hmade => hmade.bind fun made hs =>
      (hs.finish _).bind fun _ _ => by
        rintro _ ⟨rfl⟩
        exact hs.nodes
  rw [Graph.ofTokens]
  refine hstart.peek.bind fun _ _ => ?_
  split
  · exact fun _ hnone => by cases hnone
  · exact hend (hstart.explicitDocument _)
  · exact hend (hstart.explicitDocument _)
  · exact hend ((Composer.composesAll text _).node true false hstart)

end SiteRules.Yaml
