import SiteRules.Proofs.Yaml.Writer
import SiteRules.Yaml.Graph.OfTokens

/-!
# Nodes of drafts

The nodes that the tokens of a draft are read as (`Draft.compose`), in the order in which they
begin, and that the reader makes these nodes of the tokens (`Graph.ofTokens_tokens`).
-/

namespace SiteRules.Yaml

/-! ## Graphs that are extended -/

namespace Graph

/-- The graph with further nodes. -/
def extend (g : Graph) (nodes : List Node) : Graph :=
  ⟨g.nodes ++ nodes.toArray⟩

variable {g : Graph} {nodes more : List Node}

theorem extend_nil (g : Graph) : g.extend [] = g := by
  simp [extend]

theorem extend_extend (g : Graph) (nodes more : List Node) :
    (g.extend nodes).extend more = g.extend (nodes ++ more) := by
  simp [extend, Array.append_assoc]

theorem size_extend (g : Graph) (nodes : List Node) :
    (g.extend nodes).size = g.size + nodes.length := by
  simp [extend, size]

/-- A node that was begun is filled in behind the nodes inside it. -/
theorem set_push_extend (g : Graph) (begun node : Node) (nodes : List Node) :
    ((g.push begun).2.extend nodes).set g.size node = g.extend (node :: nodes) := by
  obtain ⟨ns⟩ := g
  have hall : (ns.push begun ++ nodes.toArray).setIfInBounds ns.size node =
      ns ++ (node :: nodes).toArray := by
    apply Array.toList_inj.1
    simp
  exact congrArg Graph.mk hall

end Graph

/-! ## Nodes of a draft -/

/-- The numbers of the nodes that have names. -/
abbrev Anchors := List (List Char × Nat)

namespace Draft

/-- Gives a node its name, which must be a new one. -/
def anchor (name : Option Nat) (n : Nat) (anchors : Anchors) : Option Anchors :=
  match name with
  | none => some anchors
  | some i =>
    if (anchors.lookup (nameText i)).isSome then none else some ((nameText i, n) :: anchors)

mutual

/-- The number of the node of a draft, the nodes that are made for it, the first of them with the
number `next`, and the names behind it. -/
def compose (next : Nat) (anchors : Anchors) : Draft → Option (Nat × List Node × Anchors)
  | .alias i => (anchors.lookup (nameText i)).map fun n => (n, [], anchors)
  | .scalar name tag content _ =>
    (anchor name next anchors).map fun anchors => (next, [.scalar tag content], anchors)
  | .sequence name items => do
    let (ns, nodes, anchors) ← composeItems (next + 1) (← anchor name next anchors) items
    return (next, .sequence .seq ns :: nodes, anchors)
  | .mapping name isSet entries => do
    let (ns, nodes, anchors) ← composeEntries (next + 1) (← anchor name next anchors) entries
    return (next, .mapping (if isSet then .set else .map) ns :: nodes, anchors)

/-- The numbers of the items of a sequence, with their nodes and the names behind them. -/
def composeItems (next : Nat) (anchors : Anchors) :
    List Draft → Option (List Nat × List Node × Anchors)
  | [] => some ([], [], anchors)
  | item :: rest => do
    let (n, nodes, anchors) ← compose next anchors item
    let (ns, more, anchors) ← composeItems (next + nodes.length) anchors rest
    return (n :: ns, nodes ++ more, anchors)

/-- The numbers of the entries of a mapping, with their nodes and the names behind them. -/
def composeEntries (next : Nat) (anchors : Anchors) :
    List (Draft × Draft) → Option (List (Nat × Nat) × List Node × Anchors)
  | [] => some ([], [], anchors)
  | (key, value) :: rest => do
    let (k, nodes, anchors) ← compose next anchors key
    let (v, nodes', anchors) ← compose (next + nodes.length) anchors value
    let (ns, more, anchors) ← composeEntries (next + nodes.length + nodes'.length) anchors rest
    return ((k, v) :: ns, nodes ++ (nodes' ++ more), anchors)

end

end Draft

namespace Composer

open Draft

variable {s : Composer} {t : Token} {more : List Token}

/-- The state behind some tokens, with the nodes that were made of them. -/
def after (s : Composer) (tokens : List Token) (nodes : List Node) (anchors : Anchors) :
    Composer :=
  { s with tokens, graph := s.graph.extend nodes, anchors }

theorem peek_eq (h : s.tokens = t :: more) : s.peek = .ok t := by
  rw [peek, h]

/-- The name and the tag in front of a node are read. -/
theorem properties_eq {name : Option Nat} {spelled : Option SpelledTag}
    (h : s.tokens = nameTokens name ++ ((spelled.map Token.tag).toList ++ t :: more))
    (hanchor : ∀ a, t ≠ .anchor a) (htag : ∀ u, t ≠ .tag u) :
    s.properties = .ok (name.map nameText, spelled, { s with tokens := t :: more }) := by
  have hnext : ∀ u, s.tokens = u :: t :: more → s.drop.peek = .ok t := by
    intro u hu
    rw [drop, peek, hu]
    rfl
  have hdrop : ∀ u v, s.tokens = u :: v :: t :: more → s.drop.peek = .ok v ∧
      s.drop.drop = { s with tokens := t :: more } := by
    intro u v huv
    rw [drop, drop, peek, huv]
    exact ⟨rfl, rfl⟩
  have hsame : ∀ u, s.tokens = u :: t :: more → s.drop = { s with tokens := t :: more } := by
    intro u hu
    rw [drop, hu]
    rfl
  -- The name and the tag are each there or not, and what is dropped is what is there.
  rw [properties]
  cases name with
  | none =>
    cases spelled with
    | none =>
      have hself : s = { s with tokens := t :: more } := by
        rw [← show s.tokens = t :: more from h]
      rw [peek_eq h, ← hself]
      cases t with
      | anchor a => exact absurd rfl (hanchor a)
      | tag u => exact absurd rfl (htag u)
      | _ => rfl
    | some u =>
      rw [peek_eq h]
      dsimp only [bind, Except.bind]
      rw [hnext _ h, hsame _ h]
      cases t with
      | anchor a => exact absurd rfl (hanchor a)
      | _ => rfl
  | some i =>
    cases spelled with
    | none =>
      rw [peek_eq h]
      dsimp only [bind, Except.bind]
      rw [hnext _ h, hsame _ h]
      cases t with
      | tag u => exact absurd rfl (htag u)
      | _ => rfl
    | some u =>
      obtain ⟨hpeek, hend⟩ := hdrop _ _ h
      rw [peek_eq h]
      dsimp only [bind, Except.bind]
      rw [hpeek, ← hend]
      rfl

/-- The short form of a tag is expanded to the tag. -/
theorem expand_short {tag : Tag} (hknown : ∀ uri, tag ≠ .unknown uri)
    (hhandles : s.handles = defaultHandles) : ∃ u uri, tagToken tag = .tag u ∧
      s.expand u = .ok uri ∧ specificTag (some uri) = some tag := by
  obtain ⟨name, hshort, -, -, htag⟩ := Tag.exists_short hknown
  refine ⟨_, Tag.family ++ Text.ofChars name, rfl, ?_, ?_⟩
  · rw [expand, hhandles, hshort]
    rfl
  · have hne : Tag.family ++ Text.ofChars name ≠ Text.ofString "!" := by
      rintro ⟨⟩
    rw [specificTag, htag, if_neg hne]

/-- The tag that a node has if a tag is in front of it, and else that it has by itself. -/
def contentTag (tag : Option Tag) (plain : Bool) (content : Text) : Tag :=
  tag.getD (if plain then .ofPlain content else .str)

/-- The state in which a node has begun. -/
def begun (s : Composer) (tokens : List Token) (name : Option Nat) : Composer :=
  ({ s with tokens }.add (.scalar .null [])).2.define (name.map nameText) s.graph.size

theorem drop_begun (s : Composer) (t : Token) (more : List Token) (name : Option Nat) :
    (s.begun (t :: more) name).drop = s.begun more name := by
  cases name <;> rfl

/-- Whether the content of a node can begin with a token. -/
def startsContent (indentless : Bool) : Token → Bool
  | .scalar _ _ | .flowSequenceStart | .flowMappingStart | .blockSequenceStart
  | .blockMappingStart => true
  | .blockEntry => indentless
  | _ => false

/-- Reads the content of a node that has begun, by its first token. -/
def content (fuel : Nat) (tag : Option Tag) (n : Nat) (s : Composer) :
    Token → Except Fault (Nat × Composer)
  | .scalar plain text => .ok (n, s.drop.fill n (.scalar (contentTag tag plain text) text))
  | .flowSequenceStart =>
    (flowItems true fuel s.drop).map fun made =>
      (n, made.2.fill n (.sequence (tag.getD .seq) made.1))
  | .flowMappingStart =>
    (flowEntries true fuel s.drop).map fun made =>
      (n, made.2.fill n (.mapping (tag.getD .map) made.1))
  | .blockSequenceStart =>
    (blockItems fuel s.drop).map fun made => (n, made.2.fill n (.sequence (tag.getD .seq) made.1))
  | .blockMappingStart =>
    (blockEntries fuel s.drop).map fun made => (n, made.2.fill n (.mapping (tag.getD .map) made.1))
  | _ =>
    (indentlessItems fuel s).map fun made => (n, made.2.fill n (.sequence (tag.getD .seq) made.1))

theorem ne_of_startsContent {indentless : Bool} (h : startsContent indentless t = true)
    (a : List Char) (u : SpelledTag) : t ≠ .alias a ∧ t ≠ .anchor a ∧ t ≠ .tag u := by
  refine ⟨?_, ?_, ?_⟩ <;>
  · rintro rfl
    cases h

/-- A node that its content, its tag or its name begins is not one that is repeated. -/
theorem exists_peek {name : Option Nat} {tag : Option Tag}
    (h : s.tokens = nameTokens name ++ ((tag.map tagToken).toList ++ t :: more))
    (ht : ∀ a, t ≠ .alias a) : ∃ u, s.peek = .ok u ∧ ∀ a, u ≠ .alias a := by
  cases name with
  | some i => exact ⟨_, peek_eq h, by rintro a ⟨⟩⟩
  | none =>
    cases tag with
    | some tag => exact ⟨_, peek_eq h, by rintro a ⟨⟩⟩
    | none => exact ⟨_, peek_eq h, ht⟩

/-- The name that a node is given is not the name of another one. -/
theorem isNew_of_anchor {name : Option Nat} {n : Nat} {anchors named : Anchors}
    (h : anchor name n anchors = some named) :
    (name.map nameText).any (fun name => (anchors.lookup name).isSome) = false := by
  cases name with
  | none => rfl
  | some i =>
    rw [anchor] at h
    split at h
    · cases h
    · next hsome => exact Bool.eq_false_iff.2 hsome

/-- The node behind a name and a tag is read by the first token of its content. -/
theorem node_begun {name : Option Nat} {tag : Option Tag} {anchors : Anchors} {indentless : Bool}
    (h : s.tokens = nameTokens name ++ ((tag.map tagToken).toList ++ t :: more))
    (hknown : ∀ uri, tag ≠ some (.unknown uri)) (hhandles : s.handles = defaultHandles)
    (hname : anchor name s.graph.size s.anchors = some anchors)
    (hstarts : startsContent indentless t = true) (fuel : Nat) :
    node true indentless (fuel + 1) s =
      content fuel tag s.graph.size (s.begun (t :: more) name) t := by
  have hcontent := ne_of_startsContent hstarts
  obtain ⟨first, hpeek, hfirst⟩ := exists_peek h fun a => (hcontent a ⟨none, []⟩).1
  have hnext : peek { s with tokens := t :: more } = .ok t := rfl
  have hproperties : ∀ spelled : Option SpelledTag,
      s.tokens = nameTokens name ++ ((spelled.map Token.tag).toList ++ t :: more) →
      s.properties = .ok (name.map nameText, spelled, { s with tokens := t :: more }) :=
    fun _ h => properties_eq h (fun a => (hcontent a ⟨none, []⟩).2.1)
      (fun u => (hcontent [] u).2.2)
  rw [node, hpeek]
  dsimp only [bind, Except.bind]
  split
  · exact absurd rfl (hfirst _)
  cases tag
  case' none =>
    rw [hproperties none h]
    dsimp only [pure, Except.pure]
    rw [hnext]
    dsimp only
  case' some tag =>
    obtain ⟨u, uri, htoken, hexpand, hspecific⟩ :=
      expand_short (s := { s with tokens := t :: more })
      (fun uri heq => hknown uri (congrArg some heq)) hhandles
    rw [hproperties (some u) (by rw [h, Option.map_some, htoken]; rfl)]
    dsimp only
    rw [hexpand]
    dsimp only [Except.map, pure, Except.pure]
    rw [hnext]
    dsimp only
    rw [hspecific]
  -- The properties are read in either case: what is left is told apart by the first token behind.
  all_goals
    rw [isNew_of_anchor hname, if_neg Bool.false_ne_true]
    cases t with
    | blockEntry =>
      rw [show indentless = true from hstarts]
      rfl
    | scalar | flowSequenceStart | flowMappingStart | blockSequenceStart | blockMappingStart =>
      rw [decide_eq_false (by rintro ⟨⟩), Bool.and_false, if_neg Bool.false_ne_true]
      rfl
    | _ => cases hstarts

/-! ## Items and entries -/

variable {nodes nodes' : List Node} {anchors anchors' : Anchors} {d : Draft} {place : Place}
  {u : Token}

theorem after_after (s : Composer) (tokens tokens' : List Token) (nodes nodes' : List Node)
    (anchors anchors' : Anchors) : (s.after tokens nodes anchors).after tokens' nodes' anchors' =
      s.after tokens' (nodes ++ nodes') anchors' := by
  rw [after, after, after, Graph.extend_extend]

theorem after_nil (h : s.tokens = more) : s.after more [] s.anchors = s := by
  rw [after, Graph.extend_nil, ← h]

theorem size_after (s : Composer) (tokens : List Token) (nodes : List Node) (anchors : Anchors) :
    (s.after tokens nodes anchors).graph.size = s.graph.size + nodes.length :=
  Graph.size_extend _ _

/-- A node that has begun is filled in behind what is inside it. -/
theorem fill_after_begun (s : Composer) (tokens tokens' : List Token) (name : Option Nat)
    (nodes : List Node) (anchors : Anchors) (node : Node) :
    ((s.begun tokens name).after tokens' nodes anchors).fill s.graph.size node =
      s.after tokens' (node :: nodes) anchors := by
  cases name <;>
  · rw [fill, after, after, begun]
    exact congrArg (fun graph : Graph => Composer.mk tokens' s.fault graph anchors s.handles)
      (s.graph.set_push_extend _ _ _)

theorem begun_anchors {name : Option Nat} {tokens : List Token}
    (h : anchor name s.graph.size s.anchors = some anchors) :
    (s.begun tokens name).anchors = anchors ∧ (s.begun tokens name).graph.size = s.graph.size + 1 ∧
      (s.begun tokens name).handles = s.handles ∧ (s.begun tokens name).tokens = tokens := by
  have hsize : (s.graph.push (.scalar .null [])).2.size = s.graph.size + 1 := Array.size_push _
  cases name with
  | none =>
    cases h
    exact ⟨rfl, hsize, rfl, rfl⟩
  | some i =>
    rw [anchor] at h
    split at h
    · cases h
    · cases h
      exact ⟨rfl, hsize, rfl, rfl⟩

/-- The tokens of a draft are read as its nodes. -/
def Reads (d : Draft) : Prop :=
  ∀ (place : Place) (s : Composer) (t : Token) (more : List Token) (fuel n : Nat)
    (nodes : List Node) (anchors : Anchors),
    s.tokens = Draft.tokens place d ++ t :: more → (place.underKey = true → t ≠ .blockEntry) →
    s.handles = defaultHandles → d.compose s.graph.size s.anchors = some (n, nodes, anchors) →
    4 * (Draft.tokens place d).length + 2 ≤ fuel →
    node true place.underKey fuel s = .ok (n, s.after (t :: more) nodes anchors)

/-- Whether a token can be the first one of a node. -/
def startsNode (underKey : Bool) : Token → Bool
  | .alias _ | .anchor _ | .tag _ | .scalar _ _ | .flowSequenceStart | .flowMappingStart
  | .blockSequenceStart | .blockMappingStart => true
  | .blockEntry => underKey
  | _ => false

/-- The first token of a node. -/
theorem exists_first (place : Place) (d : Draft) :
    ∃ u us, Draft.tokens place d = u :: us ∧ startsNode place.underKey u = true := by
  have hnamed : ∀ (name : Option Nat) (u : Token) (us : List Token),
      startsNode place.underKey u = true →
      ∃ v vs, nameTokens name ++ u :: us = v :: vs ∧ startsNode place.underKey v = true := by
    rintro (_ | i) u us hu
    · exact ⟨u, us, rfl, hu⟩
    · exact ⟨_, _, rfl, rfl⟩
  match d with
  | .alias i => exact ⟨_, _, rfl, rfl⟩
  | .scalar name tag content asLines =>
    rw [Draft.tokens, scalarTokens]
    split
    · exact hnamed _ _ _ rfl
    · exact hnamed _ _ _ rfl
  | .sequence name [] =>
    rw [Draft.tokens]
    exact hnamed _ _ _ rfl
  | .sequence name (item :: rest) =>
    rw [Draft.tokens]
    rotate_left
    · exact List.cons_ne_nil _ _
    split
    · next hbare =>
      rw [Place.isBare, Bool.and_eq_true] at hbare
      rw [itemTokens]
      exact hnamed _ _ _ hbare.1
    · exact hnamed _ _ _ rfl
  | .mapping name true [] | .mapping name true (e :: rest) | .mapping name false []
  | .mapping name false (e :: rest) =>
    simp only [Draft.tokens, List.append_assoc]
    exact hnamed _ _ _ rfl

/-- A node that is there is read. -/
theorem nodeUnless_eq {stops : List Token} (h : s.tokens = Draft.tokens place d ++ more)
    (hstops : ∀ u ∈ stops, u ∈ [Token.key, .value, .blockEnd] ∨
      u = .blockEntry ∧ place.underKey = false) (block indentless : Bool) (fuel : Nat) :
    nodeUnless stops block indentless (fuel + 1) s = node block indentless fuel s := by
  obtain ⟨u, us, hu, hstarts⟩ := exists_first place d
  have hpeek : s.peek = .ok u := peek_eq (by rw [h, hu]; rfl)
  have hother : stops.contains u = false := by
    rw [List.contains_eq_mem, decide_eq_false_iff_not]
    intro hmem
    rcases hstops u hmem with hend | ⟨rfl, hplace⟩
    · simp only [List.mem_cons, List.not_mem_nil, or_false] at hend
      rcases hend with rfl | rfl | rfl <;> cases hstarts
    · rw [startsNode, hplace] at hstarts
      cases hstarts
  rw [nodeUnless, hpeek]
  show (if stops.contains u then _ else _) = _
  rw [hother, if_neg Bool.false_ne_true]

/-- A node behind a mark is read. -/
theorem Reads.part {n : Nat} (hd : Reads d) (stops : List Token) (fuel : Nat) (place : Place)
    (h : s.tokens = u :: (Draft.tokens place d ++ t :: more))
    (hstops : ∀ u ∈ stops, u ∈ [Token.key, .value, .blockEnd] ∨
      u = .blockEntry ∧ place.underKey = false)
    (hnext : place.underKey = true → t ≠ .blockEntry) (hhandles : s.handles = defaultHandles)
    (hcompose : d.compose s.graph.size s.anchors = some (n, nodes, anchors))
    (hfuel : 4 * (Draft.tokens place d).length + 3 ≤ fuel) :
    nodeUnless stops true place.underKey fuel s.drop =
      .ok (n, s.after (t :: more) nodes anchors) := by
  obtain ⟨fuel, rfl⟩ := Nat.exists_eq_add_of_lt (show 0 < fuel by omega)
  have hdrop : s.drop.tokens = Draft.tokens place d ++ t :: more := by
    rw [drop, h]
    rfl
  rw [Nat.zero_add, nodeUnless_eq hdrop hstops]
  exact hd place s.drop t more fuel n nodes anchors hdrop hnext hhandles hcompose (by omega)

theorem exists_next (ts : List Token) (t : Token) (more : List Token) :
    ∃ u us, ts ++ t :: more = u :: us := by
  cases ts with
  | nil => exact ⟨_, _, rfl⟩
  | cons u us => exact ⟨_, _, rfl⟩

/-- The first of some items is read, and what is left is the other items. -/
theorem Reads.item {stops : List Token} (hstops : ∀ u ∈ stops,
      u ∈ [Token.key, .value, .blockEnd] ∨ u = .blockEntry ∧ Place.item.underKey = false)
    {rest : List Draft} {ns : List Nat} {fuel : Nat} (hd : Reads d)
    (h : s.tokens = itemTokens (d :: rest) ++ t :: more) (hhandles : s.handles = defaultHandles)
    (hcompose : composeItems s.graph.size s.anchors (d :: rest) = some (ns, nodes, anchors))
    (hfuel : 4 * (itemTokens (d :: rest)).length < fuel + 1) :
    ∃ n ms s' further, nodeUnless stops true false fuel s.drop = .ok (n, s') ∧
      ns = n :: ms ∧ s'.tokens = itemTokens rest ++ t :: more ∧ s'.handles = defaultHandles ∧
      composeItems s'.graph.size s'.anchors rest = some (ms, further, anchors) ∧
      s'.after (t :: more) further anchors = s.after (t :: more) nodes anchors ∧
      s'.after more further anchors = s.after more nodes anchors ∧
      4 * (itemTokens rest).length < fuel := by
  rw [itemTokens, List.length_append, List.length_cons] at hfuel
  rw [itemTokens, List.append_assoc, List.cons_append] at h
  obtain ⟨u, more', hnext⟩ := exists_next (itemTokens rest) t more
  rw [composeItems] at hcompose
  obtain ⟨⟨n, made, named⟩, hfirst, hcompose⟩ := Option.bind_eq_some_iff.1 hcompose
  obtain ⟨⟨ms, further, ended⟩, hothers, hcompose⟩ := Option.bind_eq_some_iff.1 hcompose
  cases hcompose
  have hpart := hd.part stops fuel .item (hnext ▸ h) hstops (by rintro ⟨⟩) hhandles hfirst
    (by omega)
  exact ⟨n, ms, s.after (u :: more') made named, further, hpart, rfl, hnext.symm, hhandles,
    by rw [size_after]; exact hothers, after_after .., after_after .., by omega⟩

/-- The items of a block are read. -/
theorem blockItems_eq {items : List Draft} (hall : ∀ d ∈ items, Reads d) {ns : List Nat}
    {fuel : Nat} (h : s.tokens = itemTokens items ++ .blockEnd :: more)
    (hhandles : s.handles = defaultHandles)
    (hcompose : composeItems s.graph.size s.anchors items = some (ns, nodes, anchors))
    (hfuel : 4 * (itemTokens items).length < fuel) :
    blockItems fuel s = .ok (ns, s.after more nodes anchors) := by
  induction items generalizing s ns nodes anchors fuel with
  | nil =>
    cases hcompose
    obtain ⟨fuel, rfl⟩ := Nat.exists_eq_succ_of_ne_zero (Nat.ne_zero_of_lt hfuel)
    rw [blockItems, peek_eq h]
    show Except.ok ([], s.drop) = _
    rw [drop, after, Graph.extend_nil, h]
    rfl
  | cons d rest ih =>
    obtain ⟨fuel, rfl⟩ := Nat.exists_eq_succ_of_ne_zero (Nat.ne_zero_of_lt hfuel)
    obtain ⟨hd, hrest⟩ := List.forall_mem_cons.1 hall
    have hpeek := peek_eq h
    have hstops : ∀ u ∈ [Token.blockEntry, .blockEnd],
        u ∈ [Token.key, .value, .blockEnd] ∨ u = .blockEntry ∧ Place.item.underKey = false := by
      simp [Place.underKey]
    obtain ⟨n, ms, s', further, hfirst, rfl, hnext, hhandles', hothers, -, hafter, hless⟩ :=
      hd.item hstops h hhandles hcompose hfuel
    rw [blockItems, hpeek]
    show (nodeUnless [.blockEntry, .blockEnd] true false fuel s.drop).bind _ = _
    rw [hfirst]
    show (blockItems fuel s').bind _ = _
    rw [ih hrest hnext hhandles' hothers hless, hafter]
    rfl

/-- Items that have no block of their own are read. -/
theorem indentlessItems_eq {items : List Draft} (hall : ∀ d ∈ items, Reads d) {ns : List Nat}
    {fuel : Nat} (h : s.tokens = itemTokens items ++ t :: more) (ht : t ≠ .blockEntry)
    (hhandles : s.handles = defaultHandles)
    (hcompose : composeItems s.graph.size s.anchors items = some (ns, nodes, anchors))
    (hfuel : 4 * (itemTokens items).length < fuel) :
    indentlessItems fuel s = .ok (ns, s.after (t :: more) nodes anchors) := by
  induction items generalizing s ns nodes anchors fuel with
  | nil =>
    cases hcompose
    obtain ⟨fuel, rfl⟩ := Nat.exists_eq_succ_of_ne_zero (Nat.ne_zero_of_lt hfuel)
    have hself : s.after (t :: more) [] s.anchors = s := after_nil h
    rw [indentlessItems, peek_eq h, hself]
    cases t with
    | blockEntry => exact absurd rfl ht
    | _ => rfl
  | cons d rest ih =>
    obtain ⟨fuel, rfl⟩ := Nat.exists_eq_succ_of_ne_zero (Nat.ne_zero_of_lt hfuel)
    obtain ⟨hd, hrest⟩ := List.forall_mem_cons.1 hall
    have hpeek := peek_eq h
    have hstops : ∀ u ∈ [Token.blockEntry, .key, .value, .blockEnd],
        u ∈ [Token.key, .value, .blockEnd] ∨ u = .blockEntry ∧ Place.item.underKey = false := by
      simp [Place.underKey]
    obtain ⟨n, ms, s', further, hfirst, rfl, hnext, hhandles', hothers, hafter, -, hless⟩ :=
      hd.item hstops h hhandles hcompose hfuel
    rw [indentlessItems, hpeek]
    show (nodeUnless _ true false fuel s.drop).bind _ = _
    rw [hfirst]
    show (indentlessItems fuel s').bind _ = _
    rw [ih hrest hnext hhandles' hothers hless, hafter]
    rfl

/-- The first entry of a block is read, and the others are read behind it. -/
theorem Reads.entry {key value : Draft} (hkey : Reads key) (hvalue : Reads value)
    {rest : List (Draft × Draft)} {ns : List (Nat × Nat)} {fuel : Nat}
    (h : s.tokens = entryTokens ((key, value) :: rest) ++ .blockEnd :: more)
    (hhandles : s.handles = defaultHandles)
    (hcompose : composeEntries s.graph.size s.anchors ((key, value) :: rest) =
      some (ns, nodes, anchors))
    (hfuel : 4 * (entryTokens ((key, value) :: rest)).length < fuel + 1) :
    ∃ k v ms s' further, ns = (k, v) :: ms ∧
      blockEntries (fuel + 1) s =
        (blockEntries fuel s').map (fun made => ((k, v) :: made.1, made.2)) ∧
      s'.tokens = entryTokens rest ++ .blockEnd :: more ∧ s'.handles = defaultHandles ∧
      composeEntries s'.graph.size s'.anchors rest = some (ms, further, anchors) ∧
      s'.after more further anchors = s.after more nodes anchors ∧
      4 * (entryTokens rest).length < fuel := by
  rw [entryTokens, List.length_append, List.length_append, List.length_cons,
    List.length_cons] at hfuel
  rw [entryTokens, List.append_assoc, List.append_assoc, List.cons_append, List.cons_append] at h
  obtain ⟨t, more', hnext⟩ : ∃ t more', entryTokens rest ++ .blockEnd :: more = t :: more' :=
    exists_next _ _ _
  -- Behind an entry is the next one or the end of the block, so its value has no further items.
  have hentry : t ≠ .blockEntry := by
    rintro rfl
    cases rest with
    | nil => cases hnext
    | cons e rest => cases hnext
  rw [composeEntries] at hcompose
  obtain ⟨⟨k, made, named⟩, hfirst, hcompose⟩ := Option.bind_eq_some_iff.1 hcompose
  obtain ⟨⟨v, made', named'⟩, hsecond, hcompose⟩ := Option.bind_eq_some_iff.1 hcompose
  obtain ⟨⟨ms, further, ended⟩, hothers, hcompose⟩ := Option.bind_eq_some_iff.1 hcompose
  cases hcompose
  have hplaces : key.keyPlace.underKey = true ∧ key.valuePlace.underKey = true := by
    rw [keyPlace, valuePlace]
    split <;> exact ⟨rfl, rfl⟩
  obtain ⟨fuel, rfl⟩ := Nat.exists_eq_succ_of_ne_zero (show fuel ≠ 0 by omega)
  have hstops : ∀ place : Place, ∀ u ∈ [Token.key, .value, .blockEnd],
      u ∈ [Token.key, .value, .blockEnd] ∨ u = .blockEntry ∧ place.underKey = false :=
    fun _ _ hu => .inl hu
  rw [hnext] at h
  have hkeyPart := hkey.part _ (fuel + 1) key.keyPlace h (hstops _) (by rintro - ⟨⟩) hhandles
    hfirst (by omega)
  let behindKey :=
    s.after (.value :: (Draft.tokens key.valuePlace value ++ t :: more')) made named
  have hvaluePart := hvalue.part (s := behindKey) _ fuel key.valuePlace rfl
    (hstops _) (fun _ => hentry) hhandles (by rw [size_after]; exact hsecond) (by omega)
  rw [hplaces.1] at hkeyPart
  rw [hplaces.2] at hvaluePart
  refine ⟨k, v, ms, behindKey.after (t :: more') made' named', further, rfl, ?_, hnext.symm,
    hhandles, by rw [size_after, size_after]; exact hothers, ?_, by omega⟩
  · rw [blockEntries, peek_eq h]
    show (nodeUnless _ true true (fuel + 1) s.drop).bind _ = _
    rw [hkeyPart]
    show (blockValue (fuel + 1) _).bind _ = _
    rw [blockValue, peek_eq rfl]
    show ((nodeUnless _ true true fuel _).bind _) = _
    rw [hvaluePart]
    rfl
  · rw [after_after, after_after]

/-- The entries of a block are read. -/
theorem blockEntries_eq {entries : List (Draft × Draft)} (hkeys : ∀ e ∈ entries, Reads e.1)
    (hvalues : ∀ e ∈ entries, Reads e.2) {ns : List (Nat × Nat)}
    {fuel : Nat} (h : s.tokens = entryTokens entries ++ .blockEnd :: more)
    (hhandles : s.handles = defaultHandles)
    (hcompose : composeEntries s.graph.size s.anchors entries = some (ns, nodes, anchors))
    (hfuel : 4 * (entryTokens entries).length < fuel) :
    blockEntries fuel s = .ok (ns, s.after more nodes anchors) := by
  induction entries generalizing s ns nodes anchors fuel with
  | nil =>
    cases hcompose
    obtain ⟨fuel, rfl⟩ := Nat.exists_eq_succ_of_ne_zero (Nat.ne_zero_of_lt hfuel)
    rw [blockEntries, peek_eq h]
    show Except.ok ([], s.drop) = _
    rw [drop, after, Graph.extend_nil, h]
    rfl
  | cons e rest ih =>
    obtain ⟨fuel, rfl⟩ := Nat.exists_eq_succ_of_ne_zero (Nat.ne_zero_of_lt hfuel)
    obtain ⟨hkey, hotherKeys⟩ : Reads e.1 ∧ ∀ e ∈ rest, Reads e.1 := List.forall_mem_cons.1 hkeys
    obtain ⟨hvalue, hotherValues⟩ : Reads e.2 ∧ ∀ e ∈ rest, Reads e.2 :=
      List.forall_mem_cons.1 hvalues
    obtain ⟨k, v, ms, s', further, rfl, hentry, hnext, hhandles', hothers, hafter, hless⟩ :=
      hkey.entry hvalue h hhandles hcompose hfuel
    rw [hentry, ih hotherKeys hotherValues hnext hhandles' hothers hless, hafter]
    rfl

/-! ## Nodes -/

/-- A node without nodes inside it. -/
theorem fill_begun {name : Option Nat} {tokens : List Token}
    (h : anchor name s.graph.size s.anchors = some anchors) (node : Node) :
    (s.begun tokens name).fill s.graph.size node = s.after tokens [node] anchors := by
  obtain ⟨hanchors, -, -, htokens⟩ := begun_anchors h
  have hfill := fill_after_begun s tokens tokens name [] anchors node
  rwa [← hanchors, after_nil htokens, hanchors] at hfill

theorem reads_scalar {name : Option Nat} {tag : Tag} {content : Text} {asLines : Bool}
    (hknown : ∀ uri, tag ≠ .unknown uri) : Reads (.scalar name tag content asLines) := by
  intro place s t more fuel n nodes anchors h _ hhandles hcompose hfuel
  obtain ⟨fuel, rfl⟩ := Nat.exists_eq_succ_of_ne_zero (show fuel ≠ 0 by omega)
  rw [compose] at hcompose
  obtain ⟨named, hname, hcompose⟩ := Option.map_eq_some_iff.1 hcompose
  cases hcompose
  rw [Draft.tokens, List.append_assoc, scalarTokens] at h
  generalize hstyle : Style.choose tag content asLines place.asKey = style at h
  have hnode : ∀ tag' : Option Tag,
      s.tokens = nameTokens name ++ ((tag'.map tagToken).toList ++
        .scalar (style = .plain) content :: t :: more) → (∀ uri, tag' ≠ some (.unknown uri)) →
      contentTag tag' (style = .plain) content = tag →
      node true place.underKey (fuel + 1) s =
        .ok (s.graph.size, s.after (t :: more) [.scalar tag content] anchors) := by
    intro tag' h hknown htag
    rw [node_begun h hknown hhandles hname rfl]
    show Except.ok (_, (Composer.drop _).fill _ _) = _
    rw [drop_begun, htag, fill_begun hname]
  by_cases himplied : style = .plain ∨ tag = .str
  · rw [if_pos himplied] at h
    refine hnode none h (by rintro uri ⟨⟩) ?_
    by_cases hplain : style = .plain
    · rw [hplain] at hstyle ⊢
      exact (Style.of_choose_plain hstyle).1
    · rw [contentTag, decide_eq_false hplain, himplied.resolve_left hplain]
      rfl
  · rw [if_neg himplied] at h
    exact hnode (some tag) h (fun uri heq => hknown uri (Option.some.inj heq)) rfl

theorem flowItems_end (h : s.tokens = .flowSequenceEnd :: more) (fuel : Nat) :
    flowItems true (fuel + 1) s = .ok ([], s.drop) := by
  rw [flowItems, peek_eq h]
  rfl

theorem flowEntries_end (h : s.tokens = .flowMappingEnd :: more) (fuel : Nat) :
    flowEntries true (fuel + 1) s = .ok ([], s.drop) := by
  rw [flowEntries, peek_eq h]
  rfl

section Content

variable {name : Option Nat} {tag : Option Tag} {named : Anchors} {fuel : Nat}
  (hname : anchor name s.graph.size s.anchors = some named)
include hname

/-- A sequence without items is read. -/
theorem content_noItems : content (fuel + 1) tag s.graph.size
    (s.begun (.flowSequenceStart :: .flowSequenceEnd :: more) name) .flowSequenceStart =
      .ok (s.graph.size, s.after more [.sequence (tag.getD .seq) []] named) := by
  rw [content, drop_begun, flowItems_end (begun_anchors hname).2.2.2, drop_begun]
  show Except.ok (_, fill _ _ _) = _
  rw [fill_begun hname]

/-- A mapping without entries is read. -/
theorem content_noEntries : content (fuel + 1) tag s.graph.size
    (s.begun (.flowMappingStart :: .flowMappingEnd :: more) name) .flowMappingStart =
      .ok (s.graph.size, s.after more [.mapping (tag.getD .map) []] named) := by
  rw [content, drop_begun, flowEntries_end (begun_anchors hname).2.2.2, drop_begun]
  show Except.ok (_, fill _ _ _) = _
  rw [fill_begun hname]

variable (hhandles : s.handles = defaultHandles)
include hhandles

section Items

variable {items : List Draft} {ns : List Nat} (hall : ∀ d ∈ items, Reads d)
  (hcompose : composeItems (s.graph.size + 1) named items = some (ns, nodes, anchors))
  (hfuel : 4 * (itemTokens items).length < fuel)
include hall hcompose hfuel

/-- A sequence that has a block of its own is read. -/
theorem content_items : content fuel tag s.graph.size
    (s.begun (.blockSequenceStart :: (itemTokens items ++ .blockEnd :: more)) name)
    .blockSequenceStart =
      .ok (s.graph.size, s.after more (.sequence (tag.getD .seq) ns :: nodes) anchors) := by
  obtain ⟨hanchors, hsize, hsame, htokens⟩ := begun_anchors hname
  rw [content, drop_begun, blockItems_eq hall htokens (hsame.trans hhandles)
    (by rw [hanchors, hsize]; exact hcompose) hfuel]
  show Except.ok (_, fill _ _ _) = _
  rw [fill_after_begun]

/-- A sequence that has no block of its own is read. -/
theorem content_bareItems (ht : t ≠ .blockEntry) : content fuel tag s.graph.size
    (s.begun (itemTokens items ++ t :: more) name) .blockEntry =
      .ok (s.graph.size, s.after (t :: more) (.sequence (tag.getD .seq) ns :: nodes) anchors) := by
  obtain ⟨hanchors, hsize, hsame, htokens⟩ := begun_anchors hname
  show Except.map _ (indentlessItems fuel (s.begun (itemTokens items ++ t :: more) name)) = _
  rw [indentlessItems_eq hall htokens ht (hsame.trans hhandles)
    (by rw [hanchors, hsize]; exact hcompose) hfuel]
  show Except.ok (_, fill _ _ _) = _
  rw [fill_after_begun]

end Items

/-- A mapping is read. -/
theorem content_entries {entries : List (Draft × Draft)} {ns : List (Nat × Nat)}
    (hkeys : ∀ e ∈ entries, Reads e.1) (hvalues : ∀ e ∈ entries, Reads e.2)
    (hcompose : composeEntries (s.graph.size + 1) named entries = some (ns, nodes, anchors))
    (hfuel : 4 * (entryTokens entries).length < fuel) : content fuel tag s.graph.size
      (s.begun (.blockMappingStart :: (entryTokens entries ++ .blockEnd :: more)) name)
      .blockMappingStart =
        .ok (s.graph.size, s.after more (.mapping (tag.getD .map) ns :: nodes) anchors) := by
  obtain ⟨hanchors, hsize, hsame, htokens⟩ := begun_anchors hname
  rw [content, drop_begun, blockEntries_eq hkeys hvalues htokens (hsame.trans hhandles)
    (by rw [hanchors, hsize]; exact hcompose) hfuel]
  show Except.ok (_, fill _ _ _) = _
  rw [fill_after_begun]

end Content

theorem reads_sequence {name : Option Nat} {items : List Draft} (hall : ∀ d ∈ items, Reads d) :
    Reads (.sequence name items) := by
  intro place s t more fuel n nodes anchors h hnext hhandles hcompose hfuel
  obtain ⟨fuel, rfl⟩ := Nat.exists_eq_succ_of_ne_zero (show fuel ≠ 0 by omega)
  rw [compose] at hcompose
  obtain ⟨named, hname, hcompose⟩ := Option.bind_eq_some_iff.1 hcompose
  obtain ⟨⟨ms, made, ended⟩, hitems, hcompose⟩ := Option.bind_eq_some_iff.1 hcompose
  cases hcompose
  have hnode := fun (t' : Token) (more' : List Token)
      (h : s.tokens = nameTokens name ++ (((none : Option Tag).map tagToken).toList ++ t' :: more'))
      (hstarts : startsContent place.underKey t' = true) =>
    node_begun h (by rintro uri ⟨⟩) hhandles hname hstarts fuel
  cases items with
  | nil =>
    cases hitems
    rw [Draft.tokens, List.append_assoc] at h
    obtain ⟨fuel, rfl⟩ := Nat.exists_eq_succ_of_ne_zero (show fuel ≠ 0 by omega)
    rw [hnode .flowSequenceStart (.flowSequenceEnd :: t :: more) h rfl]
    exact content_noItems hname
  | cons item rest =>
    rw [Draft.tokens] at h hfuel
    rotate_left
    · exact List.cons_ne_nil _ _
    · exact List.cons_ne_nil _ _
    rw [List.append_assoc] at h
    rw [List.length_append] at hfuel
    -- Under a key the items need no block of their own, and what is behind them is no item.
    by_cases hbare : place.isBare name = true
    · rw [if_pos hbare] at h hfuel
      have hunder : place.underKey = true := by
        rw [Place.isBare, Bool.and_eq_true] at hbare
        exact hbare.1
      rw [hnode .blockEntry _ h hunder]
      exact content_bareItems hname hhandles hall hitems (by omega) (hnext hunder)
    · rw [if_neg hbare] at h hfuel
      rw [List.length_append, List.length_cons, List.length_singleton] at hfuel
      rw [List.append_assoc, List.cons_append] at h
      rw [hnode .blockSequenceStart _ h rfl]
      exact content_items hname hhandles hall hitems (by omega)

theorem reads_mapping {name : Option Nat} {isSet : Bool} {entries : List (Draft × Draft)}
    (hkeys : ∀ e ∈ entries, Reads e.1) (hvalues : ∀ e ∈ entries, Reads e.2) :
    Reads (.mapping name isSet entries) := by
  intro place s t more fuel n nodes anchors h hnext hhandles hcompose hfuel
  obtain ⟨fuel, rfl⟩ := Nat.exists_eq_succ_of_ne_zero (show fuel ≠ 0 by omega)
  rw [compose] at hcompose
  obtain ⟨named, hname, hcompose⟩ := Option.bind_eq_some_iff.1 hcompose
  obtain ⟨⟨ms, made, ended⟩, hentries, hcompose⟩ := Option.bind_eq_some_iff.1 hcompose
  cases hcompose
  -- Only a set has its tag written in front of its entries.
  obtain ⟨tag, htag, htokens, hknown⟩ : ∃ tag : Option Tag,
      tag.getD .map = (if isSet then .set else .map) ∧
      (if isSet then [tagToken .set] else []) = (tag.map tagToken).toList ∧
      ∀ uri, tag ≠ some (.unknown uri) := by
    cases isSet with
    | true => exact ⟨some .set, rfl, rfl, by rintro uri ⟨⟩⟩
    | false => exact ⟨none, rfl, rfl, by rintro uri ⟨⟩⟩
  rw [← htag]
  have hnode := fun (t' : Token) (more' : List Token)
      (h : s.tokens = nameTokens name ++ ((tag.map tagToken).toList ++ t' :: more'))
      (hstarts : startsContent place.underKey t' = true) =>
    node_begun h hknown hhandles hname hstarts fuel
  cases entries with
  | nil =>
    cases hentries
    rw [Draft.tokens, htokens, List.append_assoc, List.append_assoc] at h
    rw [Draft.tokens, List.length_append] at hfuel
    obtain ⟨fuel, rfl⟩ := Nat.exists_eq_succ_of_ne_zero (show fuel ≠ 0 by simp at hfuel; omega)
    rw [hnode .flowMappingStart (.flowMappingEnd :: t :: more) h rfl]
    exact content_noEntries hname
  | cons e rest =>
    rw [Draft.tokens] at h hfuel
    rotate_left
    · exact List.cons_ne_nil _ _
    · exact List.cons_ne_nil _ _
    rw [htokens, List.append_assoc, List.append_assoc, List.cons_append, List.cons_append,
      List.append_assoc] at h
    rw [List.length_append, List.length_append, List.length_append, List.length_cons,
      List.length_singleton] at hfuel
    rw [hnode .blockMappingStart _ h rfl]
    exact content_entries hname hhandles hkeys hvalues hentries (by omega)

/-- The tokens of a draft are read as its nodes. -/
theorem reads_of_drawn (h : Drawn d) : Reads d := by
  induction h with
  | «alias» i =>
    intro place s t more fuel n nodes anchors h _ _ hcompose hfuel
    obtain ⟨fuel, rfl⟩ := Nat.exists_eq_succ_of_ne_zero (show fuel ≠ 0 by omega)
    rw [compose] at hcompose
    obtain ⟨m, hlookup, hcompose⟩ := Option.map_eq_some_iff.1 hcompose
    cases hcompose
    rw [node, peek_eq h]
    dsimp only [bind, Except.bind]
    rw [hlookup]
    show Except.ok (n, s.drop) = _
    rw [drop, after, Graph.extend_nil, h]
    rfl
  | scalar drawn => exact reads_scalar drawn.known
  | sequence drawn ih => exact reads_sequence ih
  | mapping keys values ihkeys ihvalues => exact reads_mapping ihkeys ihvalues

end Composer

/-- The tokens of a draft are read as the graph of its nodes. -/
theorem Graph.ofTokens_tokens {d : Draft} (hdrawn : Draft.Drawn d) {n : Nat} {nodes : List Node}
    {anchors : Anchors} (hcompose : d.compose 0 [] = some (n, nodes, anchors)) :
    Graph.ofTokens (Draft.tokens .item d ++ [Token.streamEnd]) none =
      .ok (some (n, ⟨nodes.toArray⟩)) := by
  let s : Composer :=
    ⟨Draft.tokens .item d ++ [Token.streamEnd], none, .empty, [], Composer.defaultHandles⟩
  have hnode := Composer.reads_of_drawn hdrawn .item s .streamEnd []
    (4 * (Draft.tokens .item d ++ [Token.streamEnd]).length + 4) n nodes anchors rfl
    (by rintro ⟨⟩) rfl
    hcompose (by rw [List.length_append]; omega)
  have hgraph : Graph.empty.extend nodes = ⟨nodes.toArray⟩ := by
    simp [Graph.extend, Graph.empty]
  obtain ⟨u, us, hu, hstarts⟩ := Composer.exists_first .item d
  have hpeek : s.peek = .ok u := by
    rw [Composer.peek, show s.tokens = u :: (us ++ [.streamEnd]) from congrArg (· ++ _) hu]
  rw [ofTokens]
  show (s.peek.bind _) = _
  rw [hpeek]
  cases u with
  | streamEnd | directive | documentStart => cases hstarts
  | _ =>
    show (Composer.node true Draft.Place.item.underKey _ s).bind _ = _
    rw [hnode]
    show Except.ok (some (n, Graph.empty.extend nodes)) = _
    rw [hgraph]

end SiteRules.Yaml
