import SiteRules.Proofs.Except
import SiteRules.Proofs.Value.Unmarked
import SiteRules.Proofs.Yaml.Spells
import SiteRules.Yaml.Graph.ToValue

/-!
# What a graph is read as

A node that spells a value is read as that value with marks (`Graph.unfold_copies`). On the way down
the node is not met again, since it is not among its own descendants, so that no place in its value
stands for a collection around it; and what is known of a node that several others have as a child
is what the node spells. If outer mappings are laid open, these have no marks
(`Graph.toValue_opens`).
-/

namespace SiteRules.Yaml

/-- No scalar is read as a mapping. -/
theorem Scalar.ne_map_of_read {tag : Tag} {number : Nat} {content : Text} {v : Value}
    (h : Scalar.read tag number content = .ok v) (entries : List (Value × Value)) :
    v ≠ .map entries := by
  rintro rfl
  cases tag with
  | bool =>
    unfold read readBoolean at h
    dsimp only at h
    split at h <;> cases h
  | int =>
    obtain ⟨_, -, h⟩ := bind_eq_ok_iff.1 (show readInteger content = _ from h)
    obtain ⟨_, -, h⟩ := bind_eq_ok_iff.1 h
    cases h
  | float =>
    obtain ⟨_, -, h⟩ := bind_eq_ok_iff.1 (show readFloat _ content = _ from h)
    obtain ⟨_, -, h⟩ := bind_eq_ok_iff.1 h
    cases h
  | binary =>
    unfold read readBytes at h
    dsimp only at h
    split at h
    · split at h <;> cases h
    · cases h
  | timestamp =>
    unfold read readTime at h
    dsimp only at h
    split at h
    · cases h
    · split at h <;> cases h
  | _ => cases h

namespace Graph

/-- A value is another one with marks, none of them on a value that cannot be told apart from an
equal one. -/
structure Copies (w v : Value) : Prop where
  unmarked : w.unmarked = v.unmarked
  eq : hasIdentity v = false → w = v

/-- What is known of nodes is what they spell. -/
def Knows (g : Graph) (known : Known) : Prop :=
  ∀ n w, known[n]? = some w → ∃ v, g.Spells n v ∧ Copies w v

/-- The nodes on the way to a node are collections above it, each met once. -/
structure Around (g : Graph) (path : List Nat) (n : Nat) : Prop where
  nodup : path.Nodup
  above : ∀ m ∈ path, m < g.size ∧ Relation.TransGen g.Below n m

/-- A reader gives a value with marks, in which no place stands for a collection around it, and
takes note of nothing but what nodes spell. -/
def Gives (g : Graph) (v : Value) (reader : StateM Known Unfolded) : Prop :=
  ∀ known, Knows g known → ∃ w known', reader.run known = (⟨w, none⟩, known') ∧ Copies w v ∧
    Knows g known'

/-- A value with the mark of its node, if it can be told apart from an equal one. -/
def identified (copy : Copy) (n : Nat) (v : Value) : Value :=
  if hasIdentity v then .shared ⟨copy.own, n⟩ v else v

variable {g : Graph} {copy : Copy} {path : List Nat} {n : Nat} {v : Value}

theorem copies_identified {w : Value} (hw : w.unmarked = v.unmarked)
    (hidentity : hasIdentity w = hasIdentity v) (heq : hasIdentity v = false → w = v) :
    Copies (identified copy n w) v := by
  unfold identified
  constructor
  · rw [← hw]
    split <;> rfl
  · intro hplain
    rw [hidentity, if_neg (Bool.eq_false_iff.1 hplain)]
    exact heq hplain

theorem Knows.insert {known : Known} (h : Knows g known) (hspells : g.Spells n v) {w : Value}
    (hw : Copies w v) : Knows g (Std.HashMap.insert known n w) := by
  intro m w' hm
  rw [Std.HashMap.getElem?_insert] at hm
  split at hm
  · next heq =>
    cases hm
    exact ⟨v, eq_of_beq heq ▸ hspells, hw⟩
  · exact h m w' hm

/-! ## The way to a node -/

theorem Around.notMem (h : Around g path n) (hspells : g.Spells n v) : n ∉ path :=
  fun hmem => hspells.not_below_self (h.above n hmem).2

/-- There are no more nodes on the way than there are nodes. -/
theorem Around.length_le (h : Around g path n) : path.length ≤ g.size := by
  have hsub : path ⊆ List.range g.size := fun m hm => List.mem_range.2 (h.above m hm).1
  have hle := (List.subperm_of_subset h.nodup hsub).length_le
  rwa [List.length_range] at hle

theorem Around.child (h : Around g path n) (hspells : g.Spells n v) {m : Nat}
    (hsize : n < g.size) (hm : g.Below m n) : Around g (n :: path) m := by
  refine ⟨List.nodup_cons.2 ⟨h.notMem hspells, h.nodup⟩, List.forall_mem_cons.2 ⟨?_, ?_⟩⟩
  · exact ⟨hsize, .single hm⟩
  · exact fun k hk => ⟨(h.above k hk).1, .head hm (h.above k hk).2⟩

/-! ## Several nodes -/

theorem outermost_eq_none {parts : List Unfolded} (h : ∀ part ∈ parts, part.reach = none) :
    outermost parts = none := by
  unfold outermost
  induction parts with
  | nil => rfl
  | cons part rest ih =>
    obtain ⟨hpart, hrest⟩ := List.forall_mem_cons.1 h
    rw [List.foldl_cons, hpart]
    exact ih hrest

/-- Nodes that are read one after the other. -/
theorem run_mapM_gives {reader : Nat → StateM Known Unfolded} {items : List Nat} {vs : List Value}
    (hlength : items.length = vs.length) (h : ∀ p ∈ items.zip vs, Gives g p.2 (reader p.1))
    {known : Known} (hknown : Knows g known) :
    ∃ parts known', (items.mapM reader).run known = (parts, known') ∧
      List.Forall₂ Copies (parts.map Unfolded.value) vs ∧ outermost parts = none ∧
      Knows g known' := by
  suffices hparts : ∃ parts known', (items.mapM reader).run known = (parts, known') ∧
      List.Forall₂ Copies (parts.map Unfolded.value) vs ∧ (∀ part ∈ parts, part.reach = none) ∧
      Knows g known' by
    obtain ⟨parts, known', hrun, hcopies, hreach, hknown'⟩ := hparts
    exact ⟨parts, known', hrun, hcopies, outermost_eq_none hreach, hknown'⟩
  induction items generalizing vs known with
  | nil =>
    rw [List.eq_nil_of_length_eq_zero hlength.symm]
    exact ⟨[], known, rfl, .nil, List.forall_mem_nil _, hknown⟩
  | cons n items ih =>
    obtain ⟨v, vs, rfl⟩ := List.exists_cons_of_length_eq_add_one hlength.symm
    obtain ⟨hv, hvs⟩ := List.forall_mem_cons.1 h
    obtain ⟨w, known₁, hrun, hw, hknown₁⟩ := hv known hknown
    obtain ⟨parts, known₂, hrest, hws, hreach, hknown₂⟩ := ih (Nat.succ.inj hlength) hvs hknown₁
    refine ⟨⟨w, none⟩ :: parts, known₂, ?_, .cons hw hws, List.forall_mem_cons.2 ⟨rfl, hreach⟩,
      hknown₂⟩
    rw [List.mapM_cons, StateT.run_bind, hrun]
    show (StateT.run (items.mapM reader >>= _) known₁) = _
    rw [StateT.run_bind, hrest]
    rfl

/-! ## One node -/

section Node

variable {fuel : Nat} {known : Known} (hnew : known[n]? = none) (hpath : n ∉ path)

include hnew hpath

theorem run_valueAt_scalar {tag : Tag} {content : Text} (hget : g.get n = .scalar tag content)
    (hread : Scalar.read tag n content = .ok v) :
    (g.valueAt copy (fuel + 1) path n).run known =
      (⟨identified copy n v, none⟩, Std.HashMap.insert known n (identified copy n v)) := by
  have hvalue : ((Checker.scalarValue g n).toOption).getD .null = v := by
    rw [Checker.scalarValue_of_scalar hget hread]
    rfl
  rw [valueAt, StateT.run_bind]
  dsimp only [getThe, MonadStateOf.get, StateT.get, StateT.run, bind, pure]
  rw [hnew]
  dsimp only
  rw [List.idxOf?_eq_none_iff.2 hpath, hvalue, hget]
  cases tag <;> rfl

theorem run_valueAt_sequence {items : List Nat} (hget : g.get n = .sequence .seq items)
    {parts : List Unfolded} {known' : Known}
    (hrun : (items.mapM fun m => g.valueAt copy fuel (n :: path) m).run known = (parts, known'))
    (hreach : outermost parts = none) :
    (g.valueAt copy (fuel + 1) path n).run known =
      (⟨identified copy n (.list (parts.map Unfolded.value)), none⟩,
        Std.HashMap.insert known' n (identified copy n (.list (parts.map Unfolded.value)))) := by
  rw [StateT.run] at hrun
  rw [valueAt, StateT.run_bind]
  dsimp only [getThe, MonadStateOf.get, StateT.get, StateT.run, bind, pure]
  rw [hnew]
  dsimp only
  rw [List.idxOf?_eq_none_iff.2 hpath, hget]
  dsimp only [Node.tag, StateT.bind, StateT.pure, bind, pure]
  rw [hrun]
  dsimp only
  rw [hreach]
  rfl

theorem run_valueAt_mapping {entries : List (Nat × Nat)} (hget : g.get n = .mapping .map entries)
    {keys values : List Unfolded} {known₁ known₂ : Known}
    (hkeys : ((entries.map Prod.fst).mapM fun m => g.valueAt copy fuel (n :: path) m).run known =
      (keys, known₁))
    (hvalues : ((entries.map Prod.snd).mapM fun m => g.valueAt copy fuel (n :: path) m).run known₁ =
      (values, known₂))
    (hreach : outermost values = none) :
    let w := identified copy n
      (.ofEntries ((keys.map Unfolded.value).zip (values.map Unfolded.value)))
    (g.valueAt copy (fuel + 1) path n).run known = (⟨w, none⟩, Std.HashMap.insert known₂ n w) := by
  rw [StateT.run] at hkeys hvalues
  rw [valueAt, StateT.run_bind]
  dsimp only [getThe, MonadStateOf.get, StateT.get, StateT.run, bind, pure]
  rw [hnew]
  dsimp only
  rw [List.idxOf?_eq_none_iff.2 hpath, hget]
  dsimp only [Node.tag, StateT.bind, StateT.pure, bind, pure]
  rw [hkeys]
  dsimp only
  rw [hvalues]
  dsimp only
  rw [hreach]
  rfl

theorem run_valueAt_set {entries : List (Nat × Nat)} (hget : g.get n = .mapping .set entries)
    {keys : List Unfolded} {known' : Known}
    (hkeys : ((entries.map Prod.fst).mapM fun m => g.valueAt copy fuel (n :: path) m).run known =
      (keys, known'))
    (hreach : outermost keys = none) :
    let w := identified copy n (.ofMembers (keys.map Unfolded.value))
    (g.valueAt copy (fuel + 1) path n).run known = (⟨w, none⟩, Std.HashMap.insert known' n w) := by
  rw [StateT.run] at hkeys
  rw [valueAt, StateT.run_bind]
  dsimp only [getThe, MonadStateOf.get, StateT.get, StateT.run, bind, pure]
  rw [hnew]
  dsimp only
  rw [List.idxOf?_eq_none_iff.2 hpath, hget]
  dsimp only [Node.tag, StateT.bind, StateT.pure, bind, pure]
  rw [hkeys]
  dsimp only
  rw [hreach]
  rfl

end Node

/-- What several nodes are read as, without marks. -/
theorem map_unmarked_of_copies {ws vs : List Value} (h : List.Forall₂ Copies ws vs) :
    ws.map Value.unmarked = vs.map Value.unmarked := by
  induction h with
  | nil => rfl
  | cons hw _ ih => rw [List.map_cons, List.map_cons, hw.unmarked, ih]

theorem run_valueAt_known {fuel : Nat} {known : Known} {w : Value} (h : known[n]? = some w) :
    (g.valueAt copy (fuel + 1) path n).run known = (⟨w, none⟩, known) := by
  rw [valueAt, StateT.run_bind]
  dsimp only [getThe, MonadStateOf.get, StateT.get, StateT.run, bind, pure]
  rw [h]
  rfl

/-- A node that is known is what is known of it, so that only a new one is to be read. -/
theorem gives_of_new (h : g.Spells n v) {fuel : Nat} (around : Around g path n)
    (hfuel : g.size < fuel + path.length)
    (hnew : ∀ fuel, g.size < fuel + 1 + path.length → ∀ known, Knows g known →
      known[n]? = none → ∃ w known', Copies w v ∧ Knows g known' ∧
        (g.valueAt copy (fuel + 1) path n).run known =
          (⟨w, none⟩, Std.HashMap.insert known' n w)) :
    Gives g v (g.valueAt copy fuel path n) := by
  have hlength := around.length_le
  obtain ⟨fuel, rfl⟩ : ∃ k, fuel = k + 1 := ⟨fuel - 1, by omega⟩
  intro known hknown
  cases hw : known[n]? with
  | some w =>
    obtain ⟨v', hv', hcopies⟩ := hknown n w hw
    rw [hv'.unique h] at hcopies
    exact ⟨w, known, run_valueAt_known hw, hcopies, hknown⟩
  | none =>
    obtain ⟨w, known', hcopies, hknown', hrun⟩ := hnew fuel hfuel known hknown hw
    exact ⟨w, _, hrun, hcopies, hknown'.insert h hcopies⟩

/-- The children of a node are read below it, where one level less is left to go down. -/
theorem gives_children (h : g.Spells n v) (around : Around g path n) {items : List Nat}
    (hbelow : ∀ m ∈ items, g.Below m n) {vs : List Value}
    (hitems : ∀ p ∈ items.zip vs, ∀ {path : List Nat} {fuel : Nat}, Around g path p.1 →
      g.size < fuel + path.length → Gives g p.2 (g.valueAt copy fuel path p.1))
    {fuel : Nat} (hfuel : g.size < fuel + 1 + path.length) :
    ∀ p ∈ items.zip vs, Gives g p.2 (g.valueAt copy fuel (n :: path) p.1) := by
  intro p hp
  have hchild := hbelow p.1 (List.of_mem_zip hp).1
  have hsize : n < g.size := by
    rw [← Nat.not_le]
    intro hle
    rw [Below, get, Array.getElem?_eq_none hle] at hchild
    cases hchild
  refine hitems p hp (around.child h hsize hchild) ?_
  rw [List.length_cons]
  omega

/-- A node that spells a value is read as the value. -/
theorem valueAt_gives (h : g.Spells n v) {fuel : Nat} (around : Around g path n)
    (hfuel : g.size < fuel + path.length) : Gives g v (g.valueAt copy fuel path n) := by
  induction h generalizing fuel path with
  | @scalar n tag content v hget htag hread =>
    have hspells : g.Spells n v := .scalar hget htag hread
    refine gives_of_new hspells around hfuel fun fuel _ known hknown hnew => ?_
    exact ⟨_, known, copies_identified rfl rfl fun _ => rfl, hknown,
      run_valueAt_scalar hnew (around.notMem hspells) hget hread⟩
  | @list n items vs hget hlength hitems ih =>
    have hspells : g.Spells n (.list vs) := .list hget hlength hitems
    have hbelow : ∀ m ∈ items, g.Below m n := fun m hm => by rwa [Below, hget]
    refine gives_of_new hspells around hfuel fun fuel hfuel known hknown hnew => ?_
    obtain ⟨parts, known', hrun, hcopies, hreach, hknown'⟩ := run_mapM_gives hlength
      (gives_children hspells around hbelow ih hfuel) hknown
    refine ⟨_, known', ?_, hknown',
      run_valueAt_sequence hnew (around.notMem hspells) hget hrun hreach⟩
    refine copies_identified ?_ rfl fun hfalse => by cases hfalse
    rw [Value.unmarked, Value.unmarked, Value.unmarkedAll_eq_map, Value.unmarkedAll_eq_map,
      map_unmarked_of_copies hcopies]
  | @map n entries ks vs hget hkeys hlength hks hvs ihk ihv =>
    have hspells : g.Spells n (.ofEntries (ks.zip vs)) := .map hget hkeys hlength hks hvs
    have hbelow : ∀ m, m ∈ entries.map Prod.fst ∨ m ∈ entries.map Prod.snd → g.Below m n :=
      fun m hm => by rwa [Below, hget, mem_children_mapping]
    refine gives_of_new hspells around hfuel fun fuel hfuel known hknown hnew => ?_
    obtain ⟨keys, known₁, hrun, hcopies, -, hknown₁⟩ :=
      run_mapM_gives ((List.length_map _).trans hlength.1)
        (gives_children hspells around (fun m hm => hbelow m (.inl hm)) ihk hfuel) hknown
    obtain ⟨values, known₂, hrun', hcopies', hreach, hknown₂⟩ :=
      run_mapM_gives ((List.length_map _).trans hlength.2)
        (gives_children hspells around (fun m hm => hbelow m (.inr hm)) ihv hfuel) hknown₁
    refine ⟨_, known₂, ?_, hknown₂,
      run_valueAt_mapping hnew (around.notMem hspells) hget hrun hrun' hreach⟩
    refine copies_identified ?_ rfl fun hfalse => by cases hfalse
    rw [Value.unmarked_ofEntries, Value.unmarked_ofEntries, ← List.zip_map, ← List.zip_map,
      map_unmarked_of_copies hcopies, map_unmarked_of_copies hcopies']
  | @set n entries ks vs hget hkeys hlength hks hvs ihk ihv =>
    have hspells : g.Spells n (.ofMembers ks) := .set hget hkeys hlength hks hvs
    have hbelow : ∀ m ∈ entries.map Prod.fst, g.Below m n :=
      fun m hm => by rw [Below, hget, mem_children_mapping]; exact .inl hm
    refine gives_of_new hspells around hfuel fun fuel hfuel known hknown hnew => ?_
    obtain ⟨keys, known', hrun, hcopies, hreach, hknown'⟩ :=
      run_mapM_gives ((List.length_map _).trans hlength.1)
        (gives_children hspells around hbelow ihk hfuel) hknown
    refine ⟨_, known', ?_, hknown',
      run_valueAt_set hnew (around.notMem hspells) hget hrun hreach⟩
    refine copies_identified ?_ rfl fun hfalse => by cases hfalse
    rw [Value.unmarked_ofMembers, Value.unmarked_ofMembers, map_unmarked_of_copies hcopies]

/-- The value of a node as a copy by itself. -/
theorem unfold_copies (h : g.Spells n v) (copy : Copy) : Copies (g.unfold copy n) v := by
  have around : Around g [] n := ⟨List.nodup_nil, List.forall_mem_nil _⟩
  have hempty : Knows g ∅ := by
    intro m w hm
    rw [Std.HashMap.getElem?_empty] at hm
    cases hm
  obtain ⟨w, known, hrun, hcopies, -⟩ := valueAt_gives h around
    (Nat.lt_succ_self _) ∅ hempty
  rw [unfold, hrun]
  exact hcopies

/-! ## Mappings that are laid open -/

/-- A value is another one with marks, of which the outer mappings have none down to a level. -/
def Opens : Nat → Value → Value → Prop
  | 0, w, v => Copies w v
  | levels + 1, w, .map entries => ∃ entries', w = .map entries' ∧
    List.Forall₂ (fun e' e => Copies e'.1 e.1 ∧ Opens levels e'.2 e.2) entries' entries
  | _ + 1, w, v => Copies w v

theorem opens_of_ne_map {levels : Nat} {w : Value} (h : Copies w v)
    (hv : ∀ entries, v ≠ .map entries) : Opens levels w v := by
  cases levels with
  | zero => exact h
  | succ levels =>
    cases v with
    | map entries => exact absurd rfl (hv entries)
    | _ => exact h

theorem Copies.beq_eq {w w' v v' : Value} (h : Copies w v) (h' : Copies w' v') :
    (w == w') = (v == v') := by
  rw [← Value.unmarked_beq_unmarked w w', h.unmarked, h'.unmarked, Value.unmarked_beq_unmarked]

/-- The entries of a mapping, each value read with the number of its entry. -/
theorem forall₂_zipIdx {K V : Value → Value → Prop} {key : Nat → Value} {value : Nat → Nat → Value}
    (hkey : ∀ {m v}, g.Spells m v → K (key m) v)
    (hvalue : ∀ {m v} (i : Nat), g.Spells m v → V (value i m) v) {entries : List (Nat × Nat)}
    {ks vs : List Value} (hlength : entries.length = ks.length ∧ entries.length = vs.length)
    (hks : ∀ p ∈ (entries.map Prod.fst).zip ks, g.Spells p.1 p.2)
    (hvs : ∀ p ∈ (entries.map Prod.snd).zip vs, g.Spells p.1 p.2) (first : Nat) :
    List.Forall₂ (fun a b => K a.1 b.1 ∧ V a.2 b.2)
      ((entries.zipIdx first).map fun e => (key e.1.1, value e.2 e.1.2)) (ks.zip vs) := by
  induction entries generalizing ks vs first with
  | nil =>
    rw [List.eq_nil_of_length_eq_zero hlength.1.symm]
    exact .nil
  | cons entry entries ih =>
    obtain ⟨k, ks, rfl⟩ := List.exists_cons_of_length_eq_add_one hlength.1.symm
    obtain ⟨v, vs, rfl⟩ := List.exists_cons_of_length_eq_add_one hlength.2.symm
    obtain ⟨hk, hks⟩ := List.forall_mem_cons.1 hks
    obtain ⟨hv, hvs⟩ := List.forall_mem_cons.1 hvs
    exact .cons ⟨hkey hk, hvalue first hv⟩
      (ih ⟨Nat.succ.inj hlength.1, Nat.succ.inj hlength.2⟩ hks hvs (first + 1))

theorem layOpen_of_tag_ne (h : (g.get n).tag ≠ .map) (width levels number : Nat) :
    g.layOpen width (levels + 1) number n = g.unfold ⟨number, 0⟩ n := by
  rw [layOpen]
  split
  · next htag _ => exact absurd htag h
  · rfl

theorem layOpen_opens (h : g.Spells n v) (width levels number : Nat) :
    Opens levels (g.layOpen width levels number n) v := by
  induction levels generalizing n v number with
  | zero => exact unfold_copies h _
  | succ levels ih =>
    have hcopies := unfold_copies h ⟨number, 0⟩
    cases h with
    | scalar hget htag hread =>
      rw [layOpen_of_tag_ne]
      · exact opens_of_ne_map hcopies (Scalar.ne_map_of_read hread)
      · rw [hget]
        rintro rfl
        cases htag
    | list hget | set hget =>
      rw [layOpen_of_tag_ne (by rw [hget]; exact nofun)]
      exact opens_of_ne_map hcopies nofun
    | map hget hkeys hlength hks hvs =>
      rw [layOpen, hget]
      exact ⟨_, rfl, OrderedMap.forall₂_ofList Copies.beq_eq
        (forall₂_zipIdx (fun hk => unfold_copies hk ⟨number, 0⟩)
          (fun i hv => ih hv (number * width + i + 1)) hlength hks hvs 0)⟩

/-- The value of a graph whose root spells one. -/
theorem toValue_opens (h : g.Spells n v) (levels : Nat) : Opens levels (g.toValue levels n) v := by
  cases levels with
  | zero => exact unfold_copies h _
  | succ levels => exact layOpen_opens h _ _ _

end Graph

end SiteRules.Yaml
