import SiteRules.Proofs.Store.Resolution
import SiteRules.Proofs.Value.Equality
import SiteRules.Store.Equality

/-!
# What equal stores answer

Equality of stores does not look at the order of the writes, resolution does: among patterns that
are as specific as one another and apply to the same URL (`Rivals`), the one that was last written
later lies on top. This shows only where rivals disagree on the value of a key. So equal stores
answer alike, for URLs and for patterns, if rivals that disagree were last written in the same order
in both (`RivalsInOrder`, `answers_same_of_beq`), and two stores with the same writes in another
order can be equal and answer differently (`not_answers_same`).
-/

namespace SiteRules

variable {κ ν : Type} [BEq κ] [EquivBEq κ] [BEq ν]

/-! ## Equal records -/

/-- Equal records have equal values for the same keys. -/
theorem Record.same_iff {a b : Record κ ν} : a.same b = true ↔
    ∀ k, Option.Rel (fun v w => (v == w) = true) (a.get? k) (b.get? k) :=
  OrderedMap.same_iff_get?

theorem Record.exists_of_same {a b : Record κ ν} (h : a.same b = true) {k : κ} {v : ν}
    (hv : a.get? k = some v) : ∃ w, b.get? k = some w ∧ (v == w) = true := by
  have hrel := same_iff.1 h k
  rw [hv] at hrel
  generalize b.get? k = w at hrel ⊢
  cases hrel with | some heq => exact ⟨_, rfl, heq⟩

theorem Record.contains_eq_of_same {a b : Record κ ν} (h : a.same b = true) (k : κ) :
    a.contains k = b.contains k := by
  have hrel := same_iff.1 h k
  unfold OrderedMap.contains
  generalize a.get? k = v, b.get? k = w at hrel ⊢
  cases hrel <;> rfl

/-- Records with the same keys are equal if all their values are. -/
theorem Record.same_of_get? {a b : Record κ ν} (hkeys : ∀ k, a.contains k = b.contains k)
    (hvalues : ∀ k v w, a.get? k = some v → b.get? k = some w → (v == w) = true) :
    a.same b = true := by
  refine same_iff.2 fun k => ?_
  have hkey := hkeys k
  have hvalue := hvalues k
  unfold OrderedMap.contains at hkey
  generalize a.get? k = v, b.get? k = w at hkey hvalue ⊢
  cases v <;> cases w
  case none.none => exact .none
  case some.some => exact .some (hvalue _ _ rfl rfl)
  all_goals cases hkey

/-- Equal records laid over equal records give equal records. -/
theorem Record.same_overlay {base base' top top' : Record κ ν} (hbase : base.same base' = true)
    (htop : top.same top' = true) : Record.same (base.overlay top) (base'.overlay top') = true := by
  refine same_iff.2 fun k => ?_
  have hlow := same_iff.1 hbase k
  have hhigh := same_iff.1 htop k
  rw [OrderedMap.get?_overlay, OrderedMap.get?_overlay]
  generalize base.get? k = b, base'.get? k = b', top.get? k = t, top'.get? k = t' at hlow hhigh ⊢
  cases hhigh with
  | some heq => exact .some heq
  | none => exact hlow

namespace Store

/-- Two answers are equal: there is none in either case, or the records are equal. -/
def SameAnswer (x y : Option (Record κ ν)) : Prop :=
  Option.Rel (fun r r' => r.same r' = true) x y

omit [EquivBEq κ] in
theorem SameAnswer.exists_right {r : Record κ ν} {y : Option (Record κ ν)}
    (h : SameAnswer (some r) y) : ∃ r', y = some r' ∧ r.same r' = true := by
  cases h with | some hsame => exact ⟨_, rfl, hsame⟩

omit [EquivBEq κ] in
theorem SameAnswer.exists_left {x : Option (Record κ ν)} {r' : Record κ ν}
    (h : SameAnswer x (some r')) : ∃ r, x = some r ∧ r.same r' = true := by
  cases h with | some hsame => exact ⟨_, rfl, hsame⟩

omit [EquivBEq κ] in
theorem SameAnswer.getD {x y : Option (Record κ ν)} (h : SameAnswer x y) :
    (x.getD .empty).same (y.getD .empty) = true := by
  cases h with
  | none => rfl
  | some hsame => exact hsame

omit [EquivBEq κ] in
/-- Equal stores hold equal records for the same patterns. -/
theorem beq_iff {a b : Store κ ν} :
    (a == b) = true ↔ ∀ p, SameAnswer (a.get? p) (b.get? p) := by
  show a.same b = true ↔ _
  rw [Store.same, OrderedMap.same_iff_get?]
  refine forall_congr' fun p => ?_
  unfold SameAnswer get?
  cases a.entries.get? p <;> cases b.entries.get? p <;> simp

/-! ## Rivals -/

/-- Two texts are patterns that are as specific as each other and apply to a common URL. -/
def Rivals (p q : Text) : Prop :=
  ∃ x y, Pattern.parse? p = some x ∧ Pattern.parse? q = some y ∧ x.specificity = y.specificity ∧
    ∃ url, x.accepts url = true ∧ y.accepts url = true

/-- Patterns that give way to each other, each by another history, are equally specific and have
been last written in the opposite order. -/
theorem GivesWay.tie {wa wb : List Text} {p q : Text} (h : GivesWay wa q p)
    (h' : GivesWay wb p q) : ∃ y x, Pattern.parse? q = some y ∧ Pattern.parse? p = some x ∧
      y.specificity = x.specificity ∧ lastWrite wa q < lastWrite wa p ∧
        lastWrite wb p < lastWrite wb q := by
  obtain ⟨y, x, hy, hx, hlow⟩ := h
  obtain ⟨x', y', hx', hy', hlow'⟩ := h'
  cases hx.symm.trans hx'
  cases hy.symm.trans hy'
  simp only [Specificity.lower_iff] at hlow hlow'
  rcases hlow with hlt | ⟨heq, hlast⟩
  · rcases hlow' with hlt' | ⟨heq', -⟩
    · omega
    · rw [heq'] at hlt
      exact absurd hlt (Nat.lt_irrefl _)
  · rcases hlow' with hlt' | ⟨-, hlast'⟩
    · rw [heq] at hlt'
      exact absurd hlt' (Nat.lt_irrefl _)
    · exact ⟨y, x, hy, hx, heq, hlast, hlast'⟩

theorem Rivals.rank_eq {p q : Text} (h : Rivals p q) : rank p = rank q := by
  obtain ⟨x, y, hx, hy, heq, -⟩ := h
  rw [Store.rank_eq hx, Store.rank_eq hy, heq]

/-- The records of two patterns have different values for a common key. -/
def Disagree (s : Store κ ν) (p q : Text) : Prop :=
  ∃ r t, s.get? p = some r ∧ s.get? q = some t ∧
    ∃ k v w, r.get? k = some v ∧ t.get? k = some w ∧ (v == w) = false

/-- The records that a store has for the patterns of a certain kind. -/
def Selected (s : Store κ ν) (kind : Text → Prop) (site : Text × Record κ ν) : Prop :=
  s.get? site.1 = some site.2 ∧ kind site.1

variable {a b : Store κ ν} {kind : Text → Prop}

omit [EquivBEq κ] in
theorem Selected.exists_right (equal : (a == b) = true) {p : Text} {r : Record κ ν}
    (h : a.Selected kind (p, r)) : ∃ r', b.Selected kind (p, r') ∧ r.same r' = true := by
  have hrel := beq_iff.1 equal p
  rw [show a.get? p = some r from h.1] at hrel
  obtain ⟨r', hr', hsame⟩ := hrel.exists_right
  exact ⟨r', ⟨hr', h.2⟩, hsame⟩

omit [EquivBEq κ] in
theorem Selected.exists_left (equal : (a == b) = true) {p : Text} {r' : Record κ ν}
    (h : b.Selected kind (p, r')) : ∃ r, a.Selected kind (p, r) ∧ r.same r' = true := by
  have hrel := beq_iff.1 equal p
  rw [show b.get? p = some r' from h.1] at hrel
  obtain ⟨r, hr, hsame⟩ := hrel.exists_left
  exact ⟨r, ⟨hr, h.2⟩, hsame⟩

omit [EquivBEq κ] in
theorem forall_not_selected_iff (equal : (a == b) = true) :
    (∀ site, ¬a.Selected kind site) ↔ ∀ site, ¬b.Selected kind site := by
  constructor
  · rintro hnone ⟨p, r'⟩ h
    obtain ⟨r, hr, -⟩ := h.exists_left equal
    exact hnone _ hr
  · rintro hnone ⟨p, r⟩ h
    obtain ⟨r', hr', -⟩ := h.exists_right equal
    exact hnone _ hr'

/-- Rivals that disagree in a store come in the same order in two histories. -/
def RivalsInOrder (s : Store κ ν) (writes writes' : List Text) : Prop :=
  ∀ p q, Rivals p q → s.Disagree p q →
    lastWrite writes p < lastWrite writes q → lastWrite writes' p < lastWrite writes' q

section Overlay

variable [PartialEquivBEq ν] {wa wb : List Text} (equal : (a == b) = true)
  (order : a.RivalsInOrder wa wb) {url : Url}
  (applies : ∀ p x, kind p → Pattern.parse? p = some x → x.accepts url = true)

include equal order applies

/-- Among patterns that apply to a common URL, the value that prevails in one of two equal stores
is equal to the one that prevails in the other. -/
theorem decided_same {k : κ} {v w : ν} (h : Decides (GivesWay wa) (a.Selected kind) k v)
    (h' : Decides (GivesWay wb) (b.Selected kind) k w) : (v == w) = true := by
  obtain ⟨⟨p, rp⟩, hp, hpv, hbelow⟩ := h
  obtain ⟨⟨q, rq'⟩, hq', hqw, hbelow'⟩ := h'
  obtain ⟨rp', hp', hsame⟩ := hp.exists_right equal
  obtain ⟨v', hpv', heq⟩ := Record.exists_of_same hsame hpv
  by_cases hpq : p = q
  · -- both values come from the same pattern
    subst hpq
    have hrecord : some rp' = some rq' := hp'.1.symm.trans hq'.1
    cases hrecord
    have hvalue : some v' = some w := hpv'.symm.trans hqw
    cases hvalue
    exact heq
  · obtain ⟨rq, hq, hsame'⟩ := hq'.exists_left equal
    have hk : rq.contains k = true := by
      rw [Record.contains_eq_of_same hsame', OrderedMap.contains_eq_true_iff]
      exact ⟨w, hqw⟩
    obtain ⟨u, hu⟩ := OrderedMap.contains_eq_true_iff.1 hk
    obtain ⟨w', hqw', huw⟩ := Record.exists_of_same hsame' hu
    have hvalue : some w' = some w := hqw'.symm.trans hqw
    cases hvalue
    -- each pattern gives way to the other one in one of the stores, so they are rivals
    have hway : GivesWay wa q p := hbelow _ hq hk (Ne.symm hpq)
    have hway' : GivesWay wb p q :=
      hbelow' _ hp' (OrderedMap.contains_eq_true_iff.2 ⟨v', hpv'⟩) hpq
    obtain ⟨y, x, hy, hx, htie, hlast, hlast'⟩ := hway.tie hway'
    have hrivals : Rivals q p :=
      ⟨y, x, hy, hx, htie, url, applies q y hq.2 hy, applies p x hp.2 hx⟩
    -- the order of their writes is not the same, so they do not disagree
    have hagree : (u == v) = true := by
      rw [← Bool.not_eq_false]
      intro hne
      have hdisagree : a.Disagree q p := ⟨rq, rp, hq.1, hp.1, k, u, v, hu, hpv, hne⟩
      exact absurd (order q p hrivals hdisagree hlast) (Nat.lt_asymm hlast')
    exact BEq.trans (BEq.symm hagree) huw

/-- The records that equal stores have for the patterns of a kind, laid over one another by
specificity and by the histories of the stores, give equal records. -/
theorem same_of_isOverlay {r r' : Record κ ν}
    (h : IsOverlay (GivesWay wa) (a.Selected kind) r)
    (h' : IsOverlay (GivesWay wb) (b.Selected kind) r') : r.same r' = true := by
  refine Record.same_of_get? (fun k => ?_) fun k v w hv hw => ?_
  · rw [Bool.eq_iff_iff, h.contains_iff, h'.contains_iff]
    constructor
    · rintro ⟨⟨p, t⟩, hsite, hk⟩
      obtain ⟨t', hsite', hsame⟩ := hsite.exists_right equal
      exact ⟨_, hsite', (Record.contains_eq_of_same hsame k).symm.trans hk⟩
    · rintro ⟨⟨p, t'⟩, hsite', hk⟩
      obtain ⟨t, hsite, hsame⟩ := hsite'.exists_left equal
      exact ⟨_, hsite, (Record.contains_eq_of_same hsame k).trans hk⟩
  · exact decided_same equal order applies ((h.get?_iff k v).1 hv) ((h'.get?_iff k w).1 hw)

/-- What the layers for the patterns of a kind give in equal stores is equal. -/
theorem sameAnswer_overlaid {as bs : List (Record κ ν)}
    (hnilA : as = [] ↔ ∀ site, ¬a.Selected kind site)
    (hnilB : bs = [] ↔ ∀ site, ¬b.Selected kind site)
    (hoverlayA : IsOverlay (GivesWay wa) (a.Selected kind) (OrderedMap.overlayAll as))
    (hoverlayB : IsOverlay (GivesWay wb) (b.Selected kind) (OrderedMap.overlayAll bs)) :
    SameAnswer (overlaid as) (overlaid bs) := by
  have hnil : as = [] ↔ bs = [] := by rw [hnilA, hnilB, forall_not_selected_iff equal]
  have hsame := same_of_isOverlay equal order applies hoverlayA hoverlayB
  cases as with
  | nil =>
    rw [hnil.1 rfl]
    exact .none
  | cons top rest =>
    cases bs with
    | nil => cases hnil.2 rfl
    | cons top' rest' => exact .some hsame

end Overlay

variable [PartialEquivBEq ν] {wa wb : List Text}

/-! ## Answers -/

omit [EquivBEq κ] [BEq ν] in
theorem applies_eq_selected (s : Store κ ν) (url : Url) :
    s.Applies url = s.Selected (IsFor url) := rfl

omit [EquivBEq κ] [BEq ν] in
theorem isAncestor_eq_selected (s : Store κ ν) (source : Text) (target : Pattern) :
    s.IsAncestor source target = s.Selected (IsAbove source target) := rfl

section Answers

variable (builtA : Built a wa) (builtB : Built b wb) (equal : (a == b) = true)
  (order : a.RivalsInOrder wa wb)

include builtA builtB equal order

/-- What applies to a URL in equal stores gives equal records. -/
theorem stack_layersFor_same (url : Url) :
    SameAnswer (stack (a.layersFor url)) (stack (b.layersFor url)) := by
  obtain ⟨as, hstackA, hnilA, hoverlayA⟩ := builtA.tracks.exists_stack_layersFor url
  obtain ⟨bs, hstackB, hnilB, hoverlayB⟩ := builtB.tracks.exists_stack_layersFor url
  rw [applies_eq_selected] at hnilA hoverlayA hnilB hoverlayB
  rw [hstackA, hstackB]
  have happlies : ∀ p x, IsFor url p → Pattern.parse? p = some x →
      x.accepts url = true := by
    rintro p x ⟨y, hy, haccepts⟩ hx
    cases hy.symm.trans hx
    exact haccepts
  exact sameAnswer_overlaid equal order happlies hnilA hnilB hoverlayA hoverlayB

/-- What a pattern inherits in equal stores is equal. -/
theorem stack_ancestors_same (source : Text) (target : Pattern) :
    SameAnswer (stack (a.ancestors source target)) (stack (b.ancestors source target)) := by
  obtain ⟨as, hstackA, hnilA, hoverlayA⟩ := builtA.tracks.exists_stack_ancestors source target
  obtain ⟨bs, hstackB, hnilB, hoverlayB⟩ := builtB.tracks.exists_stack_ancestors source target
  rw [isAncestor_eq_selected] at hnilA hoverlayA hnilB hoverlayB
  rw [hstackA, hstackB]
  -- all that a pattern inherits from applies to a URL of its own
  obtain ⟨url, hurl⟩ := target.exists_accepts
  have happlies : ∀ p x, IsAbove source target p → Pattern.parse? p = some x →
      x.accepts url = true := by
    rintro p x ⟨-, y, hy, -, hcovers⟩ hx
    cases hy.symm.trans hx
    exact hcovers url hurl
  exact sameAnswer_overlaid equal order happlies hnilA hnilB hoverlayA hoverlayB

end Answers

/-- Equal stores give equal answers if rivals that disagree were last written in the same order. -/
theorem answers_same_of_beq (builtA : Built a wa) (builtB : Built b wb) (equal : (a == b) = true)
    (order : a.RivalsInOrder wa wb) :
    (∀ source, SameAnswer (a.resolveUrl source) (b.resolveUrl source)) ∧
      ∀ source, SameAnswer (a.resolvePattern source) (b.resolvePattern source) := by
  constructor
  · intro source
    unfold resolveUrl
    cases Url.parse? source with
    | none => exact .none
    | some url => exact stack_layersFor_same builtA builtB equal order url
  · intro source
    have hown := beq_iff.1 equal source
    unfold resolvePattern
    generalize a.get? source = own, b.get? source = own' at hown ⊢
    cases Pattern.parse? source with
    | none =>
      cases hown with
      | none => exact .none
      | some hsame => exact .some (Record.same_overlay rfl hsame)
    | some target =>
      have hinherited := stack_ancestors_same builtA builtB equal order source target
      cases hown with
      | none => exact hinherited
      | some hsame => exact .some (Record.same_overlay hinherited.getD hsame)

/-! ## Two spellings of a site -/

/-- The pattern for all sites. -/
def everywhere : Text := Text.ofString "*"

/-- The pattern for a site. -/
def plainSite : Text := Text.ofString "http://a"

/-- The pattern for the same site in another spelling. -/
def capitalSite : Text := Text.ofString "HTTP://a"

/-- The store with the value `n` for the setting `zoom` of a pattern. -/
def zoomed (s : Store Value Value) (pattern : Text) (n : Int) : Store Value Value :=
  s.merge pattern (Value.ofString "zoom") (.int n)

/-- What all sites are given may be written before or after what the two spellings of a site are
given in the same order. -/
theorem answers_same_of_beq_spellings :
    let a := ((empty.zoomed everywhere 0).zoomed plainSite 1).zoomed capitalSite 2
    let b := ((empty.zoomed plainSite 1).zoomed capitalSite 2).zoomed everywhere 0
    (a == b) = true ∧
      (∀ source, SameAnswer (a.resolveUrl source) (b.resolveUrl source)) ∧
        ∀ source, SameAnswer (a.resolvePattern source) (b.resolvePattern source) := by
  intro a b
  have builtA : Built a [everywhere, plainSite, capitalSite] :=
    .merge (.merge (.merge .empty _ _ _) _ _ _) _ _ _
  have builtB : Built b [plainSite, capitalSite, everywhere] :=
    .merge (.merge (.merge .empty _ _ _) _ _ _) _ _ _
  have equal : (a == b) = true := by decide +kernel
  have hstored : ∀ p r, a.get? p = some r →
      p = capitalSite ∨ p = plainSite ∨ p = everywhere := by
    intro p r h
    simp only [a, zoomed, get?_merge] at h
    split at h
    · next heq => exact .inl heq.symm
    · split at h
      · next heq => exact .inr (.inl heq.symm)
      · split at h
        · next heq => exact .inr (.inr heq.symm)
        · cases h
  refine ⟨equal, answers_same_of_beq builtA builtB equal fun p q hrivals hdisagree hlast => ?_⟩
  obtain ⟨r, t, hr, ht, -⟩ := hdisagree
  have hrank := hrivals.rank_eq
  -- only the two spellings have the same rank, and they come in the same order
  rcases hstored p r hr with rfl | rfl | rfl <;> rcases hstored q t ht with rfl | rfl | rfl <;>
    revert hrank hlast <;> decide +kernel

theorem not_sameAnswer {x y : Option (Record Value Value)} {r r' : Record Value Value}
    (hx : x = some r) (hy : y = some r') (hne : r.same r' = false) : ¬SameAnswer x y := by
  intro h
  rw [hx, hy] at h
  cases h with
  | some hsame =>
    rw [hne] at hsame
    cases hsame

/-- With the two spellings of a site written in another order, an equal store has another value for
the site, and for what inherits from it. -/
theorem not_answers_same :
    let a := (empty.zoomed plainSite 1).zoomed capitalSite 2
    let b := (empty.zoomed capitalSite 2).zoomed plainSite 1
    Built a [plainSite, capitalSite] ∧ Built b [capitalSite, plainSite] ∧ (a == b) = true ∧
      ¬SameAnswer (a.resolveUrl plainSite) (b.resolveUrl plainSite) ∧
        ¬SameAnswer (a.resolvePattern (Text.ofString "http://a/"))
          (b.resolvePattern (Text.ofString "http://a/")) := by
  intro a b
  refine ⟨.merge (.merge .empty _ _ _) _ _ _, .merge (.merge .empty _ _ _) _ _ _,
    by decide +kernel, ?_, ?_⟩
  · have hlayers : ∃ url, Url.parse? plainSite = some url ∧
        (a.layersFor url).Pairwise (fun x y => x.under y = true) ∧
        (b.layersFor url).Pairwise (fun x y => x.under y = true) ∧
        ∃ r r', overlaid ((a.layersFor url).map Layer.record) = some r ∧
          overlaid ((b.layersFor url).map Layer.record) = some r' ∧ r.same r' = false :=
      ⟨_, rfl, by decide, by decide, _, _, rfl, rfl, rfl⟩
    obtain ⟨url, hurl, hsortedA, hsortedB, r, r', hr, hr', hne⟩ := hlayers
    exact not_sameAnswer ((resolveUrl_of_pairwise hurl hsortedA).trans hr)
      ((resolveUrl_of_pairwise hurl hsortedB).trans hr') hne
  · have hlayers : ∃ target, Pattern.parse? (Text.ofString "http://a/") = some target ∧
        (a.ancestors (Text.ofString "http://a/") target).Pairwise
          (fun x y => x.under y = true) ∧
        (b.ancestors (Text.ofString "http://a/") target).Pairwise
          (fun x y => x.under y = true) ∧
        ∃ r r', overlaid ((a.ancestors (Text.ofString "http://a/") target).map Layer.record) =
            some r ∧
          overlaid ((b.ancestors (Text.ofString "http://a/") target).map Layer.record) =
            some r' ∧ r.same r' = false :=
      ⟨_, rfl, by decide, by decide, _, _, rfl, rfl, rfl⟩
    obtain ⟨target, htarget, hsortedA, hsortedB, r, r', hr, hr', hne⟩ := hlayers
    have hownA : a.get? (Text.ofString "http://a/") = none := rfl
    have hownB : b.get? (Text.ofString "http://a/") = none := rfl
    refine not_sameAnswer ?_ ?_ hne
    · simp only [resolvePattern, htarget, stack_of_pairwise hsortedA, hr, hownA]
    · simp only [resolvePattern, htarget, stack_of_pairwise hsortedB, hr', hownB]

end Store

end SiteRules
