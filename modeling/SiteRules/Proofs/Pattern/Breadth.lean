import SiteRules.Proofs.Pattern.Coverage

/-!
# Breadth and specificity

A rule that covers another one is at least as broad in every part, and for its protocols, its hosts
and its path this means that the digits of its specificity are no greater. For its port it does not:
an omitted port accepts no less than `*` and a numbered port can be the one that is left out, and
both count as narrower (`SiteRule.PortRaises`). These are the only ways in which a pattern can be
more specific than one that it covers (`Pattern.lower_iff_outranksByPort`).
-/

namespace SiteRules

/-! ## Protocols, hosts and paths -/

theorem ProtocolRule.rank_le_of_covers {outer inner : ProtocolRule}
    (h : outer.covers inner = true) : outer.rank ≤ inner.rank := by
  cases outer with
  | any => exact Fin.zero_le _
  | httpOrHttps =>
    cases inner with
    | any => cases h
    | httpOrHttps | only name => simp [rank]
  | only name =>
    cases inner with
    | any => cases h
    | httpOrHttps =>
      -- one name is not that of both protocols
      have hboth : Protocol.http = name ∧ Protocol.https = name := by
        simpa [covers, names?] using h
      exact absurd (hboth.1.trans hboth.2.symm) (by decide)
    | only other => simp [rank]

theorem HostRule.rank_le_of_covers {outer inner : HostRule} (h : outer.covers inner = true) :
    outer.rank ≤ inner.rank := by
  cases outer with
  | any => exact Fin.zero_le _
  | within domain =>
    cases inner with
    | any => cases h
    | within other | exactly host => simp [rank]
  | exactly host =>
    cases inner with
    | any | within domain => cases h
    | exactly other => simp [rank]

theorem SiteRule.path_rank_le_of_covers {outer inner : SiteRule} (h : outer.covers inner = true) :
    (Pattern.site outer).specificity.path ≤ (Pattern.site inner).specificity.path ∧
      ((Pattern.site outer).specificity.path = (Pattern.site inner).specificity.path ↔
        outer.path = inner.path) := by
  simp only [covers, Bool.and_eq_true] at h
  have hpath := h.2
  cases ho : outer.path with
  | none =>
    cases hi : inner.path with
    | none => simp [Pattern.specificity, ho, hi]
    | some path => simp [Pattern.specificity, ho, hi]
  | some path =>
    have hi : inner.path = some path := by simpa [ho, eq_comm] using hpath
    simp [Pattern.specificity, ho, hi]

/-! ## Ports -/

/-- The port makes a rule more specific than another one that is no broader: either both rules
accept every port, one by leaving it out and the other one by `*`, or one rule numbers the default
port of the only protocol of the other one, which leaves it out. -/
inductive SiteRule.PortRaises (outer inner : SiteRule) : Prop
  | omitted (outer_port : outer.port = .omitted) (inner_port : inner.port = .wildcard)
    (outer_path : outer.path = none) (inner_path : inner.path = none)
  | numbered {n : Nat} {name : Text} (outer_port : outer.port = .number n)
    (inner_port : inner.port = .omitted) (path_eq : outer.path = inner.path)
    (protocols : inner.protocols = .only name) (default : Protocol.defaultPort? name = some n)

theorem SiteRule.PortRaises.path_eq_path {outer inner : SiteRule} (h : outer.PortRaises inner) :
    outer.path = inner.path := by
  cases h with
  | omitted _ _ ho hi => rw [ho, hi]
  | numbered _ _ heq => exact heq

/-- Of two rules with the same path, the port of the broader one counts as the narrower port exactly
in the ways listed. -/
theorem SiteRule.port_rank_lt_iff {outer inner : SiteRule} (h : outer.covers inner = true)
    (hpath : outer.path = inner.path) :
    inner.port.rank < outer.port.rank ↔ outer.PortRaises inner := by
  simp only [covers, Bool.and_eq_true, Bool.or_eq_true] at h
  have hport := h.1.2
  constructor
  · intro hlt
    cases ho : outer.port with
    | wildcard => simp [ho, PortRule.rank] at hlt
    | omitted =>
      cases hi : inner.port with
      | omitted | number _ => simp [ho, hi, PortRule.rank] at hlt
      | wildcard =>
        -- a rule that accepts every port is covered by one that does only
        have hany : outer.anyPort = true :=
          hport.resolve_right fun hpins => by simp [pinsPortOf, anyPort, hi] at hpins
        have hnone : outer.path = none := by simpa [anyPort, ho] using hany
        exact .omitted ho hi hnone (hpath ▸ hnone)
    | number n =>
      have hany : outer.anyPort = false := by simp [anyPort, ho]
      obtain ⟨hinner, hsame⟩ := (pinsPortOf_iff hany).1 (by simpa [hany] using hport)
      rcases anyPort_eq_false hinner with hi | ⟨m, hi⟩
      · -- the omitted port stands for the default one of every protocol that is accepted
        have hdefault : ∀ protocol, inner.protocols.accepts protocol = true →
            Protocol.defaultPort? protocol = some n := by
          intro protocol hp
          have heq := hsame protocol hp
          simp only [portFor?, ho, hi] at heq
          exact heq.symm
        cases hp : inner.protocols with
        | any =>
          rw [hp] at hdefault
          exact absurd (hdefault [] rfl) (by simp [show Protocol.defaultPort? [] = none from rfl])
        | httpOrHttps =>
          rw [hp] at hdefault
          have hhttp := hdefault Protocol.http rfl
          rw [← hdefault Protocol.https rfl] at hhttp
          exact absurd hhttp (by decide)
        | only name =>
          rw [hp] at hdefault
          exact .numbered ho hi hpath hp (hdefault name (decide_eq_true rfl))
      · simp [ho, hi, PortRule.rank] at hlt
  · intro hraises
    cases hraises with
    | omitted ho hi => simp [ho, hi, PortRule.rank]
    | numbered ho hi => simp [ho, hi, PortRule.rank]

/-! ## Patterns -/

/-- A pattern is more specific than one that it covers: both are rules in parts for the same kind of
hosts, and the port makes the difference. -/
def Pattern.OutranksByPort (outer inner : Pattern) : Prop :=
  ∃ o i, outer = .site o ∧ inner = .site i ∧ o.hosts.rank = i.hosts.rank ∧ o.PortRaises i

/-- A pattern that covers another one is more specific exactly if its port makes it so. In all other
cases it is no more specific. -/
theorem Pattern.lower_iff_outranksByPort {outer inner : Pattern} (h : outer.covers inner = true) :
    (inner.specificity.Lower outer.specificity ↔ outer.OutranksByPort inner) ∧
      (¬outer.OutranksByPort inner → outer.specificity ≤ inner.specificity) := by
  have hiff : inner.specificity.Lower outer.specificity ↔ outer.OutranksByPort inner := by
    cases outer with
    | everything => simp [OutranksByPort, Specificity.lower_iff, specificity, Specificity.weight]
    | site outer =>
      cases inner with
      | everything => cases h
      | site inner =>
        have hcovers : outer.covers inner = true := h
        have hparts := hcovers
        simp only [SiteRule.covers, Bool.and_eq_true] at hparts
        obtain ⟨⟨⟨hprotocols, hhosts⟩, -⟩, -⟩ := hparts
        obtain ⟨hle, hpath⟩ := SiteRule.path_rank_le_of_covers hcovers
        have hdigits := Specificity.lower_iff_port_lt (a := (site outer).specificity)
          (b := (site inner).specificity) rfl hle (HostRule.rank_le_of_covers hhosts)
          (ProtocolRule.rank_le_of_covers hprotocols)
        rw [hdigits]
        constructor
        · rintro ⟨hsame, hrank, hlt⟩
          have hport := (SiteRule.port_rank_lt_iff hcovers (hpath.1 hsame)).1 hlt
          exact ⟨outer, inner, rfl, rfl, hrank, hport⟩
        · rintro ⟨o, i, ho, hi, hrank, hport⟩
          cases ho
          cases hi
          have hsame := hport.path_eq_path
          exact ⟨hpath.2 hsame, hrank, (SiteRule.port_rank_lt_iff hcovers hsame).2 hport⟩
  refine ⟨hiff, fun hno => ?_⟩
  rw [Specificity.le_iff_not_lower, hiff]
  exact hno

/-- The default port of a protocol may be named or left out, and the pattern that names it covers
the other one and is more specific. -/
theorem Pattern.lower_iff_outranksByPort_default :
    ∃ outer inner, Pattern.parse? (Text.ofString "http://a:80/x") = some outer ∧
      Pattern.parse? (Text.ofString "http://a/x") = some inner ∧ outer.covers inner = true ∧
      inner.specificity.Lower outer.specificity := by
  have hrules : ∃ outer inner, Pattern.parse? (Text.ofString "http://a:80/x") = some (.site outer) ∧
      Pattern.parse? (Text.ofString "http://a/x") = some (.site inner) ∧
      outer.covers inner = true ∧ outer.hosts.rank = inner.hosts.rank ∧ outer.port = .number 80 ∧
      inner.port = .omitted ∧ outer.path = inner.path ∧ inner.protocols = .only Protocol.http :=
    ⟨_, _, rfl, rfl, by decide, rfl, rfl, rfl, rfl, rfl⟩
  obtain ⟨outer, inner, houter, hinner, hcovers, hhosts, ho, hi, hpath, hprotocols⟩ := hrules
  have hraises : outer.PortRaises inner := .numbered ho hi hpath hprotocols rfl
  have hsites : (Pattern.site outer).covers (.site inner) = true := hcovers
  exact ⟨_, _, houter, hinner, hsites,
    (Pattern.lower_iff_outranksByPort hsites).1.2 ⟨_, _, rfl, rfl, hhosts, hraises⟩⟩

end SiteRules
