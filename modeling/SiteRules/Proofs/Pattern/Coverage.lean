import SiteRules.Pattern.Coverage
import SiteRules.Pattern.Match
import SiteRules.Pattern.Parser
import SiteRules.Pattern.Specificity
import SiteRules.Proofs.Pattern.Specificity

/-!
# Coverage is inclusion

`Pattern.covers` compares two patterns part by part. Here each part is shown to be exact: a rule
for protocols, hosts or ports covers another one exactly when it accepts all that the other one
accepts (`ProtocolRule.covers_iff`, `HostRule.covers_iff`, `SiteRule.pinsPortOf_iff`). The parts
of a URL can be chosen freely, so the parts together are exact as well (`SiteRule.covers_iff`).

The one place where the comparison says less than inclusion is `*` under a rule in parts that
restricts nothing (`Pattern.covers_iff_inclusion`).
-/

namespace SiteRules

/-! ## Protocols -/

theorem ProtocolRule.accepts_iff_names? (rule : ProtocolRule) (protocol : Text) :
    rule.accepts protocol = true ↔ ∀ names, rule.names? = some names → protocol ∈ names := by
  cases rule <;> simp [accepts, names?]

theorem ProtocolRule.exists_accepts (rule : ProtocolRule) :
    ∃ protocol, rule.accepts protocol = true := by
  cases rule with
  | any => exact ⟨[], rfl⟩
  | httpOrHttps => exact ⟨Protocol.http, rfl⟩
  | only name => exact ⟨name, by simp [accepts]⟩

theorem ProtocolRule.exists_not_accepts {rule : ProtocolRule} (h : rule ≠ any) :
    ∃ protocol, rule.accepts protocol = false := by
  cases rule with
  | any => exact absurd rfl h
  | httpOrHttps => exact ⟨[], by decide⟩
  | only name => exact ⟨CodePoint.ofChar 'a' :: name, by simp [accepts]⟩

/-- The comparison of protocols is exact. -/
theorem ProtocolRule.covers_iff (outer inner : ProtocolRule) :
    outer.covers inner = true ↔
      ∀ protocol, inner.accepts protocol = true → outer.accepts protocol = true := by
  simp only [accepts_iff_names?, covers]
  cases ho : outer.names? with
  | none => simp
  | some outerNames =>
    cases hi : inner.names? with
    | none =>
      -- all protocols are accepted inside, and one of them is not accepted outside
      have hne : outer ≠ any := by rintro rfl; cases ho
      obtain ⟨protocol, hp⟩ := exists_not_accepts hne
      have hnot : protocol ∉ outerNames := by
        intro hmem
        rw [(accepts_iff_names? outer protocol).2 (by simp [ho, hmem])] at hp
        cases hp
      simpa using ⟨protocol, hnot⟩
    | some innerNames => simp

/-! ## Hosts -/

theorem HostRule.within_accepts_iff {domain host : Text} :
    (within domain).accepts host = true ↔
      host = domain ∨ CodePoint.ofChar '.' :: domain <:+ host := by
  simp [accepts]

theorem HostRule.exists_accepts (rule : HostRule) : ∃ host, rule.accepts host = true := by
  cases rule with
  | any => exact ⟨[], rfl⟩
  | within domain => exact ⟨domain, within_accepts_iff.2 (.inl rfl)⟩
  | exactly host => exact ⟨host, by simp [accepts]⟩

/-- No domain accepts a host that continues its first label to the left. -/
theorem HostRule.within_not_accepts_cons (domain : Text) :
    (within domain).accepts (CodePoint.ofChar 'a' :: domain) = false := by
  rw [← Bool.not_eq_true, within_accepts_iff]
  rintro (h | h)
  · simp at h
  · have heq := h.eq_of_length (by simp)
    have hne : CodePoint.ofChar '.' ≠ CodePoint.ofChar 'a' := by decide
    exact hne (List.cons.inj heq).1

theorem HostRule.exists_not_accepts {rule : HostRule} (h : rule ≠ any) :
    ∃ host, rule.accepts host = false := by
  cases rule with
  | any => exact absurd rfl h
  | within domain => exact ⟨_, within_not_accepts_cons domain⟩
  | exactly host => exact ⟨CodePoint.ofChar 'a' :: host, by simp [accepts]⟩

/-- A domain inside another one has no host outside of it. -/
theorem HostRule.within_accepts_trans {outer inner host : Text}
    (ho : (within outer).accepts inner = true) (hi : (within inner).accepts host = true) :
    (within outer).accepts host = true := by
  rw [within_accepts_iff] at ho hi ⊢
  rcases hi with rfl | hi
  · exact ho
  · right
    rcases ho with rfl | ho
    · exact hi
    · exact (ho.trans (List.suffix_cons _ _)).trans hi

/-- The comparison of hosts is exact. -/
theorem HostRule.covers_iff (outer inner : HostRule) :
    outer.covers inner = true ↔
      ∀ host, inner.accepts host = true → outer.accepts host = true := by
  by_cases ho : outer = any
  · subst ho
    simp [covers, accepts]
  cases inner with
  | any =>
    obtain ⟨host, hhost⟩ := exists_not_accepts ho
    have hfalse : outer.covers any = false := by
      cases outer <;> first | rfl | exact absurd rfl ho
    simpa [hfalse, accepts] using ⟨host, hhost⟩
  | within domain =>
    cases outer with
    | any => exact absurd rfl ho
    | within outerDomain =>
      constructor
      · exact fun h host hi => within_accepts_trans h hi
      · exact fun h => h domain (within_accepts_iff.2 (.inl rfl))
    | exactly name =>
      -- a domain has two hosts of different lengths at least
      simp only [covers, Bool.false_eq_true, false_iff]
      intro h
      have h1 := h domain (within_accepts_iff.2 (.inl rfl))
      have h2 := h _ (within_accepts_iff.2 (.inr (List.suffix_refl _)))
      simp only [accepts, decide_eq_true_eq] at h1 h2
      rw [← h1] at h2
      simp at h2
  | exactly host =>
    cases outer with
    | any => exact absurd rfl ho
    | within outerDomain => simp [covers, accepts]
    | exactly name => simp [covers, accepts]

/-! ## Ports -/

/-- A rule that does not accept every port asks for a numbered one, or for the default one. -/
theorem SiteRule.anyPort_eq_false {rule : SiteRule} (h : rule.anyPort = false) :
    rule.port = .omitted ∨ ∃ n, rule.port = .number n := by
  unfold anyPort at h
  cases hp : rule.port with
  | omitted => exact .inl rfl
  | wildcard => simp [hp] at h
  | number n => exact .inr ⟨n, rfl⟩

/-- Two rules that ask for the same port whatever the protocol spell it alike, since some protocols
have no default port. -/
theorem SiteRule.port_eq_iff {outer inner : SiteRule} (ho : outer.anyPort = false)
    (hi : inner.anyPort = false) :
    inner.port = outer.port ↔ ∀ protocol, outer.portFor? protocol = inner.portFor? protocol := by
  have hnone : Protocol.defaultPort? [] = none := by decide
  constructor
  · intro h protocol
    simp only [portFor?, h]
  · intro h
    have h := h []
    rcases anyPort_eq_false ho with hp | ⟨n, hp⟩ <;> rcases anyPort_eq_false hi with hq | ⟨m, hq⟩
    · rw [hp, hq]
    · simp [portFor?, hp, hq, hnone] at h
    · simp [portFor?, hp, hq, hnone] at h
    · simp only [portFor?, hp, hq, Option.some.injEq] at h
      rw [hp, hq, h]

/-- The comparison of ports is exact for a rule that does not accept every port. -/
theorem SiteRule.pinsPortOf_iff {outer inner : SiteRule} (ho : outer.anyPort = false) :
    outer.pinsPortOf inner = true ↔ inner.anyPort = false ∧
      ∀ protocol, inner.protocols.accepts protocol = true →
        outer.portFor? protocol = inner.portFor? protocol := by
  rw [pinsPortOf, Bool.and_eq_true, Bool.not_eq_true']
  refine and_congr_right fun hi => ?_
  simp only [ProtocolRule.accepts_iff_names?]
  cases inner.protocols.names? with
  | none => simp [port_eq_iff ho hi]
  | some names => simp

/-! ## Rules in parts -/

theorem SiteRule.accepts_iff (rule : SiteRule) (url : Url) :
    rule.accepts url = true ↔
      rule.protocols.accepts url.protocol = true ∧ rule.hosts.accepts url.host = true ∧
        (rule.anyPort = true ∨ rule.portFor? url.protocol = url.port) ∧
        ∀ path, rule.path = some path → path = url.path := by
  cases hp : rule.path <;> simp [accepts, hp, and_assoc]

/-- A URL with the port and the path that a rule asks for. -/
def SiteRule.sample (rule : SiteRule) (protocol host : Text) : Url :=
  ⟨protocol, host, rule.portFor? protocol, rule.path.getD [], false⟩

theorem SiteRule.accepts_sample {rule : SiteRule} {protocol host : Text}
    (hp : rule.protocols.accepts protocol = true) (hh : rule.hosts.accepts host = true) :
    rule.accepts (rule.sample protocol host) = true :=
  (accepts_iff _ _).2 ⟨hp, hh, .inr rfl, fun path h => by simp [sample, h]⟩

/-- Every pattern applies to some URL. -/
theorem Pattern.exists_accepts (p : Pattern) : ∃ url, p.accepts url = true := by
  obtain ⟨protocol, hprotocol⟩ := p.rule.protocols.exists_accepts
  obtain ⟨host, hhost⟩ := p.rule.hosts.exists_accepts
  refine ⟨p.rule.sample protocol host, ?_⟩
  cases p with
  | everything => rfl
  | site rule => exact SiteRule.accepts_sample hprotocol hhost

/-- The comparison of rules is sound: what the inner one accepts the outer one accepts. -/
theorem SiteRule.accepts_of_covers {outer inner : SiteRule} (h : outer.covers inner = true)
    {url : Url} (hu : inner.accepts url = true) : outer.accepts url = true := by
  simp only [covers, Bool.and_eq_true] at h
  obtain ⟨⟨⟨hprotocols, hhosts⟩, hport⟩, hpath⟩ := h
  rw [accepts_iff] at hu ⊢
  obtain ⟨hup, huh, hport', hpath'⟩ := hu
  refine ⟨(ProtocolRule.covers_iff _ _).1 hprotocols _ hup,
    (HostRule.covers_iff _ _).1 hhosts _ huh, ?_, ?_⟩
  · cases ho : outer.anyPort with
    | true => exact .inl rfl
    | false =>
      obtain ⟨hi, hsame⟩ := (pinsPortOf_iff ho).1 (by simpa [ho] using hport)
      rw [hsame _ hup]
      exact .inr (hport'.resolve_left (by simp [hi]))
  · intro path hsome
    have hinner : inner.path = some path := by simpa [hsome, eq_comm] using hpath
    exact hpath' path hinner

/-- An outer rule that accepts what the inner one does asks for no other port. -/
theorem SiteRule.pinsPortOf_of_inclusion {outer inner : SiteRule} (ho : outer.anyPort = false)
    (h : ∀ url, inner.accepts url = true → outer.accepts url = true) :
    outer.pinsPortOf inner = true := by
  obtain ⟨host, hhost⟩ := inner.hosts.exists_accepts
  refine (pinsPortOf_iff ho).2 ⟨?_, fun protocol hp => ?_⟩
  · -- if every port were accepted inside, so would be one that is not the right one outside
    obtain ⟨protocol, hp⟩ := inner.protocols.exists_accepts
    rw [← Bool.not_eq_true]
    intro hi
    obtain ⟨port, hport⟩ : ∃ port, outer.portFor? protocol ≠ port := by
      cases outer.portFor? protocol with
      | none => exact ⟨some 0, by simp⟩
      | some n => exact ⟨none, by simp⟩
    have hu := h { inner.sample protocol host with port }
      ((accepts_iff _ _).2 ⟨hp, hhost, .inl hi, fun path hs => by simp [sample, hs]⟩)
    rcases ((accepts_iff _ _).1 hu).2.2.1 with hany | heq
    · simp [ho] at hany
    · exact hport heq
  · have hu := h _ (accepts_sample hp hhost)
    exact ((accepts_iff _ _).1 hu).2.2.1.resolve_left (by simp [ho])

/-- An outer rule that accepts what the inner one does asks for no other path. -/
theorem SiteRule.path_of_inclusion {outer inner : SiteRule} {path : Text}
    (ho : outer.path = some path)
    (h : ∀ url, inner.accepts url = true → outer.accepts url = true) :
    inner.path = some path := by
  obtain ⟨host, hhost⟩ := inner.hosts.exists_accepts
  obtain ⟨protocol, hp⟩ := inner.protocols.exists_accepts
  cases hi : inner.path with
  | none =>
    -- a longer path is accepted inside
    have hu := h { inner.sample protocol host with path := CodePoint.ofChar 'a' :: path }
      ((accepts_iff _ _).2 ⟨hp, hhost, .inr rfl, fun _ hs => by simp [hi] at hs⟩)
    have heq := ((accepts_iff _ _).1 hu).2.2.2 path ho
    simp at heq
  | some innerPath =>
    have hu := h _ (accepts_sample hp hhost)
    have heq := ((accepts_iff _ _).1 hu).2.2.2 path ho
    rw [heq]
    simp [sample, hi]

/-- The comparison of rules in parts is exact. -/
theorem SiteRule.covers_iff (outer inner : SiteRule) :
    outer.covers inner = true ↔
      ∀ url, inner.accepts url = true → outer.accepts url = true := by
  refine ⟨fun h url => accepts_of_covers h, fun h => ?_⟩
  simp only [covers, Bool.and_eq_true]
  refine ⟨⟨⟨?_, ?_⟩, ?_⟩, ?_⟩
  · obtain ⟨host, hhost⟩ := inner.hosts.exists_accepts
    refine (ProtocolRule.covers_iff _ _).2 fun protocol hp => ?_
    exact ((accepts_iff _ _).1 (h _ (accepts_sample hp hhost))).1
  · obtain ⟨protocol, hp⟩ := inner.protocols.exists_accepts
    refine (HostRule.covers_iff _ _).2 fun host hhost => ?_
    exact ((accepts_iff _ _).1 (h _ (accepts_sample hp hhost))).2.1
  · cases ho : outer.anyPort with
    | true => rfl
    | false => exact pinsPortOf_of_inclusion ho h
  · cases ho : outer.path with
    | none => rfl
    | some path => simp [path_of_inclusion ho h]

/-! ## Patterns -/

/-- A rule in parts that restricts nothing. -/
structure SiteRule.Unrestricted (rule : SiteRule) : Prop where
  protocols : rule.protocols = .any
  hosts : rule.hosts = .any
  port : rule.anyPort = true
  path : rule.path = none

theorem SiteRule.unrestricted_iff (rule : SiteRule) :
    rule.Unrestricted ↔ ∀ url, rule.accepts url = true := by
  constructor
  · intro h url
    simp [accepts, h.protocols, h.hosts, h.port, h.path, ProtocolRule.accepts, HostRule.accepts]
  · intro h
    -- such a rule covers the broadest one, part by part
    have hcovers := (covers_iff rule ⟨.any, .any, .wildcard, none⟩).2 fun url _ => h url
    simp only [covers, Bool.and_eq_true] at hcovers
    obtain ⟨⟨⟨hprotocols, hhosts⟩, hport⟩, hpath⟩ := hcovers
    refine ⟨?_, ?_, by simpa [pinsPortOf, anyPort] using hport, by simpa using hpath⟩
    · cases hp : rule.protocols with
      | any => rfl
      | httpOrHttps | only name => simp [hp, ProtocolRule.covers, ProtocolRule.names?] at hprotocols
    · cases hh : rule.hosts with
      | any => rfl
      | within domain | exactly host => simp [hh, HostRule.covers] at hhosts

/-- One pattern covers another one exactly when every URL to which the inner pattern applies is one
to which the outer pattern applies, save that no rule in parts covers `*`, not even one that
restricts nothing. -/
theorem Pattern.covers_iff_inclusion (outer inner : Pattern) :
    outer.covers inner = true ↔
      (∀ url, inner.accepts url = true → outer.accepts url = true) ∧
        ¬(inner = .everything ∧ ∃ rule, outer = .site rule ∧ rule.Unrestricted) := by
  cases outer with
  | everything => simp [covers, accepts]
  | site outer =>
    cases inner with
    | everything => simp [covers, accepts, ← SiteRule.unrestricted_iff]
    | site inner => simp [covers, accepts, SiteRule.covers_iff]

/-- The two spellings of a rule that restricts nothing apply to all URLs and do not cover `*`. -/
example : (Pattern.site ⟨.any, .any, .omitted, none⟩).covers .everything = false ∧
    (Pattern.site ⟨.any, .any, .wildcard, none⟩).covers .everything = false := ⟨rfl, rfl⟩

/-- For a pattern that is no narrower than the other one, coverage is inclusion without exception,
because `*` is the least specific of all. -/
theorem Pattern.covers_iff_of_le {outer inner : Pattern}
    (h : outer.specificity ≤ inner.specificity) :
    outer.covers inner = true ↔
      ∀ url, inner.accepts url = true → outer.accepts url = true := by
  cases outer with
  | everything => simp [covers, accepts]
  | site outer =>
    cases inner with
    | everything =>
      have hweight : (site outer).specificity.weight ≤ Pattern.everything.specificity.weight := h
      simp only [specificity, Specificity.weight] at hweight
      omega
    | site inner => simp [covers, accepts, SiteRule.covers_iff]

theorem Pattern.covers_refl (p : Pattern) : p.covers p = true := by
  cases p with
  | everything => rfl
  | site rule => exact (SiteRule.covers_iff rule rule).2 fun _ => id

/-- The exception is no obstacle, because only `*` covers `*`. -/
theorem Pattern.covers_trans {p q r : Pattern} (hpq : p.covers q = true)
    (hqr : q.covers r = true) : p.covers r = true := by
  cases p with
  | everything => rfl
  | site outer =>
    cases q with
    | everything => cases hpq
    | site middle =>
      cases r with
      | everything => cases hqr
      | site inner =>
        have houter := (SiteRule.covers_iff outer middle).1 hpq
        have hmiddle := (SiteRule.covers_iff middle inner).1 hqr
        exact (SiteRule.covers_iff outer inner).2 fun url hurl => houter url (hmiddle url hurl)

/-! ## Patterns that leave nothing open -/

/-- Patterns do not ask whether a URL names its port. -/
theorem Pattern.accepts_congr (p : Pattern) {u v : Url} (hprotocol : u.protocol = v.protocol)
    (hhost : u.host = v.host) (hport : u.port = v.port) (hpath : u.path = v.path) :
    p.accepts u = p.accepts v := by
  cases p with
  | everything => rfl
  | site rule => simp only [accepts, SiteRule.accepts, hprotocol, hhost, hport, hpath]

/-- The rule for one protocol, one host, one numbered port and one path. -/
def SiteRule.pinned (protocol host : Text) (port : Nat) (path : Text) : SiteRule :=
  ⟨.only protocol, .exactly host, .number port, some path⟩

theorem SiteRule.pinned_accepts_iff {protocol host path : Text} {port : Nat} {url : Url} :
    (pinned protocol host port path).accepts url = true ↔
      url.protocol = protocol ∧ url.host = host ∧ url.port = some port ∧ url.path = path := by
  rw [accepts_iff]
  simp [pinned, ProtocolRule.accepts, HostRule.accepts, anyPort, portFor?, eq_comm]

/-- No pattern is more specific than one that leaves nothing open. -/
theorem Pattern.specificity_le_pinned (p : Pattern) (protocol host : Text) (port : Nat)
    (path : Text) :
    p.specificity ≤ (Pattern.site (.pinned protocol host port path)).specificity :=
  p.specificity.weight_le

/-- Covering a pattern that leaves nothing open is the same as applying to its URL. -/
theorem Pattern.covers_pinned (p : Pattern) {protocol host path : Text} {port : Nat} {url : Url}
    (h : (SiteRule.pinned protocol host port path).accepts url = true) :
    p.covers (.site (.pinned protocol host port path)) = p.accepts url := by
  rw [Bool.eq_iff_iff, covers_iff_of_le (specificity_le_pinned p protocol host port path)]
  constructor
  · intro hall
    exact hall url h
  · intro hp v hv
    obtain ⟨hprotocol, hhost, hport, hpath⟩ := SiteRule.pinned_accepts_iff.1 h
    obtain ⟨hprotocol', hhost', hport', hpath'⟩ := SiteRule.pinned_accepts_iff.1 hv
    rw [p.accepts_congr (hprotocol'.trans hprotocol.symm) (hhost'.trans hhost.symm)
      (hport'.trans hport.symm) (hpath'.trans hpath.symm)]
    exact hp

end SiteRules
