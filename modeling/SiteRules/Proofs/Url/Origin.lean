import SiteRules.Proofs.Pattern.Coverage
import SiteRules.Proofs.Url.Parser

/-!
# Origins as patterns

The origin of a URL is meant as a pattern for its site (`Url.HasFittingOrigin`). It is one exactly
when a pattern can name the host of the URL (`hasFittingOrigin_iff`). URLs have other hosts too, and
the origin of such a URL is no pattern, or one for other hosts (`not_hasFittingOrigin`).
-/

namespace SiteRules.Url

open RawPattern (IsProtocol IsHost IsPort bracket portText separator)

/-- The origin of a URL is a pattern for its site: it stands for one protocol, one host and every
path, it applies to the URL, and it is its own origin. -/
structure HasFittingOrigin (url : Url) : Prop where
  reads : ∃ protocol host port,
    Pattern.parse? url.origin = some (.site ⟨.only protocol, .exactly host, port, none⟩)
  applies : ∃ p, Pattern.parse? url.origin = some p ∧ p.accepts url = true
  again : (parse? url.origin).map origin = some url.origin

/-! ## The parts of an origin -/

/-- The port that the origin of a URL names: the one of the URL, when the URL names it and it is not
the default one. -/
def namedPort (url : Url) : Option Nat :=
  if url.explicitPort && url.port ≠ Protocol.defaultPort? url.protocol then url.port else none

/-- The origin of a URL, as the parts of a pattern. -/
def originParts (url : Url) : RawPattern :=
  ⟨url.protocol, url.spelledHost, url.namedPort.map Text.ofNat, none⟩

theorem origin_eq_text (url : Url) : url.origin = url.originParts.text := by
  have hempty : ∀ t : Text, t ++ [] = t := List.append_nil
  rw [origin, originParts, namedPort, RawPattern.text, Option.getD_none, hempty]
  cases url.port with
  | none =>
    rw [ite_self]
    show _ = _ ++ (_ ++ (_ ++ []))
    rw [hempty, List.append_assoc]
    rfl
  | some n =>
    dsimp only
    split
    · rw [List.append_assoc, List.append_assoc]
      rfl
    · show _ = _ ++ (_ ++ (_ ++ []))
      rw [hempty, List.append_assoc]
      rfl

theorem isProtocolPart_of_isSchemePart {c : CodePoint} (h : isSchemePart c = true) :
    c.isProtocolPart = true :=
  CodePoint.forall_basicLatin (P := fun c => isSchemePart c = true → c.isProtocolPart = true)
    (by decide) (val_lt_of_isSchemePart h) h

/-- A kind of code points that has none of the three that end an authority. -/
theorem endsAuthority_of_kind {p : CodePoint → Bool} (hslash : p '/' = false)
    (hquestion : p '?' = false) (hnumber : p '#' = false) {c : CodePoint} (h : p c = true) :
    endsAuthority c = false := by
  rw [← Bool.not_eq_true]
  intro hends
  simp only [endsAuthority, Bool.or_eq_true, decide_eq_true_eq] at hends
  rcases hends with (rfl | rfl) | rfl
  · rw [h] at hslash
    cases hslash
  · rw [h] at hquestion
    cases hquestion
  · rw [h] at hnumber
    cases hnumber

/-- The host of a URL is spelled without brackets when it is made of host code points, and between
brackets when it has a colon. -/
theorem spelledHost_cases {url : Url} (h : HostRule.IsName url.host) :
    (url.spelledHost = url.host ∧ ∀ c ∈ url.host, c.isHostPart = true) ∨
      (url.spelledHost = bracket url.host ∧ CodePoint.ofChar ':' ∈ url.host ∧
        ∀ c ∈ url.host, c.isBracketedPart = true) := by
  rw [spelledHost]
  split
  · next hcolon =>
    have hmem := Text.any_eq_true_iff.1 hcolon
    rcases h with hrun | hparts
    · exact absurd (hrun _ hmem) (by decide)
    · exact .inr ⟨rfl, hmem, hparts⟩
  · next hcolon =>
    refine .inl ⟨rfl, ?_⟩
    rcases h with hrun | hparts
    · exact hrun
    · -- without a colon, the digits and marks of an address are host code points
      intro c hc
      have hne : c ≠ CodePoint.ofChar ':' := by
        rintro rfl
        exact hcolon (Text.any_eq_true_iff.2 hc)
      have hle := CodePoint.val_le_of_isBracketedPart (hparts c hc)
      have hpart : c.isBracketedPart = true → c ≠ CodePoint.ofChar ':' → c.isHostPart = true :=
        CodePoint.forall_basicLatin
          (P := fun c => c.isBracketedPart = true → c ≠ CodePoint.ofChar ':' →
            c.isHostPart = true) (by decide) (by omega)
      exact hpart (hparts c hc) hne

section Fitting

variable {url : Url}

theorem WellFormed.namedPort_le (h : url.WellFormed) {n : Nat} (hn : url.namedPort = some n) :
    n ≤ 65535 := by
  rw [namedPort] at hn
  split at hn
  · exact h.port_le n hn
  · cases hn

theorem WellFormed.length_namedPort_le (h : url.WellFormed) {n : Nat}
    (hn : url.namedPort = some n) : (Text.ofNat n).length ≤ 5 :=
  Text.length_ofNat_le (by decide) (Nat.lt_of_le_of_lt (h.namedPort_le hn) (by decide))

/-- The parts of the origin are spelled as the parts of a pattern have to be. -/
theorem WellFormed.isSpelled (h : url.WellFormed) (hname : HostRule.IsName url.host) :
    url.originParts.IsSpelled where
  protocol := by
    obtain ⟨c, hc, hletter⟩ := h.protocol.head
    obtain ⟨rest, hrest⟩ := List.head?_eq_some_iff.1 hc
    refine .inr ⟨c, rest, ?_, fun d hd => ?_, .inl hrest⟩
    · simp only [CodePoint.isProtocolLetter, hletter, Bool.true_or]
    · exact isProtocolPart_of_isSchemePart
        (h.protocol.parts d (hrest ▸ List.mem_cons_of_mem _ hd))
  host := by
    show IsHost url.spelledHost
    rcases spelledHost_cases hname with ⟨heq, hrun⟩ | ⟨heq, -, hparts⟩
    · rw [heq]
      exact .run ⟨h.host_ne, hrun⟩
    · rw [heq]
      exact .bracketed h.host_ne hparts
  port := by
    intro t ht
    obtain ⟨n, hn, rfl⟩ := Option.map_eq_some_iff.1 ht
    refine .inr ⟨List.length_pos_iff.2 (Text.ofNat_ne_nil n), h.length_namedPort_le hn,
      fun c hc => ?_⟩
    exact CodePoint.isDigit_of_isBasicDigit (Text.isBasicDigit_of_mem_ofNat hc)
  path := fun _ ht => by cases ht

/-- No blank stands in the origin. -/
theorem WellFormed.isBlank_of_mem_origin (h : url.WellFormed) (hname : HostRule.IsName url.host)
    {c : CodePoint} (hc : c ∈ url.origin) : c.isBlank = false := by
  rw [← Bool.not_eq_true]
  intro hblank
  rw [origin_eq_text] at hc
  have hpath := (h.isSpelled hname).isBlank c hc hblank
  cases hpath

theorem WellFormed.trim_origin (h : url.WellFormed) (hname : HostRule.IsName url.host) :
    url.origin.trim = url.origin :=
  Text.trim_of_no_blank fun _ hc => h.isBlank_of_mem_origin hname hc

/-! ## The origin as a pattern -/

/-- The port of a rule for the port that an origin names. -/
def portRule : Option Nat → PortRule
  | none => .omitted
  | some n => .number n

/-- A scheme in lower case is a protocol by itself: it has none of the marks of a choice. -/
theorem readProtocol_of_isScheme {name : Text} (h : IsScheme name) :
    RawPattern.readProtocol name = .ok (.only name) := by
  have hasterisk : CodePoint.ofChar '*' ∉ name := Text.notMem_of_kind h.parts (by decide)
  have hquestion : CodePoint.ofChar '?' ∉ name := Text.notMem_of_kind h.parts (by decide)
  have hstar : name ≠ RawPattern.star := by
    intro heq
    rw [heq] at hasterisk
    exact hasterisk (by decide)
  have hhttp : ¬(name = Protocol.http ++ [CodePoint.ofChar '?'] ∨
      name = Protocol.https ++ [CodePoint.ofChar '?']) := by
    rintro (heq | heq)
    · rw [heq] at hquestion
      exact hquestion (by decide)
    · rw [heq] at hquestion
      exact hquestion (by decide)
  have hlast : name.getLast? ≠ some (CodePoint.ofChar '?') := fun heq =>
    hquestion (List.mem_of_mem_getLast? heq)
  rw [RawPattern.readProtocol, if_neg hstar, if_neg hhttp, if_neg hlast]

theorem WellFormed.readProtocol_eq (h : url.WellFormed) :
    RawPattern.readProtocol url.protocol.lower = .ok (.only url.protocol) := by
  rw [Text.lower_eq_self h.protocol_lower]
  exact readProtocol_of_isScheme h.protocol

theorem WellFormed.readHost_eq (h : url.WellFormed) (hname : HostRule.IsName url.host) :
    RawPattern.readHost url.spelledHost.lower = .ok (.exactly url.host) := by
  rcases spelledHost_cases hname with ⟨heq, hrun⟩ | ⟨heq, -, hparts⟩
  · rw [heq, Text.lower_eq_self h.host_lower]
    exact RawPattern.readHost_run ⟨h.host_ne, hrun⟩
  · have hsmall : url.host.map CodePoint.small = url.host := by
      rw [← Text.lower_eq_map_small fun c hc => ?_, Text.lower_eq_self h.host_lower]
      have hle := CodePoint.val_le_of_isBracketedPart (hparts c hc)
      omega
    rw [heq, RawPattern.lower_bracket hparts, hsmall]
    exact RawPattern.readHost_bracket url.host

theorem WellFormed.readPort_eq (h : url.WellFormed) :
    RawPattern.readPort (url.namedPort.map Text.ofNat) = .ok (portRule url.namedPort) := by
  cases hport : url.namedPort with
  | none => rfl
  | some n =>
    have hasterisk : CodePoint.ofChar '*' ∉ Text.ofNat n :=
      Text.notMem_of_kind (fun _ hc => Text.isBasicDigit_of_mem_ofNat hc) (by decide)
    have hstar : Text.ofNat n ≠ RawPattern.star := by
      intro heq
      rw [heq] at hasterisk
      exact hasterisk (by decide)
    have hle := h.namedPort_le hport
    rw [Option.map_some, RawPattern.readPort, if_neg hstar, Text.decimal_ofNat,
      if_neg (Nat.not_lt.2 hle)]
    rfl

end Fitting

/-- The rule for the site of a URL: its protocol, its host and the port that its origin names. -/
def siteRule (url : Url) : SiteRule :=
  ⟨.only url.protocol, .exactly url.host, portRule url.namedPort, none⟩

/-- A URL belongs to its own site. -/
theorem siteRule_accepts (url : Url) : url.siteRule.accepts url = true := by
  refine (SiteRule.accepts_iff _ _).2 ⟨decide_eq_true rfl, decide_eq_true rfl, ?_,
    fun _ h => by cases h⟩
  rw [siteRule, namedPort]
  split
  · cases url.port with
    | none => exact .inl rfl
    | some n => exact .inr rfl
  · exact .inl rfl

/-- The origin of a URL whose host can be named is a pattern for its site. -/
theorem WellFormed.parse?_origin {url : Url} (h : url.WellFormed)
    (hname : HostRule.IsName url.host) :
    Pattern.parse? url.origin = some (.site url.siteRule) := by
  refine Pattern.parse?_eq_some_iff.2 (.inr ⟨url.originParts, h.isSpelled hname, ?_, ?_⟩)
  · rw [h.trim_origin hname, origin_eq_text]
  · exact Pattern.read_eq_some_iff.2 ⟨_, _, _, h.readProtocol_eq, h.readHost_eq hname,
      h.readPort_eq, rfl⟩

/-! ## The origin as a URL -/

/-- What stands between the separator and the end of the origin. -/
def originAuthority (url : Url) : Text :=
  url.spelledHost ++ portText (url.namedPort.map Text.ofNat)

theorem origin_eq_append (url : Url) :
    url.origin = url.protocol ++ Text.ofChars [':', '/', '/'] ++ url.originAuthority ++ [] := by
  rw [origin_eq_text, RawPattern.text, List.append_nil, List.append_assoc]
  show _ ++ (_ ++ (_ ++ (_ ++ []))) = _
  rw [List.append_nil]
  rfl

/-- The site of a URL: the URL that its origin spells. -/
def site (url : Url) : Url where
  protocol := url.protocol
  host := url.host
  port := url.namedPort.orElse fun _ => Protocol.defaultPort? url.protocol
  path := []
  explicitPort := url.namedPort.isSome

theorem portText_cases {url : Url} {c : CodePoint}
    (h : c ∈ portText (url.namedPort.map Text.ofNat)) :
    c = CodePoint.ofChar ':' ∨ c.isBasicDigit = true := by
  rcases RawPattern.mem_portText h with heq | ⟨t, ht, hc⟩
  · exact .inl heq
  · obtain ⟨n, -, rfl⟩ := Option.map_eq_some_iff.1 ht
    exact .inr (Text.isBasicDigit_of_mem_ofNat hc)

theorem notMem_portText {url : Url} {mark : CodePoint} (hcolon : mark ≠ CodePoint.ofChar ':')
    (hdigit : mark.isBasicDigit = false) : mark ∉ portText (url.namedPort.map Text.ofNat) := by
  intro hmem
  rcases portText_cases hmem with heq | hbasic
  · exact hcolon heq
  · exact CodePoint.ne_of_kind hbasic hdigit rfl

theorem partition_portText {host : Text} (digits : Option Text)
    (hcolon : CodePoint.ofChar ':' ∉ host) :
    partition ':' (host ++ portText digits) = (host, digits.getD []) := by
  cases digits with
  | none =>
    rw [portText, List.append_nil]
    exact partition_eq_self hcolon
  | some t => exact partition_eq_of_cut? (Text.cut?_append hcolon t)

section Reading

variable {url : Url}

/-- The authority of an origin passes the check, and its host is the one of the URL. -/
theorem WellFormed.ofAuthority (h : url.WellFormed) (hname : HostRule.IsName url.host) :
    checkBrackets url.originAuthority = .ok () ∧ HostPort.ofAuthority url.originAuthority =
      ⟨url.host, (url.namedPort.map Text.ofNat).getD []⟩ := by
  have huser : CodePoint.ofChar '@' ∉ url.host := fun hmem => (h.host_counts _ hmem).1 rfl
  have huserPort : CodePoint.ofChar '@' ∉ portText (url.namedPort.map Text.ofNat) :=
    notMem_portText (by decide) (by decide)
  rw [originAuthority]
  rcases spelledHost_cases hname with ⟨heq, hrun⟩ | ⟨heq, hcolon, hparts⟩
  · have hall : ∀ mark : CodePoint, mark ∉ url.host → mark ≠ CodePoint.ofChar ':' →
        mark.isBasicDigit = false → mark ∉ url.host ++ portText (url.namedPort.map Text.ofNat) :=
      fun mark hhost hcolon hdigit hmem =>
        (List.mem_append.1 hmem).elim hhost (notMem_portText hcolon hdigit)
    rw [heq]
    have hread := ofAuthority_of_no_brackets
      (hall _ huser (by decide) (by decide))
      (hall (CodePoint.ofChar '[') (Text.notMem_of_kind hrun (by decide)) (by decide) (by decide))
      (hall (CodePoint.ofChar ']') (Text.notMem_of_kind hrun (by decide)) (by decide) (by decide))
    rw [partition_portText _ (Text.notMem_of_kind hrun (by decide))] at hread
    exact hread
  · rw [heq]
    have huserAll : CodePoint.ofChar '@' ∉ bracket url.host ++
        portText (url.namedPort.map Text.ofNat) := by
      rw [bracket, List.cons_append, List.append_assoc, List.mem_cons, List.mem_append,
        List.mem_append, List.mem_singleton]
      rintro (heq | hmem | heq | hmem)
      · exact absurd heq (by decide)
      · exact huser hmem
      · exact absurd heq (by decide)
      · exact huserPort hmem
    have hhead : ∀ c ∈ (portText (url.namedPort.map Text.ofNat)).head?,
        c = CodePoint.ofChar ':' := by
      cases url.namedPort with
      | none => exact fun _ hc => by cases hc
      | some n => exact fun _ hc => by cases hc; rfl
    have hclose : CodePoint.ofChar ']' ∉ url.host := Text.notMem_of_kind hparts (by decide)
    have hread := ofAuthority_bracket huserAll hclose hhead
    have hport := partition_portText (url.namedPort.map Text.ofNat)
      (List.not_mem_nil (a := CodePoint.ofChar ':'))
    rw [List.nil_append] at hport
    have haddress := h.host_address hcolon hparts
    rw [checkBracketedHost_of_isVersion6 hparts hcolon haddress, hport] at hread
    exact hread

theorem WellFormed.readPort_digits (h : url.WellFormed) :
    readPort ((url.namedPort.map Text.ofNat).getD []) = .ok url.namedPort := by
  cases hport : url.namedPort with
  | none => rfl
  | some n => exact readPort_ofNat (h.namedPort_le hport)

/-- What stands in the authority of an origin does not end it, counts, and hides no separator. -/
theorem WellFormed.of_mem_originAuthority (h : url.WellFormed) (hname : HostRule.IsName url.host)
    {c : CodePoint} (hc : c ∈ url.originAuthority) :
    endsAuthority c = false ∧ isIgnored c = false ∧ c.hidesSeparator = false := by
  -- what does not count is blank, and no blank stands in the origin
  have hcounts : isIgnored c = false := by
    have horigin : c ∈ url.origin := by
      rw [origin_eq_append, List.append_nil]
      exact List.mem_append_right _ hc
    exact isIgnored_eq_false_of_not_blank (h.isBlank_of_mem_origin hname horigin)
  suffices hends : endsAuthority c = false ∧ c.hidesSeparator = false from
    ⟨hends.1, hcounts, hends.2⟩
  rcases List.mem_append.1 hc with hhost | hport
  · rcases spelledHost_cases hname with ⟨heq, hrun⟩ | ⟨heq, -, hparts⟩
    · rw [heq] at hhost
      exact ⟨endsAuthority_of_kind (p := CodePoint.isHostPart) rfl rfl rfl (hrun c hhost),
        (h.host_counts c hhost).2⟩
    · rw [heq, bracket, List.mem_cons, List.mem_append, List.mem_singleton] at hhost
      rcases hhost with rfl | hpart | rfl
      · decide
      · exact ⟨endsAuthority_of_kind (p := CodePoint.isBracketedPart) rfl rfl rfl (hparts c hpart),
          (h.host_counts c hpart).2⟩
      · decide
  · rcases portText_cases hport with rfl | hdigit
    · decide
    · exact ⟨endsAuthority_of_kind (p := CodePoint.isBasicDigit) rfl rfl rfl hdigit,
        hidesSeparator_of_basicLatin (CodePoint.val_lt_of_isBasicDigit hdigit)⟩

/-- The origin of a URL whose host can be named is a URL, the site of the URL. -/
theorem WellFormed.parseUrl?_origin (h : url.WellFormed) (hname : HostRule.IsName url.host) :
    parse? url.origin = some url.site := by
  obtain ⟨hbrackets, hread⟩ := h.ofAuthority hname
  have hsplit : Split.ofText url.origin = ⟨url.protocol, url.originAuthority⟩ := by
    rw [origin_eq_append, Split.ofText_append h.protocol
      (fun c hc => ⟨(h.of_mem_originAuthority hname hc).1, (h.of_mem_originAuthority hname hc).2.1⟩)
      (fun _ hc => by cases hc), Text.lower_eq_self h.protocol_lower]
  have hopening : (⟨url.protocol, url.originAuthority⟩ : Split).opening = url.origin := by
    rw [origin_eq_append, List.append_nil]
    rfl
  refine parse?_eq_some_iff.2 ⟨url.namedPort, ?_⟩
  rw [h.trim_origin hname, hsplit]
  constructor
  · constructor
    case brackets => exact hbrackets
    case compatible =>
      rw [List.any_eq_false]
      intro c hc
      rw [(h.of_mem_originAuthority hname hc).2.2]
      exact Bool.false_ne_true
    case port_eq =>
      rw [hread]
      exact h.readPort_digits
    case scheme_ne =>
      intro hnil
      obtain ⟨c, hc, -⟩ := h.protocol.head
      rw [show url.protocol = [] from hnil] at hc
      cases hc
    case authority_ne =>
      -- an empty authority has no host
      intro hnil
      rw [show url.originAuthority = [] from hnil] at hread
      exact h.host_ne (congrArg HostPort.host hread).symm
    case host_ne =>
      rw [hread]
      exact h.host_ne
    case verbatim =>
      rw [hopening]
      exact List.isPrefixOf_iff_prefix.2 (List.prefix_refl _)
  · rw [Split.url, hopening, hread, Text.lower_eq_self h.protocol_lower,
      lowerHost_eq_self h.host_lower, List.drop_length]
    rfl

end Reading

/-- The origin of a site is the origin that it was made from. -/
theorem origin_site (url : Url) : url.site.origin = url.origin := by
  have hport : url.site.namedPort = url.namedPort := by
    cases hnamed : url.namedPort with
    | none =>
      rw [namedPort, site, hnamed]
      rfl
    | some n =>
      have hdefault : some n ≠ Protocol.defaultPort? url.protocol := by
        rw [namedPort] at hnamed
        split at hnamed
        · next hcond =>
          rw [Bool.and_eq_true, decide_eq_true_eq, hnamed] at hcond
          exact hcond.2
        · cases hnamed
      rw [namedPort, site, hnamed]
      exact if_pos (decide_eq_true hdefault)
  have hparts : url.site.originParts = url.originParts := by
    rw [originParts, originParts, hport]
    rfl
  rw [origin_eq_text, origin_eq_text, hparts]

/-! ## When an origin fits -/

/-- The origin of a URL is a pattern for its site exactly when a pattern can name its host. -/
theorem hasFittingOrigin_iff {source : Text} {url : Url} (h : parse? source = some url) :
    url.HasFittingOrigin ↔ HostRule.IsName url.host := by
  have hwf := wellFormed_of_parse? h
  constructor
  · intro hfits
    obtain ⟨protocol, host, port, hreads⟩ := hfits.reads
    obtain ⟨p, hp, haccepts⟩ := hfits.applies
    -- the host that the origin names is the host of the URL
    obtain rfl := Option.some.inj (hp.symm.trans hreads)
    have hhost := ((SiteRule.accepts_iff _ _).1 haccepts).2.1
    rw [of_decide_eq_true hhost]
    exact Pattern.isName_of_parse? hreads
  · intro hname
    have hreads := hwf.parse?_origin hname
    refine ⟨⟨_, _, _, hreads⟩, ⟨_, hreads, url.siteRule_accepts⟩, ?_⟩
    rw [hwf.parseUrl?_origin hname, Option.map_some, origin_site]

/-- A URL whose host is an address in brackets. -/
def addressed : Url :=
  ⟨Protocol.http, Text.ofString "fe80::1", some 8080, Text.ofString "/a?q", true⟩

/-- The origin of an address keeps its brackets and its port, and fits. -/
theorem hasFittingOrigin_addressed :
    parse? (Text.ofString "HTTP://me@[FE80::1]:8080/a?q") = some addressed ∧
      addressed.HasFittingOrigin ∧ addressed.origin = Text.ofString "http://[fe80::1]:8080" := by
  have hparsed : parse? (Text.ofString "HTTP://me@[FE80::1]:8080/a?q") = some addressed := by
    decide +kernel
  have hname : HostRule.IsName addressed.host := .inr (by decide)
  exact ⟨hparsed, (hasFittingOrigin_iff hparsed).2 hname, by decide⟩

/-- An address with a zone has an origin that is no pattern, the host `*` one that is a pattern for
every host, and a host that ends in a blank one that is a pattern for another host. -/
theorem not_hasFittingOrigin :
    (∃ url, parse? (Text.ofString "http://[fe80::1%25eth0]/") = some url ∧
      ¬url.HasFittingOrigin ∧ Pattern.parse? url.origin = none) ∧
    (∃ url, parse? (Text.ofString "http://*/x") = some url ∧
      ¬url.HasFittingOrigin ∧ Pattern.parse? url.origin =
        some (.site ⟨.only Protocol.http, .any, .omitted, none⟩)) ∧
    ∃ url, parse? (Text.ofString "http://a\u00a0/x") = some url ∧
      ¬url.HasFittingOrigin ∧ Pattern.parse? url.origin =
        some (.site ⟨.only Protocol.http, .exactly (Text.ofString "a"), .omitted, none⟩) := by
  refine ⟨⟨_, rfl, fun hfits => ?_, rfl⟩, ⟨_, rfl, fun hfits => ?_, rfl⟩,
    ⟨_, rfl, fun hfits => ?_, rfl⟩⟩
  · obtain ⟨_, _, _, hreads⟩ := hfits.reads
    cases hreads
  · obtain ⟨_, _, _, hreads⟩ := hfits.reads
    cases hreads
  · obtain ⟨p, hp, haccepts⟩ := hfits.applies
    cases hp
    cases haccepts

end SiteRules.Url
