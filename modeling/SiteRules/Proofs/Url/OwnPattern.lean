import SiteRules.Proofs.Pattern.Coverage
import SiteRules.Proofs.Pattern.Grammar
import SiteRules.Proofs.Url.Origin

/-!
# URLs as patterns for themselves

A text can be read both as a URL and as a pattern. Both readers cut it at the same places
(`Split.ofText_spelled`, `ofAuthority_spelled`), put protocol and host into lower case alike
(`lowerHost_eq_lower`) and read the same port (`readPort_spelled`). They differ in one respect: a
URL may name a user in front of its host, which a pattern takes for a part of the host. So the
pattern applies to the URL exactly when no user is named (`accepts_self_iff`).
-/

namespace SiteRules.RawPattern

/-! ## Parts of a pattern -/

theorem IsProtocol.head_gt {t : Text} (h : IsProtocol t) : ∃ c ∈ t.head?, 0x20 < c.val := by
  rcases h with rfl | ⟨c, rest, hletter, -, hname⟩
  · exact ⟨_, rfl, by decide⟩
  · refine ⟨c, by rcases hname with rfl | rfl <;> rfl, ?_⟩
    simp only [CodePoint.isProtocolLetter, Bool.or_eq_true, decide_eq_true_eq,
      CodePoint.isBasicLetter_iff] at hletter
    omega

theorem IsProtocol.colon_notMem {t : Text} (h : IsProtocol t) : CodePoint.ofChar ':' ∉ t := by
  intro hmem
  rcases h with rfl | ⟨c, rest, hletter, hrest, hname⟩
  · exact absurd hmem (by decide)
  · have hpart : ∀ d ∈ c :: rest, d.isProtocolPart = true := by
      refine List.forall_mem_cons.2 ⟨?_, hrest⟩
      rw [CodePoint.isProtocolPart, hletter]
      rfl
    have hcolon := Text.notMem_of_kind hpart (show (CodePoint.ofChar ':').isProtocolPart = false by
      decide)
    rcases hname with rfl | rfl
    · exact hcolon hmem
    · rcases List.mem_append.1 hmem with hname | hmark
      · exact hcolon hname
      · exact absurd (List.mem_singleton.1 hmark) (by decide)

theorem IsPort.portText_cases {port : Option Text} (h : ∀ t ∈ port, IsPort t) {c : CodePoint}
    (hc : c ∈ portText port) :
    c = CodePoint.ofChar ':' ∨ c = CodePoint.ofChar '*' ∨ c.isDigit = true := by
  rcases mem_portText hc with heq | ⟨t, ht, hc⟩
  · exact .inl heq
  · rcases h t ht with rfl | ⟨-, -, hdigits⟩
    · exact .inr (.inl (List.mem_singleton.1 hc))
    · exact .inr (.inr (hdigits c hc))

/-- The marks of a port are none of an authority but its colon. -/
theorem IsPort.notMem_portText {port : Option Text} (h : ∀ t ∈ port, IsPort t) {mark : CodePoint}
    (hcolon : mark ≠ CodePoint.ofChar ':') (hstar : mark ≠ CodePoint.ofChar '*')
    (hdigit : mark.isDigit = false) : mark ∉ portText port := by
  intro hmem
  rcases IsPort.portText_cases h hmem with heq | heq | hd
  · exact hcolon heq
  · exact hstar heq
  · exact CodePoint.ne_of_kind hd hdigit rfl

theorem IsPort.user_notMem_portText {port : Option Text} (h : ∀ t ∈ port, IsPort t) :
    CodePoint.ofChar '@' ∉ portText port :=
  IsPort.notMem_portText h (by decide) (by decide) (by decide)

end SiteRules.RawPattern

namespace SiteRules.Url

open RawPattern (IsProtocol IsHost IsPort IsPath IsSpelled bracket portText readHost separator)

/-! ## Hosts in lower case -/

/-- The zone of a host is put into lower case by itself, and so is it as a part of the whole. -/
theorem lowerHost_eq_lower (host : Text) : lowerHost host = host.lower := by
  have hcased : (CodePoint.ofChar '%').isCased = false := by decide +kernel
  have hignored : (CodePoint.ofChar '%').isCaseIgnorable = false := by decide +kernel
  unfold lowerHost
  split
  · exact Text.lower_lower host
  · next name zone hcut =>
    obtain ⟨rfl, -⟩ := Text.cut?_eq_some_iff.1 hcut
    rw [Text.lower_append_mark hcased hignored, Text.lower_append_mark hcased hignored,
      Text.lower_lower]

/-! ## Where the text is cut -/

/-- What stands in the host or in the port of a pattern does not end the authority of a URL. -/
theorem endsAuthority_of_mem_host {t : Text} (h : IsHost t) :
    ∀ c ∈ t, endsAuthority c = false := by
  have hrun : ∀ run : Text, RawPattern.IsRun run → ∀ c ∈ run, endsAuthority c = false :=
    fun run hrun c hc => endsAuthority_of_kind (p := CodePoint.isHostPart) rfl rfl rfl (hrun.2 c hc)
  cases h with
  | star => decide
  | run h => exact hrun _ h
  | within h =>
    refine List.forall_mem_cons.2 ⟨by decide, List.forall_mem_cons.2 ⟨by decide, hrun _ h⟩⟩
  | bracketed _ hparts =>
    intro c hc
    rw [bracket, List.mem_cons, List.mem_append, List.mem_singleton] at hc
    rcases hc with rfl | hpart | rfl
    · decide
    · exact endsAuthority_of_kind (p := CodePoint.isBracketedPart) rfl rfl rfl (hparts c hpart)
    · decide

/-- Host and port of a pattern could be an authority. -/
theorem counts_of_isSpelled {raw : RawPattern} (h : raw.IsSpelled) :
    ∀ c ∈ raw.host ++ portText raw.port, endsAuthority c = false ∧ isIgnored c = false := by
  intro c hc
  rcases List.mem_append.1 hc with hhost | hport
  · exact ⟨endsAuthority_of_mem_host h.host c hhost,
      isIgnored_eq_false_of_not_blank (h.host.isBlank c hhost)⟩
  · rcases IsPort.portText_cases h.port hport with rfl | rfl | hdigit
    · decide
    · decide
    · exact ⟨endsAuthority_of_kind (p := CodePoint.isDigit) rfl rfl rfl hdigit,
        isIgnored_eq_false_of_not_blank (CodePoint.isBlank_of_isDigit hdigit)⟩

/-- A text that is put together from the parts of a pattern, and that has a scheme as a URL, is
split in front of its host and behind its port. -/
theorem Split.ofText_spelled {raw : RawPattern} (h : raw.IsSpelled)
    (hscheme : (Split.ofText raw.text).scheme ≠ []) :
    IsScheme raw.protocol ∧
      Split.ofText raw.text = ⟨raw.protocol.lower, raw.host ++ portText raw.port⟩ := by
  have htext : raw.text = raw.protocol ++ Text.ofChars [':', '/', '/'] ++
      (raw.host ++ portText raw.port) ++ raw.path.getD [] := by
    unfold RawPattern.text
    rw [List.append_assoc, List.append_assoc, List.append_assoc]
    rfl
  -- the scheme is what stands in front of the first colon, and this is the protocol
  have hname : IsScheme raw.protocol := by
    have hfront : raw.text.dropWhile (fun c => c.val ≤ 0x20) = raw.text := by
      refine Text.dropWhile_eq_self fun c hc => ?_
      obtain ⟨d, hd, hgt⟩ := h.protocol.head_gt
      rw [htext, List.append_assoc, List.append_assoc, List.head?_append, Option.mem_def.1 hd] at hc
      cases hc
      exact decide_eq_false (by omega)
    have hkept : raw.text.filter (fun c => !isIgnored c) = raw.protocol ++ CodePoint.ofChar ':' ::
        (Text.ofChars ['/', '/'] ++ (raw.host ++ portText raw.port ++ raw.path.getD [])).filter
          (fun c => !isIgnored c) := by
      rw [htext, List.append_assoc, List.append_assoc, List.filter_append,
        filter_of_counts fun c hc => isIgnored_eq_false_of_not_blank (h.protocol.isBlank c hc)]
      rfl
    rcases cutScheme_cases (raw.text.filter fun c => !isIgnored c) with hnil | ⟨name, rest, hname,
      heq, -⟩
    · unfold Split.ofText at hscheme
      rw [hfront] at hscheme
      exact absurd hnil hscheme
    · have hcolon : CodePoint.ofChar ':' ∉ name := Text.notMem_of_kind hname.parts (by decide)
      have hcut := Text.cut?_append hcolon rest
      rw [← heq, hkept, Text.cut?_append (h.protocol.colon_notMem)] at hcut
      cases hcut
      exact hname
  refine ⟨hname, ?_⟩
  rw [htext]
  exact Split.ofText_append hname (counts_of_isSpelled h) h.opens_path

/-- What follows the port is the path. -/
theorem Split.drop_opening {raw : RawPattern} (hscheme : IsScheme raw.protocol)
    (hsplit : Split.ofText raw.text = ⟨raw.protocol.lower, raw.host ++ portText raw.port⟩) :
    raw.text.drop (Split.ofText raw.text).opening.length = raw.path.getD [] := by
  have htext : raw.text = raw.protocol ++ separator ++ (raw.host ++ portText raw.port) ++
      raw.path.getD [] := by
    unfold RawPattern.text
    simp only [List.append_assoc]
  rw [hsplit, htext]
  exact Split.drop_opening_append hscheme _ _

/-! ## Protocols, hosts and ports -/

/-- A protocol that is a scheme accepts itself in lower case. -/
theorem accepts_lower_of_isScheme {protocol : Text} {protocols : ProtocolRule}
    (h : IsScheme protocol) (hread : RawPattern.readProtocol protocol.lower = .ok protocols) :
    protocols.accepts protocol.lower.lower = true := by
  rw [readProtocol_of_isScheme h.lower] at hread
  cases hread
  exact decide_eq_true (Text.lower_lower protocol)

/-- Where no user is named, the authority is split behind the host, and the rule that the pattern
has for its host accepts the host of the URL. -/
theorem ofAuthority_spelled {host : Text} {port : Option Text} {hosts : HostRule} (h : IsHost host)
    (hport : ∀ t ∈ port, IsPort t) (huser : CodePoint.ofChar '@' ∉ host)
    (hread : readHost host.lower = .ok hosts) :
    ∃ name, HostPort.ofAuthority (host ++ portText port) = ⟨name, port.getD []⟩ ∧
      hosts.accepts name.lower = true := by
  have huserPort := IsPort.user_notMem_portText hport
  have huserAll : CodePoint.ofChar '@' ∉ host ++ portText port := fun hmem =>
    (List.mem_append.1 hmem).elim huser huserPort
  -- a host without brackets and colons ends in front of the port
  have hbare : CodePoint.ofChar '[' ∉ host → CodePoint.ofChar ']' ∉ host →
      CodePoint.ofChar ':' ∉ host →
      HostPort.ofAuthority (host ++ portText port) = ⟨host, port.getD []⟩ := by
    intro hopen hclose hcolon
    have hopenPort : CodePoint.ofChar '[' ∉ portText port :=
      IsPort.notMem_portText hport (by decide) (by decide) (by decide)
    have hclosePort : CodePoint.ofChar ']' ∉ portText port :=
      IsPort.notMem_portText hport (by decide) (by decide) (by decide)
    have hsplit := ofAuthority_of_no_brackets huserAll
      (fun hmem => (List.mem_append.1 hmem).elim hopen hopenPort)
      (fun hmem => (List.mem_append.1 hmem).elim hclose hclosePort)
    rw [hsplit.2, partition_portText port hcolon]
  cases h with
  | star =>
    cases hread
    exact ⟨_, hbare (by decide) (by decide) (by decide), rfl⟩
  | run hrun =>
    rw [RawPattern.readHost_run hrun.lower] at hread
    cases hread
    refine ⟨_, hbare ?_ ?_ ?_, decide_eq_true rfl⟩
    · exact Text.notMem_of_kind hrun.2 (by decide)
    · exact Text.notMem_of_kind hrun.2 (by decide)
    · exact Text.notMem_of_kind hrun.2 (by decide)
  | @within run hrun =>
    obtain ⟨-, -, rfl⟩ := (RawPattern.readHost_within_iff hrun).1 hread
    have hmarks : ∀ mark : CodePoint, mark ≠ CodePoint.ofChar '*' → mark ≠ CodePoint.ofChar '.' →
        mark.isHostPart = false →
        mark ∉ CodePoint.ofChar '*' :: CodePoint.ofChar '.' :: run := by
      intro mark hstar hpoint hpart hmem
      rcases List.mem_cons.1 hmem with heq | hmem
      · exact hstar heq
      · rcases List.mem_cons.1 hmem with heq | hmem
        · exact hpoint heq
        · exact Text.notMem_of_kind hrun.2 hpart hmem
    refine ⟨_, hbare ?_ ?_ ?_, ?_⟩
    · exact hmarks _ (by decide) (by decide) (by decide)
    · exact hmarks _ (by decide) (by decide) (by decide)
    · exact hmarks _ (by decide) (by decide) (by decide)
    · rw [RawPattern.lower_within]
      exact HostRule.within_accepts_iff.2 (.inr (List.suffix_cons _ _))
  | @bracketed inner hne hparts =>
    rw [RawPattern.lower_bracketed hparts, RawPattern.readHost_bracket] at hread
    cases hread
    have hclose : CodePoint.ofChar ']' ∉ inner := Text.notMem_of_kind hparts (by decide)
    have hhead : ∀ c ∈ (portText port).head?, c = CodePoint.ofChar ':' := by
      cases port with
      | none => exact fun _ hc => by cases hc
      | some t => exact fun _ hc => by cases hc; rfl
    have hdigits := partition_portText port (List.not_mem_nil (a := CodePoint.ofChar ':'))
    rw [List.nil_append] at hdigits
    refine ⟨inner, ?_, decide_eq_true rfl⟩
    rw [(ofAuthority_bracket huserAll hclose hhead).2, hdigits]

/-- A rule for a host that seems to name a user accepts no host that a URL can have. -/
theorem not_accepts_of_user {host name : Text} {hosts : HostRule} (h : IsHost host)
    (huser : CodePoint.ofChar '@' ∈ host) (hread : readHost host.lower = .ok hosts)
    (hname : CodePoint.ofChar '@' ∉ name) : hosts.accepts name = false := by
  rw [← Bool.not_eq_true]
  intro haccepts
  apply hname
  have hlower : ∀ t : Text, CodePoint.ofChar '@' ∈ t → CodePoint.ofChar '@' ∈ t.lower :=
    fun t => (Text.mem_lowerAfter_iff (by decide) (by decide) [] t).2
  cases h with
  | star => exact absurd huser (by decide)
  | run hrun =>
    rw [RawPattern.readHost_run hrun.lower] at hread
    cases hread
    rw [of_decide_eq_true haccepts]
    exact hlower _ huser
  | @within run hrun =>
    obtain ⟨-, -, rfl⟩ := (RawPattern.readHost_within_iff hrun).1 hread
    have huserRun : CodePoint.ofChar '@' ∈ run := by
      rcases List.mem_cons.1 huser with heq | hmem
      · exact absurd heq (by decide)
      · rcases List.mem_cons.1 hmem with heq | hmem
        · exact absurd heq (by decide)
        · exact hmem
    rcases HostRule.within_accepts_iff.1 haccepts with rfl | hsuffix
    · exact hlower _ huserRun
    · exact hsuffix.subset (List.mem_cons_of_mem _ (hlower _ huserRun))
  | bracketed hne hparts =>
    rw [bracket, List.mem_cons, List.mem_append, List.mem_singleton] at huser
    rcases huser with heq | hpart | heq
    · exact absurd heq (by decide)
    · exact absurd (hparts _ hpart) (by decide)
    · exact absurd heq (by decide)

/-- A port that both readers accept is the same number for both, or named for neither. -/
theorem readPort_spelled {port : Option Text} {n : Option Nat} {rule : PortRule}
    (h : ∀ t ∈ port, IsPort t) (hurl : readPort (port.getD []) = .ok n)
    (hpattern : RawPattern.readPort port = .ok rule) : rule = portRule n := by
  cases port with
  | none =>
    cases hpattern
    cases hurl
    rfl
  | some t =>
    rcases h t rfl with rfl | ⟨hmin, hmax, -⟩
    · -- a wildcard is no port of a URL
      cases hurl
    · have hne : t ≠ [] := List.length_pos_iff.1 hmin
      have hfew : t.length ≤ Literal.maxDigits := hmax.trans (by decide)
      rw [Option.getD_some] at hurl
      unfold readPort at hurl
      rw [if_neg (by simpa using hne)] at hurl
      split at hurl
      · cases hurl
      · next hall =>
        rw [Bool.not_eq_true, Bool.not_eq_false', List.all_eq_true] at hall
        rw [Literal.readInt_of_digits hne hall hfew] at hurl
        dsimp only at hurl
        split at hurl
        · cases hurl
        · next hrange =>
          cases hurl
          unfold RawPattern.readPort at hpattern
          dsimp only at hpattern
          split at hpattern
          · next hstar =>
            rw [hstar] at hall
            exact absurd (hall _ List.mem_cons_self) (by decide)
          · split at hpattern
            · cases hpattern
            · cases hpattern
              rfl

/-! ## A URL and its own pattern -/

/-- Whether a URL text names a user in front of its host. -/
def NamesUser (source : Text) : Prop :=
  CodePoint.ofChar '@' ∈ (Split.ofText source.trim).authority

instance (source : Text) : Decidable (NamesUser source) :=
  inferInstanceAs (Decidable (_ ∈ _))

/-- A text that is both a pattern and a URL: the pattern applies to the URL exactly when the text
names no user. -/
theorem accepts_self_iff {source : Text} {p : Pattern} {url : Url}
    (hpattern : Pattern.parse? source = some p) (hurl : parse? source = some url) :
    p.accepts url = true ↔ ¬NamesUser source := by
  obtain ⟨n, hreads, rfl⟩ := parse?_eq_some_iff.1 hurl
  unfold NamesUser
  rcases Pattern.parse?_eq_some_iff.1 hpattern with ⟨hstar, -⟩ | ⟨raw, hspelled, htext, hread⟩
  · -- `*` is no URL
    rw [hstar] at hreads
    exact absurd rfl hreads.scheme_ne
  rw [htext] at hreads ⊢
  obtain ⟨protocols, hosts, port, hprotocol, hhost, hport, rfl⟩ := Pattern.read_eq_some_iff.1 hread
  obtain ⟨hscheme, hsplit⟩ := Split.ofText_spelled hspelled hreads.scheme_ne
  have huser : CodePoint.ofChar '@' ∈ (Split.ofText raw.text).authority ↔
      CodePoint.ofChar '@' ∈ raw.host := by
    rw [hsplit, List.mem_append, or_iff_left (IsPort.user_notMem_portText hspelled.port)]
  rw [huser]
  constructor
  · intro haccepts hmem
    have hhosts := ((SiteRule.accepts_iff _ _).1 haccepts).2.1
    have hname : CodePoint.ofChar '@' ∉ ((Split.ofText raw.text).url raw.text n).host := fun h =>
      ((wellFormed_of_parse? hurl).host_counts _ (by rwa [htext])).1 rfl
    rw [not_accepts_of_user hspelled.host hmem hhost hname] at hhosts
    cases hhosts
  · intro hmem
    obtain ⟨name, hauthority, hhosts⟩ :=
      ofAuthority_spelled hspelled.host hspelled.port hmem hhost
    have hportText := hreads.port_eq
    rw [hsplit, hauthority] at hportText
    obtain rfl := readPort_spelled hspelled.port hportText hport
    refine (SiteRule.accepts_iff _ _).2 ⟨?_, ?_, ?_, ?_⟩
    · -- the protocol of a URL is its scheme, put into lower case once more
      show protocols.accepts (Split.ofText raw.text).scheme.lower = true
      rw [hsplit]
      exact accepts_lower_of_isScheme hscheme hprotocol
    · show hosts.accepts
        (lowerHost (HostPort.ofAuthority (Split.ofText raw.text).authority).host) = true
      rw [hsplit, hauthority, lowerHost_eq_lower]
      exact hhosts
    · cases n with
      | none => exact .inr rfl
      | some n => exact .inr rfl
    · intro path hsome
      have hsome : raw.path = some path := hsome
      show path = raw.text.drop _
      rw [Split.drop_opening hscheme hsplit, hsome, Option.getD_some]

/-- A text with letters of both cases, a mark in its host, a port and a path is a pattern that
applies to it as a URL. -/
theorem accepts_self_marked :
    ∃ p url, Pattern.parse? (Text.ofString "HTTPS://A%B:8080/x?y") = some p ∧
      parse? (Text.ofString "HTTPS://A%B:8080/x?y") = some url ∧ p.accepts url = true := by
  have hpattern : Pattern.parse? (Text.ofString "HTTPS://A%B:8080/x?y") =
      some (.site ⟨.only Protocol.https, .exactly (Text.ofString "a%b"), .number 8080,
        some (Text.ofString "/x?y")⟩) := by
    decide +kernel
  have hurl : parse? (Text.ofString "HTTPS://A%B:8080/x?y") =
      some ⟨Protocol.https, Text.ofString "a%b", some 8080, Text.ofString "/x?y", true⟩ := by
    decide +kernel
  exact ⟨_, _, hpattern, hurl, (accepts_self_iff hpattern hurl).2 (by decide +kernel)⟩

/-- As a pattern, a URL that names a user stands for a host of that spelling, and the URL has
another host. -/
theorem not_accepts_self_user :
    ∃ p url, Pattern.parse? (Text.ofString "http://me@a/") = some p ∧
      parse? (Text.ofString "http://me@a/") = some url ∧ p.accepts url = false :=
  ⟨_, _, rfl, rfl, rfl⟩

end SiteRules.Url
