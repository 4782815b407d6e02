import SiteRules.Proofs.Pattern.Parser
import SiteRules.Proofs.Url.Address
import SiteRules.Url.Parser

/-!
# Theory of reading URLs

When a text is read as a URL (`parse?_eq_some_iff`), and what holds of every URL that is read
(`WellFormed`).
-/

namespace SiteRules.Url

/-- The scheme and the authority, with what stands between them. -/
def Split.opening (split : Split) : Text :=
  split.scheme ++ Text.ofChars [':', '/', '/'] ++ split.authority

/-- The parts of a URL text are in order, and `port` is the port that it names. -/
structure Split.Reads (split : Split) (raw : Text) (port : Option Nat) : Prop where
  brackets : checkBrackets split.authority = .ok ()
  compatible : split.authority.any CodePoint.hidesSeparator = false
  port_eq : readPort (HostPort.ofAuthority split.authority).port = .ok port
  scheme_ne : split.scheme ≠ []
  authority_ne : split.authority ≠ []
  host_ne : (HostPort.ofAuthority split.authority).host ≠ []
  verbatim : split.opening.lower.isPrefixOf raw.lower = true

/-- The URL of the parts of a text that names the port `port`. -/
def Split.url (split : Split) (raw : Text) (port : Option Nat) : Url where
  protocol := split.scheme.lower
  host := lowerHost (HostPort.ofAuthority split.authority).host
  port := port.orElse fun _ => Protocol.defaultPort? split.scheme.lower
  path := raw.drop split.opening.length
  explicitPort := port.isSome

theorem checkCompatibility_eq_ok_iff {authority : Text} :
    checkCompatibility authority = .ok () ↔ authority.any CodePoint.hidesSeparator = false := by
  rw [checkCompatibility]
  split
  · next h => simp [h]
  · next h => simpa using h

/-- A text is a URL if its parts are in order, and then it is the URL of its parts. -/
theorem parse?_eq_some_iff {source : Text} {url : Url} :
    parse? source = some url ↔
      ∃ port, (Split.ofText source.trim).Reads source.trim port ∧
        url = (Split.ofText source.trim).url source.trim port := by
  rw [parse?, parse]
  simp only [toOption_bind_eq_some_iff, toOption_check_eq_some_iff, Bool.or_eq_true,
    List.isEmpty_iff, not_or, Bool.not_eq_true', Bool.not_eq_false]
  constructor
  · rintro ⟨_, hbrackets, _, hcompatible, port, hport, ⟨⟨hscheme, hauthority⟩, hhost⟩, hverbatim,
      hurl⟩
    exact ⟨port, ⟨hbrackets, checkCompatibility_eq_ok_iff.1 hcompatible, hport, hscheme, hauthority,
      hhost, hverbatim⟩, (Option.some.inj hurl).symm⟩
  · rintro ⟨port, h, hurl⟩
    exact ⟨(), h.brackets, (), checkCompatibility_eq_ok_iff.2 h.compatible, port, h.port_eq,
      ⟨⟨h.scheme_ne, h.authority_ne⟩, h.host_ne⟩, h.verbatim, congrArg some hurl.symm⟩

/-! ## Schemes -/

/-- A letter of basic Latin and what can follow it in a scheme. -/
structure IsScheme (t : Text) : Prop where
  head : ∃ c ∈ t.head?, c.isBasicLetter = true
  parts : ∀ c ∈ t, isSchemePart c = true

theorem val_lt_of_isSchemePart {c : CodePoint} (h : isSchemePart c = true) : c.val < 0x80 := by
  simp only [isSchemePart, Bool.or_eq_true, decide_eq_true_eq, CodePoint.isBasicLetter_iff,
    CodePoint.isBasicDigit_iff, CodePoint.eq_ofChar_iff] at h
  simp only [Char.reduceToNat] at h
  omega

theorem isSchemePart_small (c : CodePoint) : isSchemePart c.small = isSchemePart c :=
  CodePoint.apply_small (f := isSchemePart) (by decide) c

theorem IsScheme.ne_nil {t : Text} (h : IsScheme t) : t ≠ [] := by
  obtain ⟨c, hc, -⟩ := h.head
  exact List.ne_nil_of_mem (List.mem_of_mem_head? hc)

theorem IsScheme.lower {t : Text} (h : IsScheme t) : IsScheme t.lower := by
  rw [Text.lower_eq_map_small fun c hc => val_lt_of_isSchemePart (h.parts c hc)]
  constructor
  · obtain ⟨c, hc, hletter⟩ := h.head
    refine ⟨c.small, ?_, ?_⟩
    · rw [List.head?_map]
      exact Option.mem_map_of_mem _ hc
    · rw [CodePoint.isBasicLetter_small, hletter]
  · intro c hc
    obtain ⟨d, hd, rfl⟩ := List.mem_map.1 hc
    rw [isSchemePart_small, h.parts d hd]

/-- A scheme that is not empty stands in front of the first colon. -/
theorem cutScheme_cases (t : Text) :
    (cutScheme t).1 = [] ∨
      ∃ name rest, IsScheme name ∧ t = name ++ CodePoint.ofChar ':' :: rest ∧
        cutScheme t = (name.lower, rest) := by
  rw [cutScheme]
  split
  · exact .inl rfl
  · next name rest hcut =>
    split
    · exact .inl rfl
    · next c others =>
      split
      · next hscheme =>
        rw [Bool.and_eq_true] at hscheme
        exact .inr ⟨c :: others, rest, ⟨⟨c, rfl, hscheme.1⟩, List.all_eq_true.1 hscheme.2⟩,
          (Text.cut?_eq_some_iff.1 hcut).1, rfl⟩
      · exact .inl rfl

theorem cutScheme_append {name : Text} (h : IsScheme name) (rest : Text) :
    cutScheme (name ++ CodePoint.ofChar ':' :: rest) = (name.lower, rest) := by
  have hcolon : CodePoint.ofChar ':' ∉ name := Text.notMem_of_kind h.parts (by decide)
  obtain ⟨c, hc, hletter⟩ := h.head
  obtain ⟨others, rfl⟩ : ∃ others, name = c :: others := List.head?_eq_some_iff.1 hc
  have hall : (c :: others).all isSchemePart = true := List.all_eq_true.2 h.parts
  rw [cutScheme, Text.cut?_append hcolon]
  simp only [hletter, hall, Bool.and_self, if_true]

/-! ## The split -/

theorem isIgnored_eq_false_of_isSchemePart {c : CodePoint} (h : isSchemePart c = true) :
    isIgnored c = false :=
  CodePoint.forall_basicLatin (P := fun c => isSchemePart c = true → isIgnored c = false)
    (by decide) (val_lt_of_isSchemePart h) h

theorem isIgnored_eq_false_of_endsAuthority {c : CodePoint} (h : endsAuthority c = true) :
    isIgnored c = false := by
  simp only [endsAuthority, Bool.or_eq_true, decide_eq_true_eq] at h
  rcases h with (rfl | rfl) | rfl <;> decide

theorem isIgnored_eq_false_of_not_blank {c : CodePoint} (h : c.isBlank = false) :
    isIgnored c = false := by
  rw [← Bool.not_eq_true]
  intro hignored
  simp only [isIgnored, Bool.or_eq_true, decide_eq_true_eq] at hignored
  rcases hignored with (rfl | rfl) | rfl <;> cases h

theorem filter_of_counts {t : Text} (h : ∀ c ∈ t, isIgnored c = false) :
    t.filter (fun c => !isIgnored c) = t :=
  List.filter_eq_self.2 fun c hc => by rw [h c hc, Bool.not_false]

theorem cutAuthority_append {authority rest : Text}
    (hauthority : ∀ c ∈ authority, endsAuthority c = false)
    (hrest : ∀ c ∈ rest.head?, endsAuthority c = true) :
    cutAuthority (Text.ofChars ['/', '/'] ++ (authority ++ rest)) = authority := by
  show (authority ++ rest).takeWhile (fun c => !endsAuthority c) = authority
  exact Text.takeWhile_run (fun c hc => by rw [hauthority c hc, Bool.not_false])
    (fun c hc => by rw [hrest c hc, Bool.not_true])

/-- A URL text is split where it was put together. Tabs and line ends in front of the path do not
count. -/
theorem Split.ofText_append_filter {name authority path : Text} (hname : IsScheme name)
    (hauthority : ∀ c ∈ authority, endsAuthority c = false ∧ isIgnored c = false)
    (hpath : ∀ c ∈ (path.filter fun c => !isIgnored c).head?, endsAuthority c = true) :
    Split.ofText (name ++ Text.ofChars [':', '/', '/'] ++ authority ++ path) =
      ⟨name.lower, authority⟩ := by
  -- the scheme begins with a letter, so nothing is left out in front of it
  have hfront : (name ++ Text.ofChars [':', '/', '/'] ++ authority ++ path).dropWhile
      (fun c => c.val ≤ 0x20) = name ++ Text.ofChars [':', '/', '/'] ++ authority ++ path := by
    refine Text.dropWhile_eq_self fun c hc => ?_
    obtain ⟨d, hd, hletter⟩ := hname.head
    rw [List.append_assoc, List.append_assoc, List.head?_append, Option.mem_def.1 hd] at hc
    cases hc
    have hrange := CodePoint.isBasicLetter_iff.1 hletter
    exact decide_eq_false (by omega)
  have hmarks : (Text.ofChars [':', '/', '/']).filter (fun c => !isIgnored c) =
      CodePoint.ofChar ':' :: Text.ofChars ['/', '/'] := by
    decide
  -- what does not count can only stand in the path
  have hkept : (name ++ Text.ofChars [':', '/', '/'] ++ authority ++ path).filter
      (fun c => !isIgnored c) = name ++ CodePoint.ofChar ':' :: (Text.ofChars ['/', '/'] ++
        (authority ++ path.filter fun c => !isIgnored c)) := by
    rw [List.filter_append, List.filter_append, List.filter_append,
      filter_of_counts fun c hc => isIgnored_eq_false_of_isSchemePart (hname.parts c hc),
      filter_of_counts fun c hc => (hauthority c hc).2, hmarks, List.append_assoc,
      List.append_assoc, List.cons_append]
  rw [Split.ofText, hfront, hkept, cutScheme_append hname]
  exact congrArg (Split.mk name.lower)
    (cutAuthority_append (fun c hc => (hauthority c hc).1) hpath)

/-- A URL text that is spelled out is split where it was put together. -/
theorem Split.ofText_append {name authority path : Text} (hname : IsScheme name)
    (hauthority : ∀ c ∈ authority, endsAuthority c = false ∧ isIgnored c = false)
    (hpath : ∀ c ∈ path.head?, endsAuthority c = true) :
    Split.ofText (name ++ Text.ofChars [':', '/', '/'] ++ authority ++ path) =
      ⟨name.lower, authority⟩ := by
  refine ofText_append_filter hname hauthority ?_
  cases path with
  | nil =>
    intro c hc
    cases hc
  | cons c rest =>
    -- what ends the authority counts
    have hc := hpath c rfl
    rw [List.filter_cons, isIgnored_eq_false_of_endsAuthority hc]
    intro d hd
    cases hd
    exact hc

/-- A scheme is as long in lower case, so what is left behind the parts of a text that is spelled
out is its path. -/
theorem Split.drop_opening_append {name : Text} (hname : IsScheme name) (authority path : Text) :
    (name ++ Text.ofChars [':', '/', '/'] ++ authority ++ path).drop
      (Split.opening ⟨name.lower, authority⟩).length = path := by
  have hlength : name.lower.length = name.length := by
    rw [Text.lower_eq_map_small fun c hc => val_lt_of_isSchemePart (hname.parts c hc),
      List.length_map]
  refine List.drop_left' ?_
  simp only [opening, List.length_append, hlength]

/-! ## Hosts -/

/-- What holds of the marks of a host and of the forms of its code points holds of the host in lower
case. -/
theorem forall_mem_lowerHost {P : CodePoint → Prop} (hfinal : P (.ofNat 0x3c2))
    (hsigma : P (.ofNat 0x3c3)) {host : Text} (h : ∀ c ∈ host, ∀ d ∈ c.lower, P d) :
    ∀ d ∈ lowerHost host, P d := by
  rw [lowerHost]
  split
  · rw [Text.lower_lower]
    exact Text.forall_mem_lower hfinal hsigma h
  · next name zone hcut =>
    obtain ⟨rfl, -⟩ := Text.cut?_eq_some_iff.1 hcut
    refine Text.forall_mem_lower hfinal hsigma fun c hc => ?_
    rcases List.mem_append.1 hc with hname | hzone
    · -- the name is in lower case already
      have hlower : c.lower = [c] := Text.isLower_of_mem_lower hname
      have hP : P c := Text.forall_mem_lower hfinal hsigma
        (fun e he => h e (List.mem_append_left _ he)) c hname
      rw [hlower]
      intro d hd
      rw [List.mem_singleton.1 hd]
      exact hP
    · exact h c (List.mem_append_right _ hzone)

theorem isLower_of_mem_lowerHost {host : Text} {c : CodePoint} (h : c ∈ lowerHost host) :
    c.IsLower :=
  forall_mem_lowerHost (by decide) (by decide)
    (fun _ _ _ hd => CodePoint.isLower_of_mem_lower hd) c h

theorem lowerHost_ne_nil {host : Text} (h : host ≠ []) : lowerHost host ≠ [] := by
  rw [lowerHost]
  split
  · exact Text.lower_ne_nil (Text.lower_ne_nil h)
  · exact Text.lower_ne_nil (by simp)

/-- A host in lower case is left as it is. -/
theorem lowerHost_eq_self {host : Text} (h : ∀ c ∈ host, c.IsLower) : lowerHost host = host := by
  rw [lowerHost]
  split
  · rw [Text.lower_lower, Text.lower_eq_self h]
  · next name zone hcut =>
    obtain ⟨rfl, -⟩ := Text.cut?_eq_some_iff.1 hcut
    rw [Text.lower_eq_self fun c hc => h c (List.mem_append_left _ hc), Text.lower_eq_self h]

/-! ## Addresses -/

/-- What turns into the digits and marks of an address is such a digit or mark itself. -/
theorem isBracketedPart_of_lower {c : CodePoint} (h : ∀ d ∈ c.lower, d.isBracketedPart = true) :
    c.isBracketedPart = true := by
  by_cases hlatin : c.val < 0x80
  · exact CodePoint.forall_basicLatin
      (P := fun c => (∀ d ∈ c.lower, d.isBracketedPart = true) → c.isBracketedPart = true)
      (by decide) hlatin h
  · -- no other code point past basic Latin turns into a hexadecimal digit
    obtain ⟨d, hd⟩ := List.exists_mem_of_ne_nil _ (CodePoint.lower_ne_nil c)
    have hle := CodePoint.val_le_of_isBracketedPart (h d hd)
    rcases CodePoint.mem_lower_of_past_basicLatin (Nat.le_of_not_lt hlatin) hd with
      rfl | hi | hk | ⟨hpast, -⟩
    · exact h d hd
    all_goals omega

/-- A host that is made of the digits and marks of an address has no zone, and its capitals are
changed one by one. -/
theorem lowerHost_eq_map_small {host : Text} (h : ∀ c ∈ lowerHost host, c.isBracketedPart = true) :
    (∀ c ∈ host, c.isBracketedPart = true) ∧ lowerHost host = host.map CodePoint.small := by
  have hsigma : (CodePoint.ofNat 0x3c2).isBracketedPart = false := by decide
  cases hcut : host.cut? '%' with
  | none =>
    have hlower : lowerHost host = host.lower := by
      rw [lowerHost, hcut]
      exact Text.lower_lower host
    rw [hlower] at h
    have hparts : ∀ c ∈ host, c.isBracketedPart = true := by
      intro c hc
      rcases Text.lower_subset_lower hc with hsub | hfinal
      · exact isBracketedPart_of_lower fun d hd => h d (hsub hd)
      · rw [h _ hfinal] at hsigma
        cases hsigma
    refine ⟨hparts, ?_⟩
    rw [hlower]
    refine Text.lower_eq_map_small fun c hc => ?_
    have hle := CodePoint.val_le_of_isBracketedPart (hparts c hc)
    omega
  | some cut =>
    -- the mark of the zone would be left in the host
    have hlower : lowerHost host = (cut.1.lower ++ CodePoint.ofChar '%' :: cut.2).lower := by
      rw [lowerHost, hcut]
    have hmark : CodePoint.ofChar '%' ∈ cut.1.lower ++ CodePoint.ofChar '%' :: cut.2 :=
      List.mem_append_right _ List.mem_cons_self
    rw [hlower] at h
    rcases Text.lower_subset_lower hmark with hsub | hfinal
    · have hpart := h (CodePoint.ofChar '%') (hsub (by decide))
      cases hpart
    · rw [h _ hfinal] at hsigma
      cases hsigma

/-- What is made of the digits and marks of an address has no zone. -/
theorem isVersion6_eq_unscoped {t : Text} (h : ∀ c ∈ t, c.isBracketedPart = true) :
    Address.isVersion6 t = Address.isVersion6Unscoped t := by
  have hslash : t.any (· = CodePoint.ofChar '/') = false :=
    Text.any_eq_false_iff.2 (Text.notMem_of_kind h (by decide))
  have hzone : t.cut? '%' = none := Text.cut?_eq_none (Text.notMem_of_kind h (by decide))
  rw [Address.isVersion6, hslash, hzone]
  rfl

/-- A bracketed host that passes the check and is made of the digits and marks of an address is
one, in lower case too. -/
theorem isVersion6Unscoped_lowerHost {host : Text} (hcheck : checkBracketedHost host = .ok ())
    (h : ∀ c ∈ lowerHost host, c.isBracketedPart = true) :
    Address.isVersion6Unscoped (lowerHost host) = true := by
  obtain ⟨hparts, hlower⟩ := lowerHost_eq_map_small h
  have hfuture : host.head? ≠ some (CodePoint.ofChar 'v') := fun hhead =>
    Text.notMem_of_kind hparts (by decide) (List.mem_of_mem_head? hhead)
  rw [hlower, Address.isVersion6Unscoped_small, ← isVersion6_eq_unscoped hparts]
  rw [checkBracketedHost, if_neg hfuture] at hcheck
  split at hcheck
  · cases hcheck
  · split at hcheck
    · next haddress => exact haddress
    · cases hcheck

/-- An address with a colon passes the check. -/
theorem checkBracketedHost_of_isVersion6 {host : Text} (h : ∀ c ∈ host, c.isBracketedPart = true)
    (hcolon : CodePoint.ofChar ':' ∈ host) (haddress : Address.isVersion6Unscoped host = true) :
    checkBracketedHost host = .ok () := by
  have hfuture : host.head? ≠ some (CodePoint.ofChar 'v') := fun hhead =>
    Text.notMem_of_kind h (by decide) (List.mem_of_mem_head? hhead)
  have hversion4 : ¬Address.isVersion4 host = true := by
    intro hversion4
    rcases Address.mem_of_isVersion4 hversion4 hcolon with hpoint | hdigit
    · exact absurd hpoint (by decide)
    · exact absurd hdigit (by decide)
  rw [checkBracketedHost, if_neg hfuture, if_neg hversion4, isVersion6_eq_unscoped h,
    if_pos haddress]

/-! ## Authorities -/

theorem partition_eq_of_cut? {sep : CodePoint} {t : Text} {cut : Text × Text}
    (h : t.cut? sep = some cut) : partition sep t = cut := by
  rw [partition, h, Option.getD_some]

theorem partition_eq_self {sep : CodePoint} {t : Text} (h : sep ∉ t) :
    partition sep t = (t, []) := by
  rw [partition, Text.cut?_eq_none h, Option.getD_none]

theorem notMem_partition (sep : CodePoint) (t : Text) : sep ∉ (partition sep t).1 := by
  cases hcut : t.cut? sep with
  | none =>
    have hmem := Text.cut?_eq_none_iff.1 hcut
    rw [partition_eq_self hmem]
    exact hmem
  | some cut =>
    rw [partition_eq_of_cut? hcut]
    exact (Text.cut?_eq_some_iff.1 hcut).2

theorem partition_subset (sep : CodePoint) (t : Text) : (partition sep t).1 ⊆ t := by
  cases hcut : t.cut? sep with
  | none =>
    rw [partition_eq_self (Text.cut?_eq_none_iff.1 hcut)]
    exact List.Subset.refl _
  | some cut =>
    rw [partition_eq_of_cut? hcut, (Text.cut?_eq_some_iff.1 hcut).1]
    exact List.subset_append_left _ _

theorem withoutUser_subset (authority : Text) : withoutUser authority ⊆ authority := by
  rw [withoutUser]
  split
  · next user rest hcut =>
    rw [(Text.cutLast?_eq_some_iff.1 hcut).1]
    exact fun c hc => List.mem_append_right _ (List.mem_cons_of_mem _ hc)
  · exact List.Subset.refl _

theorem withoutUser_eq_self {authority : Text} (h : CodePoint.ofChar '@' ∉ authority) :
    withoutUser authority = authority := by
  rw [withoutUser, Text.cutLast?_eq_none_iff.2 h]

theorem notMem_withoutUser (authority : Text) : CodePoint.ofChar '@' ∉ withoutUser authority := by
  rw [withoutUser]
  split
  · next user rest hcut => exact (Text.cutLast?_eq_some_iff.1 hcut).2
  · next hcut => exact Text.cutLast?_eq_none_iff.1 hcut

theorem host_subset (authority : Text) :
    (HostPort.ofAuthority authority).host ⊆ withoutUser authority := by
  rw [HostPort.ofAuthority]
  cases hcut : (withoutUser authority).cut? '[' with
  | none => exact partition_subset _ _
  | some cut =>
    intro c hc
    have hmem : c ∈ cut.2 := partition_subset (CodePoint.ofChar ']') cut.2 hc
    rw [(Text.cut?_eq_some_iff.1 hcut).1]
    exact List.mem_append_right _ (List.mem_cons_of_mem _ hmem)

/-- The host of an authority holds a colon only between brackets, where it is checked. -/
theorem checkBracketedHost_of_mem_colon {authority : Text} (h : checkBrackets authority = .ok ())
    (hcolon : CodePoint.ofChar ':' ∈ (HostPort.ofAuthority authority).host) :
    checkBracketedHost (HostPort.ofAuthority authority).host = .ok () := by
  rw [HostPort.ofAuthority] at hcolon ⊢
  cases hcut : (withoutUser authority).cut? '[' with
  | none =>
    rw [hcut] at hcolon
    exact absurd hcolon (notMem_partition _ _)
  | some cut =>
    have hopen : authority.any (· = CodePoint.ofChar '[') = true := by
      have hmem : CodePoint.ofChar '[' ∈ withoutUser authority := by
        rw [(Text.cut?_eq_some_iff.1 hcut).1]
        exact List.mem_append_right _ List.mem_cons_self
      exact Text.any_eq_true_iff.2 (withoutUser_subset _ hmem)
    rw [checkBrackets, hopen] at h
    simp only [hcut, Bool.not_true, Bool.false_eq_true, if_false] at h
    split at h
    · cases h
    · split at h
      · cases h
      · split at h
        · cases h
        · exact h

/-- What stands behind the last `@` names no user. -/
theorem withoutUser_append (user : Text) {host : Text} (h : CodePoint.ofChar '@' ∉ host) :
    withoutUser (user ++ CodePoint.ofChar '@' :: host) = host := by
  rw [withoutUser, Text.cutLast?_eq_some_iff.2 ⟨rfl, h⟩]

/-- A host that does not begin with a bracket ends at the first colon. -/
theorem ofAuthority_of_no_bracket {authority host : Text} (hhost : withoutUser authority = host)
    (hopen : CodePoint.ofChar '[' ∉ host) :
    HostPort.ofAuthority authority = ⟨(partition ':' host).1, (partition ':' host).2⟩ := by
  rw [HostPort.ofAuthority, hhost, Text.cut?_eq_none hopen]

/-- An authority without brackets needs no check, and its host ends at the first colon. -/
theorem ofAuthority_of_no_brackets {authority : Text} (huser : CodePoint.ofChar '@' ∉ authority)
    (hopen : CodePoint.ofChar '[' ∉ authority) (hclose : CodePoint.ofChar ']' ∉ authority) :
    checkBrackets authority = .ok () ∧ HostPort.ofAuthority authority =
      ⟨(partition ':' authority).1, (partition ':' authority).2⟩ := by
  constructor
  · rw [checkBrackets, Text.any_eq_false_iff.2 hopen, Text.any_eq_false_iff.2 hclose]
    rfl
  · exact ofAuthority_of_no_bracket (withoutUser_eq_self huser) hopen

/-- Behind the user, a host that begins with a bracket is what stands between the brackets. -/
theorem ofAuthority_of_bracket {authority host rest : Text}
    (hhost : withoutUser authority = RawPattern.bracket host ++ rest)
    (hclose : CodePoint.ofChar ']' ∉ host)
    (hrest : ∀ c ∈ rest.head?, c = CodePoint.ofChar ':') :
    checkBrackets authority = checkBracketedHost host ∧
      HostPort.ofAuthority authority = ⟨host, (partition ':' rest).2⟩ := by
  have hopens : (RawPattern.bracket host ++ rest).cut? '[' =
      some ([], host ++ CodePoint.ofChar ']' :: rest) := by
    rw [RawPattern.bracket, List.cons_append, List.append_assoc, List.singleton_append]
    exact Text.cut?_append List.not_mem_nil _
  have hcloses : partition ']' (host ++ CodePoint.ofChar ']' :: rest) = (host, rest) :=
    partition_eq_of_cut? (Text.cut?_append hclose rest)
  constructor
  · have hopen : CodePoint.ofChar '[' ∈ authority := by
      refine withoutUser_subset authority ?_
      rw [hhost]
      exact List.mem_cons_self
    have hclosing : CodePoint.ofChar ']' ∈ authority := by
      refine withoutUser_subset authority ?_
      rw [hhost]
      exact List.mem_append_left _
        (List.mem_cons_of_mem _ (List.mem_append_right _ List.mem_cons_self))
    have hcolon : ¬(!rest.isEmpty && rest.head? ≠ some (CodePoint.ofChar ':')) = true := by
      cases rest with
      | nil => decide
      | cons c others =>
        obtain rfl := hrest c rfl
        simp
    rw [checkBrackets, Text.any_eq_true_iff.2 hopen, Text.any_eq_true_iff.2 hclosing, hhost]
    simp only [hopens, hcloses, if_neg hcolon]
    rfl
  · rw [HostPort.ofAuthority, hhost, hopens]
    simp only [hcloses]

/-- An authority that begins with a bracket has the host between the brackets. -/
theorem ofAuthority_bracket {host rest : Text}
    (huser : CodePoint.ofChar '@' ∉ RawPattern.bracket host ++ rest)
    (hclose : CodePoint.ofChar ']' ∉ host)
    (hrest : ∀ c ∈ rest.head?, c = CodePoint.ofChar ':') :
    checkBrackets (RawPattern.bracket host ++ rest) = checkBracketedHost host ∧
      HostPort.ofAuthority (RawPattern.bracket host ++ rest) = ⟨host, (partition ':' rest).2⟩ :=
  ofAuthority_of_bracket (withoutUser_eq_self huser) hclose hrest

/-! ## What is read -/

/-- What holds of the parts of every URL that is read. -/
structure WellFormed (url : Url) : Prop where
  protocol : IsScheme url.protocol
  protocol_lower : ∀ c ∈ url.protocol, c.IsLower
  host_ne : url.host ≠ []
  host_lower : ∀ c ∈ url.host, c.IsLower
  host_counts : ∀ c ∈ url.host, c ≠ CodePoint.ofChar '@' ∧ c.hidesSeparator = false
  /-- A host with a colon is an address, unless it holds what no pattern can spell. -/
  host_address : CodePoint.ofChar ':' ∈ url.host → (∀ c ∈ url.host, c.isBracketedPart = true) →
    Address.isVersion6Unscoped url.host = true
  port_le : ∀ n ∈ url.port, n ≤ 65535
  port_named : url.explicitPort = true → url.port.isSome = true
  port_default : url.explicitPort = false → url.port = Protocol.defaultPort? url.protocol

theorem hidesSeparator_of_basicLatin {c : CodePoint} (h : c.val < 0x80) :
    c.hidesSeparator = false :=
  CodePoint.forall_basicLatin (P := fun c => c.hidesSeparator = false) (by decide) h

/-- Lower case brings out no separator. -/
theorem counts_of_mem_lower {c d : CodePoint} (h : d ∈ c.lower)
    (hc : c ≠ CodePoint.ofChar '@' ∧ c.hidesSeparator = false) :
    d ≠ CodePoint.ofChar '@' ∧ d.hidesSeparator = false := by
  rcases CodePoint.mem_lower_cases h with rfl | ⟨hbelow, habove⟩ | ⟨hpast, hformless⟩
  · exact hc
  · have hlatin : d.val < 0x80 := by omega
    refine ⟨?_, hidesSeparator_of_basicLatin hlatin⟩
    rintro rfl
    exact absurd hbelow (by decide)
  · constructor
    · rintro rfl
      exact absurd hpast (by decide)
    · rw [CodePoint.hidesSeparator, List.contains_eq_mem, decide_eq_false_iff_not]
      intro hmem
      have hout := hformless (d.val, d.val)
        (List.mem_append_right _ (List.mem_map_of_mem hmem))
      simp only at hout
      omega

theorem readPort_le {port : Text} {n : Nat} (h : readPort port = .ok (some n)) : n ≤ 65535 := by
  rw [readPort] at h
  split at h
  · cases h
  · split at h
    · cases h
    · split at h
      · cases h
      · split at h
        · cases h
        · next hle =>
          cases h
          omega

/-- The number of a port is read as it is written. -/
theorem readPort_ofNat {n : Nat} (h : n ≤ 65535) : readPort (Text.ofNat n) = .ok (some n) := by
  have hdigits : ∀ c ∈ Text.ofNat n, c.isBasicDigit = true := fun _ hc =>
    Text.isBasicDigit_of_mem_ofNat hc
  have hlength : (Text.ofNat n).length ≤ 5 :=
    Text.length_ofNat_le (by decide) (Nat.lt_of_le_of_lt h (by decide))
  have hmax : 5 ≤ Literal.maxDigits := by decide
  have hempty : (Text.ofNat n).isEmpty = false :=
    List.isEmpty_eq_false_iff.2 (Text.ofNat_ne_nil n)
  have hrange : ¬(n : Int) > 65535 := by omega
  rw [readPort, hempty, List.all_eq_true.2 hdigits,
    Literal.readInt_of_digits (Text.ofNat_ne_nil n) hdigits (by omega), Text.decimal_ofNat]
  simp only [if_neg hrange, Bool.not_true, Bool.false_eq_true, if_false, Int.toNat_natCast]

theorem defaultPort?_le {protocol : Text} {n : Nat} (h : Protocol.defaultPort? protocol = some n) :
    n ≤ 65535 := by
  obtain ⟨front, back, heq, -⟩ := List.lookup_eq_some_iff.1 h
  have hmem : (protocol, n) ∈ Protocol.defaultPorts := by
    rw [heq]
    exact List.mem_append_right _ List.mem_cons_self
  have hall : ∀ entry ∈ Protocol.defaultPorts, entry.2 ≤ 65535 := by decide
  exact hall _ hmem

/-- The parts of every URL that is read are well formed. -/
theorem wellFormed_of_parse? {source : Text} {url : Url} (h : parse? source = some url) :
    url.WellFormed := by
  obtain ⟨port, hreads, rfl⟩ := parse?_eq_some_iff.1 h
  generalize source.trim = raw at hreads
  obtain ⟨name, hname, hscheme⟩ : ∃ name, IsScheme name ∧
      (Split.ofText raw).scheme = name.lower := by
    rcases cutScheme_cases ((raw.dropWhile fun c => c.val ≤ 0x20).filter fun c => !isIgnored c) with
      hnil | ⟨name, rest, hname, -, hcut⟩
    · exact absurd hnil hreads.scheme_ne
    · exact ⟨name, hname, congrArg Prod.fst hcut⟩
  have hhost := host_subset (Split.ofText raw).authority
  constructor
  case protocol =>
    show IsScheme (Split.ofText raw).scheme.lower
    rw [hscheme]
    exact hname.lower.lower
  case protocol_lower => exact fun c hc => Text.isLower_of_mem_lower hc
  case host_ne => exact lowerHost_ne_nil hreads.host_ne
  case host_lower => exact fun c hc => isLower_of_mem_lowerHost hc
  case host_counts =>
    refine forall_mem_lowerHost (by decide) (by decide) fun c hc d hd =>
      counts_of_mem_lower hd ⟨?_, ?_⟩
    · rintro rfl
      exact notMem_withoutUser _ (hhost hc)
    · rw [← Bool.not_eq_true]
      exact List.any_eq_false.1 hreads.compatible c (withoutUser_subset _ (hhost hc))
  case host_address =>
    intro hcolon hparts
    refine isVersion6Unscoped_lowerHost (checkBracketedHost_of_mem_colon hreads.brackets ?_) hparts
    have hmap := (lowerHost_eq_map_small hparts).2
    have hmem : CodePoint.ofChar ':' ∈ lowerHost _ := hcolon
    rw [hmap] at hmem
    obtain ⟨c, hc, heq⟩ := List.mem_map.1 hmem
    have hcolon' : (CodePoint.ofChar ':').isBasicLetter = false := by decide
    rw [← (CodePoint.small_eq_iff hcolon').1 heq]
    exact hc
  case port_le =>
    intro n hn
    cases port with
    | none => exact defaultPort?_le hn
    | some m =>
      cases hn
      exact readPort_le hreads.port_eq
  case port_named =>
    intro hnamed
    cases port with
    | none => cases hnamed
    | some m => rfl
  case port_default =>
    intro hnamed
    cases port with
    | none => rfl
    | some m => cases hnamed

end SiteRules.Url
