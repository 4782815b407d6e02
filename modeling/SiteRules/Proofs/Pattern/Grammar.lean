import SiteRules.Proofs.Pattern.Parser

/-!
# The grammar of patterns

A pattern is spelled `*`, or by a protocol and a host with a port and a path or without. The rules
of the grammar say how each part is spelled and what it stands for (`RawPattern.Spells`). A part is
read exactly if the grammar spells it (`readProtocol_iff_spells`, `readHost_iff_spells`,
`readPort_iff_spells`), and a text is cut into parts in one way only. So the patterns that are read
are those of the grammar, and each text has one cut (`Pattern.parse?_iff_spells`).

The grammar speaks of the parts as they are written, while they are read in lower case. The two
agree because lower case brings out no mark, and no letter of `http` and `https`, that was not there
before.
-/

namespace SiteRules

namespace RawPattern

/-! ## The rules -/

/-- A protocol part: `*`, a name, or `http?` or `https?` in either case of basic Latin. -/
inductive SpellsProtocol : Text → ProtocolRule → Prop
  | any : SpellsProtocol star .any
  | name {c : CodePoint} {rest : Text} (letter : c.isProtocolLetter = true)
    (parts : ∀ d ∈ rest, d.isProtocolPart = true) :
    SpellsProtocol (c :: rest) (.only (Text.lower (c :: rest)))
  | optional {name : Text}
    (either : name.map CodePoint.small = Protocol.http ∨
      name.map CodePoint.small = Protocol.https) :
    SpellsProtocol (name ++ [CodePoint.ofChar '?']) .httpOrHttps

/-- A host part: `*`, a run, a run without an empty label after `*.`, or an address between
brackets. -/
inductive SpellsHost : Text → HostRule → Prop
  | any : SpellsHost star .any
  | run {t : Text} (run : IsRun t) : SpellsHost t (.exactly t.lower)
  | within {t : Text} (run : IsRun t) (first : t.head? ≠ some (CodePoint.ofChar '.'))
    (labels : ¬Text.ofChars ['.', '.'] <:+: t) :
    SpellsHost (CodePoint.ofChar '*' :: CodePoint.ofChar '.' :: t) (.within t.lower)
  | bracketed {t : Text} (ne_nil : t ≠ []) (parts : ∀ c ∈ t, c.isBracketedPart = true) :
    SpellsHost (bracket t) (.exactly t.lower)

/-- A port part, which may be left out: `*`, or one to five digits that spell a port. -/
inductive SpellsPort : Option Text → PortRule → Prop
  | omitted : SpellsPort none .omitted
  | wildcard : SpellsPort (some star) .wildcard
  | number {t : Text} (ne_nil : 1 ≤ t.length) (length_le : t.length ≤ 5)
    (digits : ∀ c ∈ t, c.isDigit = true) (range : t.decimal ≤ 65535) :
    SpellsPort (some t) (.number t.decimal)

/-- The parts spell a rule. The path, which may be left out, is taken as it is written. -/
structure Spells (raw : RawPattern) (rule : SiteRule) : Prop where
  protocol : SpellsProtocol raw.protocol rule.protocols
  host : SpellsHost raw.host rule.hosts
  port : SpellsPort raw.port rule.port
  path : ∀ t ∈ raw.path, IsPath t
  path_eq : rule.path = raw.path

/-! ## Protocols -/

/-- In lower case, a name has no mark that it did not have. -/
theorem notMem_lower_of_kind {p : CodePoint → Bool} {t : Text} {mark : CodePoint}
    (h : ∀ c ∈ t, p c = true) (hmark : p mark = false) (hlatin : mark.val < 0x80)
    (hletter : mark.isBasicLetter = false) : mark ∉ t.lower := by
  rw [Text.lower, Text.mem_lowerAfter_iff hlatin hletter]
  exact Text.notMem_of_kind h hmark

theorem readProtocol_name {c : CodePoint} {rest : Text} (letter : c.isProtocolLetter = true)
    (parts : ∀ d ∈ rest, d.isProtocolPart = true) :
    readProtocol (Text.lower (c :: rest)) = .ok (.only (Text.lower (c :: rest))) := by
  have hall : ∀ d ∈ c :: rest, d.isProtocolPart = true := by
    refine List.forall_mem_cons.2 ⟨?_, parts⟩
    rw [CodePoint.isProtocolPart, letter]
    rfl
  have hasterisk : CodePoint.ofChar '*' ∉ Text.lower (c :: rest) :=
    notMem_lower_of_kind hall (by decide) (by decide) (by decide)
  have hmark : CodePoint.ofChar '?' ∉ Text.lower (c :: rest) :=
    notMem_lower_of_kind hall (by decide) (by decide) (by decide)
  have hstar : Text.lower (c :: rest) ≠ star := by
    intro h
    rw [h] at hasterisk
    exact hasterisk List.mem_cons_self
  have hoptional : ¬(Text.lower (c :: rest) = Protocol.http ++ [CodePoint.ofChar '?'] ∨
      Text.lower (c :: rest) = Protocol.https ++ [CodePoint.ofChar '?']) := by
    intro h
    apply hmark
    rcases h with h | h <;> rw [h] <;> exact List.mem_append_right _ List.mem_cons_self
  have hlast : (Text.lower (c :: rest)).getLast? ≠ some (CodePoint.ofChar '?') :=
    fun h => hmark (List.mem_of_getLast? h)
  rw [readProtocol, if_neg hstar, if_neg hoptional, if_neg hlast]

/-- A name with a mark behind it is read exactly if it is `http?` or `https?` in either case of
basic Latin. -/
theorem readProtocol_optional_iff {name : Text} {rule : ProtocolRule} :
    readProtocol (Text.lower (name ++ [CodePoint.ofChar '?'])) = .ok rule ↔
      (name.map CodePoint.small = Protocol.http ∨ name.map CodePoint.small = Protocol.https) ∧
        rule = .httpOrHttps := by
  have hcased : (CodePoint.ofChar '?').isCased = false := by decide
  have hignored : (CodePoint.ofChar '?').isCaseIgnorable = false := by decide +kernel
  have hlower : Text.lower (name ++ [CodePoint.ofChar '?']) =
      name.lower ++ [CodePoint.ofChar '?'] := by
    rw [Text.lower_append_mark hcased hignored, List.append_assoc]
    rfl
  have hname : ∀ protocol, protocol = Protocol.http ∨ protocol = Protocol.https →
      (name.lower ++ [CodePoint.ofChar '?'] = protocol ++ [CodePoint.ofChar '?'] ↔
        name.map CodePoint.small = protocol) := by
    intro protocol h
    rw [List.append_cancel_right_eq]
    apply Text.lower_eq_iff_map_small
    rcases h with rfl | rfl <;> decide
  have hstar : name.lower ++ [CodePoint.ofChar '?'] ≠ star := by
    intro h
    have hlast := congrArg List.getLast? h
    rw [List.getLast?_concat] at hlast
    exact absurd hlast (by decide)
  have hsame := or_congr (hname _ (.inl rfl)) (hname _ (.inr rfl))
  rw [hlower, readProtocol, if_neg hstar, List.getLast?_concat, if_pos rfl, ← hsame]
  split
  · next heither =>
    rw [and_iff_right heither, Except.ok.injEq]
    exact eq_comm
  · next hneither =>
    refine ⟨fun h => ?_, fun h => absurd h.1 hneither⟩
    cases h

/-- A protocol part can be read exactly if the grammar spells it. -/
theorem readProtocol_iff_spells {t : Text} {rule : ProtocolRule} :
    IsProtocol t ∧ readProtocol t.lower = .ok rule ↔ SpellsProtocol t rule := by
  constructor
  · rintro ⟨rfl | ⟨c, rest, letter, parts, rfl | rfl⟩, hread⟩
    · cases hread
      exact .any
    · rw [readProtocol_name letter parts] at hread
      cases hread
      exact .name letter parts
    · obtain ⟨either, rfl⟩ := readProtocol_optional_iff.1 hread
      exact .optional either
  · intro h
    cases h with
    | any => exact ⟨.inl rfl, rfl⟩
    | name letter parts =>
      exact ⟨.inr ⟨_, _, letter, parts, .inl rfl⟩, readProtocol_name letter parts⟩
    | @optional name either =>
      refine ⟨?_, readProtocol_optional_iff.2 ⟨either, rfl⟩⟩
      -- `http` and `https` are made of letters, in either case
      have hletters : ∀ c ∈ name, c.isBasicLetter = true := by
        intro c hc
        have hall : ∀ d ∈ name.map CodePoint.small, d.isBasicLetter = true := by
          rcases either with h | h <;> rw [h] <;> decide
        rw [← CodePoint.isBasicLetter_small]
        exact hall _ (List.mem_map_of_mem hc)
      obtain ⟨c, rest, rfl⟩ : ∃ c rest, name = c :: rest := by
        apply List.exists_cons_of_ne_nil
        rintro rfl
        rcases either with h | h <;> cases h
      have hletter : c.isProtocolLetter = true := by
        rw [CodePoint.isProtocolLetter, hletters c List.mem_cons_self]
        rfl
      refine .inr ⟨c, rest, hletter, fun d hd => ?_, .inr rfl⟩
      rw [CodePoint.isProtocolPart, CodePoint.isProtocolLetter,
        hletters d (List.mem_cons_of_mem _ hd)]
      rfl

/-! ## Hosts -/

/-- A host behind `*.` is put into lower case as if it stood by itself. -/
theorem lower_within (t : Text) :
    Text.lower (CodePoint.ofChar '*' :: CodePoint.ofChar '.' :: t) =
      CodePoint.ofChar '*' :: CodePoint.ofChar '.' :: t.lower := by
  have hopens : Text.opensCased [CodePoint.ofChar '.', CodePoint.ofChar '*'] = false := by
    decide +kernel
  have hrest := Text.lowerAfter_append hopens t []
  show CodePoint.ofChar '*' :: CodePoint.ofChar '.' ::
    Text.lowerAfter ([] ++ [CodePoint.ofChar '.', CodePoint.ofChar '*']) t = _
  rw [hrest]
  rfl

/-- A run has an empty label in lower case exactly if it has one. -/
theorem hasEmptyLabel_lower {t : Text} (h : IsRun t) :
    hasEmptyLabel t.lower = true ↔
      t.head? = some (CodePoint.ofChar '.') ∨ Text.ofChars ['.', '.'] <:+: t := by
  have hlatin : (CodePoint.ofChar '.').val < 0x80 := by decide
  have hletter : (CodePoint.ofChar '.').isBasicLetter = false := by decide
  have hne : t.lower.isEmpty = false := by
    rw [List.isEmpty_eq_false_iff]
    exact h.lower.1
  have hfirst := Text.head?_lowerAfter_eq_mark hlatin hletter [] t
  have hpair := Text.infix_lowerAfter hlatin hletter [] t
  rw [hasEmptyLabel, hne, Bool.false_or, Bool.or_eq_true, decide_eq_true_eq,
    Text.occursIn_iff_infix]
  exact or_congr hfirst hpair

theorem readHost_within_iff {t : Text} (h : IsRun t) {rule : HostRule} :
    readHost (Text.lower (CodePoint.ofChar '*' :: CodePoint.ofChar '.' :: t)) = .ok rule ↔
      t.head? ≠ some (CodePoint.ofChar '.') ∧ ¬Text.ofChars ['.', '.'] <:+: t ∧
        rule = .within t.lower := by
  have hstar : CodePoint.ofChar '*' :: CodePoint.ofChar '.' :: t.lower ≠ star := by
    intro heq
    cases heq
  rw [lower_within, readHost, if_neg hstar]
  simp only [if_true, List.drop_succ_cons, List.drop_zero]
  have hlabel := hasEmptyLabel_lower h
  split
  · next hempty =>
    rw [hlabel] at hempty
    rcases hempty with hfirst | hpair
    · simp [hfirst]
    · simp [hpair]
  · next hfull =>
    rw [hlabel, not_or] at hfull
    simp [hfull, eq_comm]

theorem lower_bracketed {t : Text} (h : ∀ c ∈ t, c.isBracketedPart = true) :
    (bracket t).lower = bracket t.lower := by
  rw [lower_bracket h, Text.lower_eq_map_small]
  intro c hc
  have hle := CodePoint.val_le_of_isBracketedPart (h c hc)
  omega

/-- A host part can be read exactly if the grammar spells it. -/
theorem readHost_iff_spells {t : Text} {rule : HostRule} :
    IsHost t ∧ readHost t.lower = .ok rule ↔ SpellsHost t rule := by
  constructor
  · rintro ⟨hhost, hread⟩
    cases hhost with
    | star =>
      cases hread
      exact .any
    | run hrun =>
      rw [readHost_run hrun.lower] at hread
      cases hread
      exact .run hrun
    | within hrun =>
      obtain ⟨first, labels, rfl⟩ := (readHost_within_iff hrun).1 hread
      exact .within hrun first labels
    | bracketed ne_nil parts =>
      rw [lower_bracketed parts, readHost_bracket] at hread
      cases hread
      exact .bracketed ne_nil parts
  · intro h
    cases h with
    | any => exact ⟨.star, rfl⟩
    | run hrun => exact ⟨.run hrun, readHost_run hrun.lower⟩
    | within hrun first labels =>
      exact ⟨.within hrun, (readHost_within_iff hrun).2 ⟨first, labels, rfl⟩⟩
    | bracketed ne_nil parts =>
      refine ⟨.bracketed ne_nil parts, ?_⟩
      rw [lower_bracketed parts, readHost_bracket]

/-! ## Ports -/

theorem readPort_digits_iff {t : Text} (hne : t ≠ star) {rule : PortRule} :
    readPort (some t) = .ok rule ↔ t.decimal ≤ 65535 ∧ rule = .number t.decimal := by
  rw [readPort, if_neg hne]
  split
  · next hpast =>
    have hrange : ¬t.decimal ≤ 65535 := Nat.not_le.2 hpast
    simp [hrange]
  · next hrange => simp [Nat.not_lt.1 hrange, eq_comm]

/-- A port part can be read exactly if the grammar spells it. -/
theorem readPort_iff_spells {port : Option Text} {rule : PortRule} :
    (∀ t ∈ port, IsPort t) ∧ readPort port = .ok rule ↔ SpellsPort port rule := by
  have hdigits : ∀ t : Text, (∀ c ∈ t, c.isDigit = true) → t ≠ star := by
    rintro t h rfl
    exact absurd (h _ List.mem_cons_self) (by decide)
  constructor
  · rintro ⟨hport, hread⟩
    cases port with
    | none =>
      cases hread
      exact .omitted
    | some t =>
      rcases hport t rfl with rfl | ⟨ne_nil, length_le, digits⟩
      · cases hread
        exact .wildcard
      · obtain ⟨range, rfl⟩ := (readPort_digits_iff (hdigits t digits)).1 hread
        exact .number ne_nil length_le digits range
  · intro h
    cases h with
    | omitted => exact ⟨fun _ ht => (by cases ht), rfl⟩
    | wildcard => exact ⟨fun _ ht => by cases ht; exact .inl rfl, rfl⟩
    | @number t ne_nil length_le digits range =>
      refine ⟨fun _ ht => ?_, (readPort_digits_iff (hdigits t digits)).2 ⟨range, rfl⟩⟩
      cases ht
      exact .inr ⟨ne_nil, length_le, digits⟩

/-! ## Whole patterns -/

theorem Spells.isSpelled {raw : RawPattern} {rule : SiteRule} (h : raw.Spells rule) :
    raw.IsSpelled :=
  ⟨(readProtocol_iff_spells.2 h.protocol).1, (readHost_iff_spells.2 h.host).1,
    (readPort_iff_spells.2 h.port).1, h.path⟩

/-- Well-spelled parts can be read exactly if the grammar spells them. -/
theorem read_iff_spells {raw : RawPattern} {p : Pattern} :
    raw.IsSpelled ∧ raw.read.toOption = some p ↔ ∃ rule, raw.Spells rule ∧ p = .site rule := by
  rw [Pattern.read_eq_some_iff]
  constructor
  · rintro ⟨hspelled, protocols, hosts, port, hprotocol, hhost, hport, rfl⟩
    exact ⟨_, ⟨readProtocol_iff_spells.1 ⟨hspelled.protocol, hprotocol⟩,
      readHost_iff_spells.1 ⟨hspelled.host, hhost⟩, readPort_iff_spells.1 ⟨hspelled.port, hport⟩,
      hspelled.path, rfl⟩, rfl⟩
  · rintro ⟨⟨protocols, hosts, port, path⟩, h, rfl⟩
    refine ⟨h.isSpelled, protocols, hosts, port, (readProtocol_iff_spells.2 h.protocol).2,
      (readHost_iff_spells.2 h.host).2, (readPort_iff_spells.2 h.port).2, ?_⟩
    rw [← h.path_eq]

/-- Well-spelled parts are the only ones of their text. -/
theorem IsSpelled.eq_of_text_eq {raw other : RawPattern} (h : raw.IsSpelled)
    (hother : other.IsSpelled) (heq : raw.text = other.text) : raw = other := by
  have hcut : ofText? raw.text = some raw := ofText?_eq_some_iff.2 ⟨h, rfl⟩
  have hcut' : ofText? raw.text = some other := ofText?_eq_some_iff.2 ⟨hother, heq⟩
  exact Option.some.inj (hcut.symm.trans hcut')

end RawPattern

open RawPattern (read_iff_spells)

/-- A text is a pattern exactly if it is `*`, or if it is put together from parts that the grammar
spells, and then the pattern is the rule that they spell. There is one way at most to cut a text
into such parts. Blanks at the ends of the text do not count. -/
theorem Pattern.parse?_iff_spells (source : Text) :
    (∀ p, Pattern.parse? source = some p ↔
      (source.trim = RawPattern.star ∧ p = .everything) ∨
        ∃ raw rule, RawPattern.Spells raw rule ∧ source.trim = raw.text ∧ p = .site rule) ∧
    ∀ raw rule raw' rule', RawPattern.Spells raw rule → RawPattern.Spells raw' rule' →
      source.trim = raw.text → source.trim = raw'.text → raw = raw' ∧ rule = rule' := by
  constructor
  · intro p
    rw [parse?_eq_some_iff]
    apply or_congr Iff.rfl
    constructor
    · rintro ⟨raw, hspelled, htext, hread⟩
      obtain ⟨rule, hrule, rfl⟩ := read_iff_spells.1 ⟨hspelled, hread⟩
      exact ⟨raw, rule, hrule, htext, rfl⟩
    · rintro ⟨raw, rule, hrule, htext, rfl⟩
      obtain ⟨hspelled, hread⟩ := read_iff_spells.2 ⟨rule, hrule, rfl⟩
      exact ⟨raw, hspelled, htext, hread⟩
  · intro raw rule raw' rule' h h' htext htext'
    obtain rfl : raw = raw' := h.isSpelled.eq_of_text_eq h'.isSpelled (htext.symm.trans htext')
    refine ⟨rfl, ?_⟩
    -- what the parts spell is what is read from them
    have hread := (read_iff_spells.2 ⟨rule, h, rfl⟩).2
    have hread' := (read_iff_spells.2 ⟨rule', h', rfl⟩).2
    exact Pattern.site.inj (Option.some.inj (hread.symm.trans hread'))

/-- The host is put into lower case and the path is not; a port may be written in any digits. -/
example : Pattern.parse? (Text.ofString " HTTP?://*.A:٣/B ") = some (.site ⟨.httpOrHttps,
    .within (Text.ofString "a"), .number 3, some (Text.ofString "/B")⟩) := by
  decide +kernel

end SiteRules
