import SiteRules.Proofs.Pattern.Coverage
import SiteRules.Proofs.Url.Site
import SiteRules.Store.Resolve

/-!
# Spellings of one URL

A URL can be spelled with its default port or without, and with a user or without. Neither makes a
difference for the parts that patterns compare, so the origin and the settings in effect are the
same too (`readAlike_of_default`). The text of a URL is cut in front of the authority and behind it,
whatever the authority says (`parts_spelled_iff`). In the authority, the user is what stands in
front of the last `@` (`user_not_seen`), and a port that is named leaves the host in front of it as
it is (`port_apart`).
-/

namespace SiteRules.Url

open RawPattern (bracket separator)

/-! ## Texts that are read alike -/

/-- The parts of a URL that patterns compare. -/
def parts (url : Url) : Text × Text × Option Nat × Text :=
  (url.protocol, url.host, url.port, url.path)

/-- Two texts that are both no URL, or URLs of the same parts. They have the same origin, and the
same settings in every store. -/
structure ReadAlike (source other : Text) : Prop where
  parts_eq : (parse? source).map parts = (parse? other).map parts
  origin_eq : (parse? source).map origin = (parse? other).map origin
  settings_eq {κ ν : Type} [BEq κ] (s : Store κ ν) : s.resolveUrl source = s.resolveUrl other

/-- Origins and settings are settled by the parts that patterns compare. -/
theorem ReadAlike.of_parts {source other : Text}
    (h : (parse? source).map parts = (parse? other).map parts) : ReadAlike source other := by
  cases ha : parse? source with
  | none =>
    rw [ha] at h
    have hb : parse? other = none := Option.map_eq_none_iff.1 h.symm
    constructor
    case parts_eq => rw [ha, hb]
    case origin_eq => rw [ha, hb]
    case settings_eq =>
      intro κ ν _ s
      rw [Store.resolveUrl, Store.resolveUrl, ha, hb]
  | some a =>
    rw [ha] at h
    obtain ⟨b, hb, hparts⟩ := Option.map_eq_some_iff.1 h.symm
    simp only [parts, Prod.mk.injEq] at hparts
    obtain ⟨hprotocol, hhost, hport, hpath⟩ := hparts
    constructor
    case parts_eq => rw [ha, h, hb]
    case origin_eq =>
      have horigin := (origin_eq_iff ha hb).2 ⟨hprotocol.symm, hhost.symm, hport.symm⟩
      rw [ha, hb, Option.map_some, Option.map_some, horigin]
    case settings_eq =>
      intro κ ν _ s
      have hlayers : s.layersFor a = s.layersFor b := by
        unfold Store.layersFor
        congr 2
        funext p
        exact p.accepts_congr hprotocol.symm hhost.symm hport.symm hpath.symm
      rw [Store.resolveUrl, Store.resolveUrl, ha, hb]
      exact congrArg Store.stack hlayers

/-! ## Texts that are spelled out -/

/-- The text of a URL: scheme, authority, and what follows. -/
def spelled (scheme authority rest : Text) : Text :=
  scheme ++ separator ++ authority ++ rest

/-- A code point of basic Latin that is no control and no blank, and that does not end an
authority. -/
def IsVisible (c : CodePoint) : Prop :=
  0x21 ≤ c.val ∧ c.val ≤ 0x7e ∧ endsAuthority c = false

instance (c : CodePoint) : Decidable (IsVisible c) :=
  inferInstanceAs (Decidable (_ ∧ _ ∧ _))

theorem IsVisible.val_lt {c : CodePoint} (h : IsVisible c) : c.val < 0x80 := by
  have hle := h.2.1
  omega

theorem IsVisible.isBlank {c : CodePoint} (h : IsVisible c) : c.isBlank = false :=
  CodePoint.forall_basicLatin (P := fun c => IsVisible c → c.isBlank = false) (by decide) h.val_lt h

theorem IsVisible.isIgnored {c : CodePoint} (h : IsVisible c) : isIgnored c = false :=
  isIgnored_eq_false_of_not_blank h.isBlank

theorem isVisible_of_isSchemePart {c : CodePoint} (h : isSchemePart c = true) : IsVisible c :=
  CodePoint.forall_basicLatin (P := fun c => isSchemePart c = true → IsVisible c) (by decide)
    (val_lt_of_isSchemePart h) h

section Spelled

variable {scheme authority rest : Text}

theorem val_lt_of_mem_opening (hscheme : IsScheme scheme)
    (hauthority : ∀ c ∈ authority, IsVisible c) :
    ∀ c ∈ scheme ++ separator ++ authority, c.val < 0x80 ∧ c.isBlank = false := by
  intro c hc
  rw [List.mem_append, List.mem_append] at hc
  rcases hc with (hc | hc) | hc
  · have hvisible := isVisible_of_isSchemePart (hscheme.parts c hc)
    exact ⟨hvisible.val_lt, hvisible.isBlank⟩
  · revert c
    decide
  · exact ⟨(hauthority c hc).val_lt, (hauthority c hc).isBlank⟩

theorem head?_trimEnd (hrest : ∀ c ∈ rest.head?, endsAuthority c = true) :
    ∀ c ∈ rest.trimEnd.head?, endsAuthority c = true := by
  cases rest with
  | nil =>
    intro c hc
    cases hc
  | cons c others =>
    have hc := hrest c rfl
    have hblank : ∀ d ∈ [c], d.isBlank = false := by
      intro d hd
      rw [List.mem_singleton.1 hd]
      simp only [endsAuthority, Bool.or_eq_true, decide_eq_true_eq] at hc
      rcases hc with (rfl | rfl) | rfl <;> decide
    have htrim : Text.trimEnd (c :: others) = c :: Text.trimEnd others :=
      Text.trimEnd_append hblank others
    rw [htrim]
    rintro d ⟨rfl⟩
    exact hc

/-- Without the blanks at its end, a text that is spelled out begins in lower case with its scheme
and its authority. -/
theorem isPrefixOf_spelled (hscheme : IsScheme scheme)
    (hauthority : ∀ c ∈ authority, IsVisible c) :
    (Split.opening ⟨scheme.lower, authority⟩).lower.isPrefixOf
      (spelled scheme authority rest).lower = true := by
  have hlatin := val_lt_of_mem_opening hscheme hauthority
  have hsame : (Split.opening ⟨scheme.lower, authority⟩).lower =
      (scheme ++ separator ++ authority).lower := by
    apply Text.lower_congr
    show (scheme.lower ++ separator ++ authority).map CodePoint.small = _
    rw [Text.lower_eq_map_small fun c hc => val_lt_of_isSchemePart (hscheme.parts c hc)]
    simp only [List.map_append, List.map_map, Function.comp_def, CodePoint.small_small]
  rw [hsame, List.isPrefixOf_iff_prefix]
  refine Text.lower_prefix (fun c hc => ?_) rest
  have hlt := (hlatin c hc).1
  omega

/-- A text that is spelled out is read exactly if the authority passes the check of its brackets,
has a host and, if it names a port, a valid one. -/
theorem reads_spelled_iff (hscheme : IsScheme scheme) (hauthority : ∀ c ∈ authority, IsVisible c)
    {port : Option Nat} :
    Split.Reads ⟨scheme.lower, authority⟩ (spelled scheme authority rest) port ↔
      checkBrackets authority = .ok () ∧ (HostPort.ofAuthority authority).host ≠ [] ∧
        readPort (HostPort.ofAuthority authority).port = .ok port := by
  constructor
  · intro h
    exact ⟨h.brackets, h.host_ne, h.port_eq⟩
  · rintro ⟨hbrackets, hhost, hport⟩
    constructor
    case brackets => exact hbrackets
    case compatible =>
      rw [List.any_eq_false]
      intro c hc
      rw [hidesSeparator_of_basicLatin (hauthority c hc).val_lt]
      exact Bool.false_ne_true
    case port_eq => exact hport
    case scheme_ne => exact Text.lower_ne_nil hscheme.ne_nil
    case authority_ne =>
      -- an empty authority has no host
      rintro (rfl : authority = [])
      exact hhost rfl
    case host_ne => exact hhost
    case verbatim => exact isPrefixOf_spelled hscheme hauthority

theorem trim_spelled (hscheme : IsScheme scheme) (hauthority : ∀ c ∈ authority, IsVisible c) :
    (spelled scheme authority rest).trim = spelled scheme authority rest.trimEnd := by
  refine Text.trim_append ?_ (fun c hc => (val_lt_of_mem_opening hscheme hauthority c hc).2) rest
  simp [hscheme.ne_nil]

theorem split_spelled (hscheme : IsScheme scheme) (hauthority : ∀ c ∈ authority, IsVisible c)
    (hrest : ∀ c ∈ rest.head?, endsAuthority c = true) :
    Split.ofText (spelled scheme authority rest) = ⟨scheme.lower, authority⟩ :=
  Split.ofText_append hscheme
    (fun c hc => ⟨(hauthority c hc).2.2, (hauthority c hc).isIgnored⟩) hrest

theorem parts_url_spelled (hscheme : IsScheme scheme) (authority rest : Text)
    (port : Option Nat) :
    (Split.url ⟨scheme.lower, authority⟩ (spelled scheme authority rest) port).parts =
      (scheme.lower, lowerHost (HostPort.ofAuthority authority).host,
        port.orElse fun _ => Protocol.defaultPort? scheme.lower, rest) := by
  have hpath : (spelled scheme authority rest).drop
      (Split.opening ⟨scheme.lower, authority⟩).length = rest :=
    Split.drop_opening_append hscheme authority rest
  rw [parts, Split.url, hpath, Text.lower_lower]

/-- The parts of a URL that is spelled out. The authority passes the check of its brackets, has a
host and, if it names a port, a valid one; the rest, without the blanks at its end, is the path. -/
theorem parts_spelled_iff (hscheme : IsScheme scheme)
    (hauthority : ∀ c ∈ authority, IsVisible c) (hrest : ∀ c ∈ rest.head?, endsAuthority c = true)
    {r : Text × Text × Option Nat × Text} :
    (parse? (spelled scheme authority rest)).map parts = some r ↔
      checkBrackets authority = .ok () ∧ (HostPort.ofAuthority authority).host ≠ [] ∧
        ∃ port, readPort (HostPort.ofAuthority authority).port = .ok port ∧
          r = (scheme.lower, lowerHost (HostPort.ofAuthority authority).host,
            port.orElse fun _ => Protocol.defaultPort? scheme.lower, rest.trimEnd) := by
  have htrim : (spelled scheme authority rest).trim = _ := trim_spelled hscheme hauthority
  have hsplit := split_spelled hscheme hauthority (head?_trimEnd hrest)
  rw [Option.map_eq_some_iff]
  constructor
  · rintro ⟨url, hparse, rfl⟩
    obtain ⟨port, hreads, rfl⟩ := parse?_eq_some_iff.1 hparse
    rw [htrim, hsplit] at hreads ⊢
    obtain ⟨hbrackets, hhost, hport⟩ := (reads_spelled_iff hscheme hauthority).1 hreads
    exact ⟨hbrackets, hhost, port, hport, parts_url_spelled hscheme authority _ port⟩
  · rintro ⟨hbrackets, hhost, port, hport, rfl⟩
    refine ⟨_, parse?_eq_some_iff.2 ⟨port, ?_, rfl⟩, ?_⟩
    · rw [htrim, hsplit]
      exact (reads_spelled_iff hscheme hauthority).2 ⟨hbrackets, hhost, hport⟩
    · rw [htrim, hsplit]
      exact parts_url_spelled hscheme authority _ port

end Spelled

/-! ## Users and ports -/

theorem checkBrackets_congr {a b : Text}
    (hopen : CodePoint.ofChar '[' ∈ a ↔ CodePoint.ofChar '[' ∈ b)
    (hclose : CodePoint.ofChar ']' ∈ a ↔ CodePoint.ofChar ']' ∈ b)
    (hhost : withoutUser a = withoutUser b) : checkBrackets a = checkBrackets b := by
  have hany : ∀ mark : CodePoint, (mark ∈ a ↔ mark ∈ b) → a.any (· = mark) = b.any (· = mark) := by
    intro mark h
    rw [Bool.eq_iff_iff, Text.any_eq_true_iff, Text.any_eq_true_iff, h]
  rw [checkBrackets, checkBrackets, hany _ hopen, hany _ hclose, hhost]

/-- A user without brackets is not seen. -/
theorem user_not_seen {user : Text} (authority : Text)
    (hopen : CodePoint.ofChar '[' ∉ user) (hclose : CodePoint.ofChar ']' ∉ user) :
    checkBrackets (user ++ CodePoint.ofChar '@' :: authority) = checkBrackets authority ∧
      HostPort.ofAuthority (user ++ CodePoint.ofChar '@' :: authority) =
        HostPort.ofAuthority authority := by
  have hhost : withoutUser (user ++ CodePoint.ofChar '@' :: authority) = withoutUser authority := by
    by_cases huser : CodePoint.ofChar '@' ∈ authority
    · obtain ⟨front, back, hcut⟩ : ∃ front back, authority.cutLast? '@' = some (front, back) := by
        cases hcut : authority.cutLast? '@' with
        | none => exact absurd huser (Text.cutLast?_eq_none_iff.1 hcut)
        | some cut => exact ⟨cut.1, cut.2, rfl⟩
      obtain ⟨rfl, hback⟩ := Text.cutLast?_eq_some_iff.1 hcut
      rw [withoutUser_append front hback, ← List.cons_append, ← List.append_assoc,
        withoutUser_append _ hback]
    · rw [withoutUser_append user huser, withoutUser_eq_self huser]
  have hmem : ∀ mark : CodePoint, mark ≠ CodePoint.ofChar '@' → mark ∉ user →
      (mark ∈ user ++ CodePoint.ofChar '@' :: authority ↔ mark ∈ authority) := by
    intro mark hne hmark
    simp [hne, hmark]
  constructor
  · exact checkBrackets_congr (hmem _ (by decide) hopen) (hmem _ (by decide) hclose) hhost
  · rw [HostPort.ofAuthority, HostPort.ofAuthority, hhost]

section Port

variable {authority host digits : Text}

/-- A port of digits adds a colon and no other mark. -/
theorem mem_append_port (hdigits : ∀ c ∈ digits, c.isBasicDigit = true) {mark : CodePoint}
    (hcolon : mark ≠ CodePoint.ofChar ':') (hmark : mark.isBasicDigit = false) :
    mark ∈ authority ++ CodePoint.ofChar ':' :: digits ↔ mark ∈ authority := by
  have hnot : mark ∉ CodePoint.ofChar ':' :: digits :=
    List.not_mem_cons_of_ne_of_not_mem hcolon (Text.notMem_of_kind hdigits hmark)
  rw [List.mem_append]
  exact or_iff_left hnot

theorem withoutUser_append_port (hdigits : ∀ c ∈ digits, c.isBasicDigit = true) :
    withoutUser (authority ++ CodePoint.ofChar ':' :: digits) =
      withoutUser authority ++ CodePoint.ofChar ':' :: digits := by
  have huser : ∀ {host : Text}, CodePoint.ofChar '@' ∉ host →
      CodePoint.ofChar '@' ∉ host ++ CodePoint.ofChar ':' :: digits := by
    intro host h
    rwa [mem_append_port hdigits (by decide) (by decide)]
  cases hcut : authority.cutLast? '@' with
  | none =>
    have hnone := Text.cutLast?_eq_none_iff.1 hcut
    rw [withoutUser_eq_self hnone, withoutUser_eq_self (huser hnone)]
  | some cut =>
    obtain ⟨rfl, hhost⟩ := Text.cutLast?_eq_some_iff.1 hcut
    rw [withoutUser_append _ hhost, List.append_assoc, List.cons_append,
      withoutUser_append _ (huser hhost)]

theorem checkBrackets_append_port (hdigits : ∀ c ∈ digits, c.isBasicDigit = true)
    (hopen : CodePoint.ofChar '[' ∉ withoutUser authority)
    (hcolon : CodePoint.ofChar ':' ∉ withoutUser authority) :
    checkBrackets (authority ++ CodePoint.ofChar ':' :: digits) = checkBrackets authority := by
  have hany : ∀ mark : CodePoint, mark ≠ CodePoint.ofChar ':' → mark.isBasicDigit = false →
      (authority ++ CodePoint.ofChar ':' :: digits).any (· = mark) = authority.any (· = mark) := by
    intro mark hne hdigit
    rw [Bool.eq_iff_iff, Text.any_eq_true_iff, Text.any_eq_true_iff,
      mem_append_port hdigits hne hdigit]
  have hopen' : CodePoint.ofChar '[' ∉ withoutUser authority ++ CodePoint.ofChar ':' :: digits := by
    rwa [mem_append_port hdigits (by decide) (by decide)]
  simp only [checkBrackets, hany _ (by decide : CodePoint.ofChar '[' ≠ CodePoint.ofChar ':')
    (by decide), hany _ (by decide : CodePoint.ofChar ']' ≠ CodePoint.ofChar ':') (by decide),
    withoutUser_append_port hdigits, Text.cut?_eq_none hopen, Text.cut?_eq_none hopen',
    partition_eq_self hcolon, partition_eq_of_cut? (Text.cut?_append hcolon digits)]

/-- What stands behind the last `@` holds neither colons nor brackets, or is all between one pair of
brackets: a host, but no port. -/
def NamesNoPort (authority : Text) : Prop :=
  ∃ front host : Text,
    (authority = host ∨ authority = front ++ CodePoint.ofChar '@' :: host) ∧
      CodePoint.ofChar '@' ∉ host ∧
      ((CodePoint.ofChar ':' ∉ host ∧ CodePoint.ofChar '[' ∉ host ∧ CodePoint.ofChar ']' ∉ host) ∨
        ∃ inner, host = bracket inner ∧ CodePoint.ofChar '[' ∉ inner ∧ CodePoint.ofChar ']' ∉ inner)

/-- A port that is named behind a host leaves the host as it is. -/
theorem port_apart (h : NamesNoPort authority) (hdigits : ∀ c ∈ digits, c.isBasicDigit = true) :
    checkBrackets (authority ++ CodePoint.ofChar ':' :: digits) = checkBrackets authority ∧
      ∃ host, HostPort.ofAuthority authority = ⟨host, []⟩ ∧
        HostPort.ofAuthority (authority ++ CodePoint.ofChar ':' :: digits) = ⟨host, digits⟩ := by
  obtain ⟨front, host, hauthority, huser, hhost⟩ := h
  have hplain : withoutUser authority = host := by
    rcases hauthority with rfl | rfl
    · exact withoutUser_eq_self huser
    · exact withoutUser_append front huser
  have hnamed : withoutUser (authority ++ CodePoint.ofChar ':' :: digits) =
      host ++ CodePoint.ofChar ':' :: digits := by
    rw [withoutUser_append_port hdigits, hplain]
  rcases hhost with ⟨hcolon, hopen, -⟩ | ⟨inner, rfl, -, hclose⟩
  · have hopen' : CodePoint.ofChar '[' ∉ host ++ CodePoint.ofChar ':' :: digits := by
      rwa [mem_append_port hdigits (by decide) (by decide)]
    refine ⟨checkBrackets_append_port hdigits (hplain ▸ hopen) (hplain ▸ hcolon), host, ?_, ?_⟩
    · rw [ofAuthority_of_no_bracket hplain hopen, partition_eq_self hcolon]
    · rw [ofAuthority_of_no_bracket hnamed hopen',
        partition_eq_of_cut? (Text.cut?_append hcolon digits)]
  · have hwhole : withoutUser authority = bracket inner ++ [] := by rw [hplain, List.append_nil]
    have hwithout := ofAuthority_of_bracket hwhole hclose (by simp)
    have hwith := ofAuthority_of_bracket hnamed hclose (by simp)
    have hport : partition ':' (CodePoint.ofChar ':' :: digits) = ([], digits) :=
      partition_eq_of_cut? (Text.cut?_append List.not_mem_nil digits)
    refine ⟨hwith.1.trans hwithout.1.symm, inner, hwithout.2, ?_⟩
    rw [hwith.2, hport]

end Port

/-! ## The two ways to say the same -/

/-- Every protocol with a default port is a scheme, in capitals too. -/
theorem isScheme_of_defaultPort? {scheme : Text} {port : Nat}
    (h : Protocol.defaultPort? scheme.lower = some port) : IsScheme scheme := by
  obtain ⟨front, back, heq, -⟩ := List.lookup_eq_some_iff.1 h
  have hmem : (scheme.lower, port) ∈ Protocol.defaultPorts := by
    rw [heq]
    exact List.mem_append_right _ List.mem_cons_self
  have hnames : ∀ entry ∈ Protocol.defaultPorts, entry.1 ≠ [] ∧ ∀ c ∈ entry.1,
      c.isBasicLetter = true ∧ c.val < 0x80 ∧ c.val ≠ 0x69 ∧ c.val ≠ 0x6b := by
    decide
  obtain ⟨hne, hletters⟩ := hnames _ hmem
  have hsmall : scheme.map CodePoint.small = scheme.lower :=
    (Text.lower_eq_iff_map_small fun c hc => (hletters c hc).2).1 rfl
  have hletter : ∀ c ∈ scheme, c.isBasicLetter = true := by
    intro c hc
    rw [← CodePoint.isBasicLetter_small]
    exact (hletters _ (hsmall ▸ List.mem_map_of_mem hc)).1
  constructor
  case head =>
    cases scheme with
    | nil => exact absurd rfl hne
    | cons c others => exact ⟨c, rfl, hletter c List.mem_cons_self⟩
  case parts =>
    intro c hc
    rw [isSchemePart, hletter c hc]
    rfl

section Spellings

variable {scheme user authority rest : Text} {port : Nat}

/-- A URL is read alike whether it names its default port or leaves it out. -/
theorem readAlike_port (hport : Protocol.defaultPort? scheme.lower = some port)
    (hauthority : ∀ c ∈ authority, IsVisible c) (hhost : NamesNoPort authority)
    (hrest : ∀ c ∈ rest.head?, endsAuthority c = true) :
    ReadAlike (spelled scheme authority rest)
      (spelled scheme (authority ++ CodePoint.ofChar ':' :: Text.ofNat port) rest) := by
  have hscheme := isScheme_of_defaultPort? hport
  have hdigits : ∀ c ∈ Text.ofNat port, c.isBasicDigit = true := fun _ hc =>
    Text.isBasicDigit_of_mem_ofNat hc
  have hnamed : ∀ c ∈ authority ++ CodePoint.ofChar ':' :: Text.ofNat port, IsVisible c := by
    intro c hc
    rw [List.mem_append, List.mem_cons] at hc
    rcases hc with hc | rfl | hc
    · exact hauthority c hc
    · decide
    · exact isVisible_of_isSchemePart (by simp [isSchemePart, hdigits c hc])
  obtain ⟨hbrackets, host, hwithout, hwith⟩ := port_apart hhost hdigits
  have hempty : readPort [] = .ok none := rfl
  refine .of_parts (Option.ext fun r => ?_)
  rw [parts_spelled_iff hscheme hauthority hrest, parts_spelled_iff hscheme hnamed hrest,
    hbrackets, hwithout, hwith, hport, readPort_ofNat (defaultPort?_le hport), hempty]
  simp

/-- A URL is read alike with a user and without. -/
theorem readAlike_user (hscheme : IsScheme scheme) (huser : ∀ c ∈ user, IsVisible c)
    (hopen : CodePoint.ofChar '[' ∉ user) (hclose : CodePoint.ofChar ']' ∉ user)
    (hauthority : ∀ c ∈ authority, IsVisible c)
    (hrest : ∀ c ∈ rest.head?, endsAuthority c = true) :
    ReadAlike (spelled scheme authority rest)
      (spelled scheme (user ++ CodePoint.ofChar '@' :: authority) rest) := by
  have hwith : ∀ c ∈ user ++ CodePoint.ofChar '@' :: authority, IsVisible c := by
    intro c hc
    rw [List.mem_append, List.mem_cons] at hc
    rcases hc with hc | rfl | hc
    · exact huser c hc
    · decide
    · exact hauthority c hc
  obtain ⟨hbrackets, hparts⟩ := user_not_seen authority hopen hclose
  refine .of_parts (Option.ext fun r => ?_)
  rw [parts_spelled_iff hscheme hauthority hrest, parts_spelled_iff hscheme hwith hrest,
    hbrackets, hparts]

/-- A URL is read alike, with the same origin and the same settings, whether it names its default
port or not, and with a user or without. -/
theorem readAlike_of_default (hport : Protocol.defaultPort? scheme.lower = some port)
    (hauthority : ∀ c ∈ authority, IsVisible c) (hhost : NamesNoPort authority)
    (huser : ∀ c ∈ user, IsVisible c ∧ c ∉ Text.ofChars ['[', ']', '@'])
    (hrest : ∀ c ∈ rest.head?, endsAuthority c = true) :
    ReadAlike (spelled scheme authority rest)
        (spelled scheme (authority ++ CodePoint.ofChar ':' :: Text.ofNat port) rest) ∧
      ReadAlike (spelled scheme authority rest)
        (spelled scheme (user ++ CodePoint.ofChar '@' :: authority) rest) := by
  have hmark : ∀ mark ∈ Text.ofChars ['[', ']', '@'], mark ∉ user :=
    fun mark hmark hmem => (huser mark hmem).2 hmark
  exact ⟨readAlike_port hport hauthority hhost hrest,
    readAlike_user (isScheme_of_defaultPort? hport) (fun c hc => (huser c hc).1)
      (hmark _ (by decide)) (hmark _ (by decide)) hauthority hrest⟩

/-- An address between brackets behind a user, with a second user in front and a blank at the
end. -/
theorem readAlike_of_default_address :
    (parse? (Text.ofString "HTTPS://a@[::1]/b ")).isSome = true ∧
      ReadAlike (Text.ofString "HTTPS://a@[::1]/b ") (Text.ofString "HTTPS://a@[::1]:443/b ") ∧
      ReadAlike (Text.ofString "HTTPS://a@[::1]/b ") (Text.ofString "HTTPS://c:d@a@[::1]/b ") := by
  have hport : Protocol.defaultPort? (Text.ofString "HTTPS").lower = some 443 := by decide +kernel
  have hauthority : ∀ c ∈ Text.ofString "a@[::1]", IsVisible c := by decide
  have hhost : NamesNoPort (Text.ofString "a@[::1]") :=
    ⟨Text.ofString "a", Text.ofString "[::1]", .inr rfl, by decide,
      .inr ⟨Text.ofString "::1", rfl, by decide, by decide⟩⟩
  have huser : ∀ c ∈ Text.ofString "c:d", IsVisible c ∧ c ∉ Text.ofChars ['[', ']', '@'] := by
    decide
  have hrest : ∀ c ∈ (Text.ofString "/b ").head?, endsAuthority c = true := by decide
  exact ⟨by decide +kernel, readAlike_of_default hport hauthority hhost huser hrest⟩

end Spellings

end SiteRules.Url
