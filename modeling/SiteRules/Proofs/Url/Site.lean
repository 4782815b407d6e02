import SiteRules.Proofs.Url.Origin

/-!
# Origins and sites

Two URLs have the same origin exactly if they have the same protocol, the same host and the same
port in effect (`Url.origin_eq_iff`). An origin can be taken apart again: its protocol ends at the
first colon, and host and port are found in the rest although a host may hold colons and brackets of
its own (`spelledHost_append_inj`). The port in effect is the one that the origin names, or else the
default one (`WellFormed.port_eq`).
-/

namespace SiteRules.Url

open RawPattern (bracket portText)

/-! ## Hosts and ports -/

theorem spelledHost_of_colon {url : Url} (h : CodePoint.ofChar ':' ∈ url.host) :
    url.spelledHost = bracket url.host := by
  rw [spelledHost, if_pos (Text.any_eq_true_iff.2 h)]
  rfl

theorem spelledHost_of_no_colon {url : Url} (h : CodePoint.ofChar ':' ∉ url.host) :
    url.spelledHost = url.host := by
  rw [spelledHost, Text.any_eq_false_iff.2 h, if_neg Bool.false_ne_true]

/-- The digits of a port, if there is one. -/
def digitsText (port : Option Nat) : Text :=
  (port.map Text.ofNat).getD []

theorem isBasicDigit_of_mem_digitsText {port : Option Nat} {c : CodePoint}
    (h : c ∈ digitsText port) : c.isBasicDigit = true := by
  cases port with
  | none => cases h
  | some n => exact Text.isBasicDigit_of_mem_ofNat h

theorem digitsText_inj {m n : Option Nat} (h : digitsText m = digitsText n) : m = n := by
  cases m with
  | none =>
    cases n with
    | none => rfl
    | some n => exact absurd h.symm (Text.ofNat_ne_nil n)
  | some m =>
    cases n with
    | none => exact absurd h (Text.ofNat_ne_nil m)
    | some n =>
      have hvalue : (Text.ofNat m).decimal = (Text.ofNat n).decimal := congrArg Text.decimal h
      rw [Text.decimal_ofNat, Text.decimal_ofNat] at hvalue
      rw [hvalue]

/-- A port with the colon in front of it, if there is one. -/
def namedText (port : Option Nat) : Text :=
  portText (port.map Text.ofNat)

/-- Without a colon in the host, the port begins at the first colon. -/
theorem partition_namedText {host : Text} (h : CodePoint.ofChar ':' ∉ host) (port : Option Nat) :
    partition ':' (host ++ namedText port) = (host, digitsText port) :=
  partition_portText _ h

/-- The last closing bracket parts a bracketed host from its port. -/
theorem cutLast?_bracket (host : Text) (port : Option Nat) :
    (bracket host ++ namedText port).cutLast? ']' =
      some (CodePoint.ofChar '[' :: host, namedText port) := by
  refine Text.cutLast?_eq_some_iff.2 ⟨by simp [bracket], fun hmem => ?_⟩
  rcases RawPattern.mem_portText hmem with heq | ⟨t, ht, hc⟩
  · exact absurd heq (by decide)
  · obtain ⟨n, -, rfl⟩ := Option.map_eq_some_iff.1 ht
    exact absurd (Text.isBasicDigit_of_mem_ofNat hc) (by decide)

theorem host_append_inj {host other : Text} {m n : Option Nat}
    (hhost : CodePoint.ofChar ':' ∉ host) (hother : CodePoint.ofChar ':' ∉ other)
    (h : host ++ namedText m = other ++ namedText n) : host = other ∧ m = n := by
  have hparts := congrArg (partition ':') h
  rw [partition_namedText hhost, partition_namedText hother, Prod.mk.injEq] at hparts
  exact ⟨hparts.1, digitsText_inj hparts.2⟩

theorem bracket_append_inj {host other : Text} {m n : Option Nat}
    (h : bracket host ++ namedText m = bracket other ++ namedText n) : host = other ∧ m = n := by
  have hparts := congrArg (Text.cutLast? ']') h
  rw [cutLast?_bracket, cutLast?_bracket, Option.some.injEq, Prod.mk.injEq,
    List.cons.injEq] at hparts
  obtain ⟨⟨-, hhost⟩, hport⟩ := hparts
  exact ⟨hhost, (host_append_inj List.not_mem_nil List.not_mem_nil (congrArg ([] ++ ·) hport)).2⟩

/-- A host between brackets is not taken for one without: its closing bracket stands behind the
first colon, where the other one has digits only. -/
theorem bracket_append_ne {host other : Text} (hcolon : CodePoint.ofChar ':' ∈ host)
    (hother : CodePoint.ofChar ':' ∉ other) (m n : Option Nat) :
    bracket host ++ namedText m ≠ other ++ namedText n := by
  intro heq
  obtain ⟨front, back, rfl, hfront⟩ := List.eq_append_cons_of_mem hcolon
  have hopen : CodePoint.ofChar ':' ∉ CodePoint.ofChar '[' :: front :=
    List.not_mem_cons_of_ne_of_not_mem (by decide) hfront
  have hwhole : bracket (front ++ CodePoint.ofChar ':' :: back) ++ namedText m =
      CodePoint.ofChar '[' :: front ++ CodePoint.ofChar ':' ::
        (back ++ CodePoint.ofChar ']' :: namedText m) := by
    simp [bracket]
  have hparts := partition_eq_of_cut? (Text.cut?_append hopen
    (back ++ CodePoint.ofChar ']' :: namedText m))
  rw [← hwhole, heq, partition_namedText hother] at hparts
  have hdigits : digitsText n = back ++ CodePoint.ofChar ']' :: namedText m :=
    congrArg Prod.snd hparts
  have hclose : CodePoint.ofChar ']' ∈ digitsText n := by
    rw [hdigits]
    exact List.mem_append_right _ List.mem_cons_self
  exact absurd (isBasicDigit_of_mem_digitsText hclose) (by decide)

/-- Host and port of an origin can be told from their text. -/
theorem spelledHost_append_inj {a b : Url} {m n : Option Nat}
    (h : a.spelledHost ++ namedText m = b.spelledHost ++ namedText n) :
    a.host = b.host ∧ m = n := by
  by_cases ha : CodePoint.ofChar ':' ∈ a.host
  · rw [spelledHost_of_colon ha] at h
    by_cases hb : CodePoint.ofChar ':' ∈ b.host
    · rw [spelledHost_of_colon hb] at h
      exact bracket_append_inj h
    · rw [spelledHost_of_no_colon hb] at h
      exact absurd h (bracket_append_ne ha hb m n)
  · rw [spelledHost_of_no_colon ha] at h
    by_cases hb : CodePoint.ofChar ':' ∈ b.host
    · rw [spelledHost_of_colon hb] at h
      exact absurd h.symm (bracket_append_ne hb ha n m)
    · rw [spelledHost_of_no_colon hb] at h
      exact host_append_inj ha hb h

/-! ## Ports in effect -/

section Effect

variable {a b : Url}

/-- The port in effect is the one that the origin names, or else the default one. -/
theorem WellFormed.port_eq (h : a.WellFormed) :
    a.port = a.namedPort.orElse fun _ => Protocol.defaultPort? a.protocol := by
  rw [namedPort]
  by_cases hexplicit : a.explicitPort = true
  · obtain ⟨n, hn⟩ := Option.isSome_iff_exists.1 (h.port_named hexplicit)
    by_cases hdefault : a.port = Protocol.defaultPort? a.protocol
    · simp [hdefault]
    · rw [hexplicit, decide_eq_true hdefault, Bool.and_self, if_pos rfl, hn]
      rfl
  · rw [Bool.not_eq_true] at hexplicit
    rw [hexplicit, Bool.false_and, if_neg Bool.false_ne_true]
    exact h.port_default hexplicit

/-- Of two URLs of one protocol with the same port in effect, both name it in their origins or
neither does. -/
theorem WellFormed.namedPort_eq (ha : a.WellFormed) (hb : b.WellFormed)
    (hprotocol : a.protocol = b.protocol) (hport : a.port = b.port) :
    a.namedPort = b.namedPort := by
  have hnamed : ∀ {url : Url}, url.WellFormed →
      url.namedPort = if url.port = Protocol.defaultPort? url.protocol then none else url.port := by
    intro url h
    rw [namedPort]
    by_cases hexplicit : url.explicitPort = true
    · simp [hexplicit]
    · rw [Bool.not_eq_true] at hexplicit
      rw [hexplicit, Bool.false_and, if_neg Bool.false_ne_true, if_pos (h.port_default hexplicit)]
  rw [hnamed ha, hnamed hb, hprotocol, hport]

end Effect

/-! ## Origins -/

/-- The origins of two URLs are the same exactly if the URLs belong to one site: they have the same
protocol, the same host and the same port in effect, which may be none. -/
theorem origin_eq_iff {source other : Text} {a b : Url} (ha : parse? source = some a)
    (hb : parse? other = some b) :
    a.origin = b.origin ↔ a.protocol = b.protocol ∧ a.host = b.host ∧ a.port = b.port := by
  have hwa := wellFormed_of_parse? ha
  have hwb := wellFormed_of_parse? hb
  constructor
  · intro h
    have hcolon : ∀ {url : Url}, url.WellFormed → CodePoint.ofChar ':' ∉ url.protocol :=
      fun hw => Text.notMem_of_kind hw.protocol.parts (by decide)
    have hcut : ∀ {url : Url}, url.WellFormed → url.origin.cut? ':' =
        some (url.protocol, Text.ofChars ['/', '/'] ++ url.originAuthority) := by
      intro url hw
      rw [origin_eq_append, List.append_nil, List.append_assoc]
      exact Text.cut?_append (hcolon hw) _
    have hboth := hcut hwa
    rw [h, hcut hwb, Option.some.injEq, Prod.mk.injEq, List.append_cancel_left_eq] at hboth
    obtain ⟨hprotocol, hauthority⟩ := hboth
    obtain ⟨hhost, hnamed⟩ := spelledHost_append_inj hauthority
    refine ⟨hprotocol.symm, hhost.symm, ?_⟩
    rw [hwa.port_eq, hwb.port_eq, hnamed, hprotocol]
  · rintro ⟨hprotocol, hhost, hport⟩
    have hparts : a.originParts = b.originParts := by
      rw [originParts, originParts, spelledHost, spelledHost, hprotocol, hhost,
        hwa.namedPort_eq hwb hprotocol hport]
    rw [origin_eq_text, origin_eq_text, hparts]

/-- A default port that is named and one that is left out make no difference for an address, and
neither do capitals, a user and the path. -/
theorem origin_eq_addressed :
    ∃ a b, parse? (Text.ofString "HTTP://me@[FE80::1]:80/a?b") = some a ∧
      parse? (Text.ofString "http://[fe80::1]#c") = some b ∧ a.origin = b.origin := by
  have ha : parse? (Text.ofString "HTTP://me@[FE80::1]:80/a?b") =
      some ⟨Protocol.http, Text.ofString "fe80::1", some 80, Text.ofString "/a?b", true⟩ := by
    decide +kernel
  have hb : parse? (Text.ofString "http://[fe80::1]#c") =
      some ⟨Protocol.http, Text.ofString "fe80::1", some 80, Text.ofString "#c", false⟩ := by
    decide +kernel
  exact ⟨_, _, ha, hb, (origin_eq_iff ha hb).2 ⟨rfl, rfl, rfl⟩⟩

/-- A host that is spelled like another one with a port stands between brackets, so the two do not
fall together. -/
example : (parse? (Text.ofString "x://[::1]:2")).map origin ≠
    (parse? (Text.ofString "x://[::1:2]")).map origin := by
  decide +kernel

end SiteRules.Url
