import SiteRules.Proofs.Url.Cut
import SiteRules.Proofs.Url.OwnPattern

/-!
# The case of letters in front of the path

The case of letters of basic Latin counts neither in the scheme nor in the authority of a URL, and
neither in the protocol nor in the host and port of a pattern; the path is taken as it is written
(`parse?_of_caseEqInFront`). What stands in front of the path is told from the text alone
(`Outline.of`). The marks at which a text is cut are no letters, so the parts of two texts that
differ in case only differ in case only too (`RawPattern.IsSpelled.caseEq`, `ofAuthority_caseEq`).
One place looks at the case of letters: an address between brackets is taken for a future kind of
address if it begins with a small `v`.
-/

namespace SiteRules

open RawPattern (separator star bracket portText)
open Text (CaseEq)

/-! ## In front of the path -/

/-- The text in front of the first separator and the text behind it, if there is one. -/
def Text.cutSeparator? : Text → Option (Text × Text)
  | [] => none
  | c :: rest =>
    if separator.isPrefixOf (c :: rest) then some ([], (c :: rest).drop separator.length)
    else (cutSeparator? rest).map fun parts => (c :: parts.1, parts.2)

/-- A text cut at its first separator and in front of its path, which begins at the first `/`, `?`
or `#` behind the separator. A text without a separator has no path. -/
structure Outline where
  front : Text
  authority : Option Text
  path : Text
deriving DecidableEq

namespace Outline

/-- The outline of a text. -/
def of (t : Text) : Outline :=
  match t.cutSeparator? with
  | none => ⟨t, none, []⟩
  | some (front, rest) =>
    ⟨front, some (rest.takeWhile fun c => !c.opensPath), rest.dropWhile fun c => !c.opensPath⟩

/-- The outline with small letters in front of the path. -/
def small (o : Outline) : Outline :=
  ⟨o.front.map CodePoint.small, o.authority.map (List.map CodePoint.small), o.path⟩

end Outline

theorem Text.cutSeparator?_append {front : Text} (h : CodePoint.ofChar ':' ∉ front) (rest : Text) :
    (front ++ (separator ++ rest)).cutSeparator? = some (front, rest) := by
  induction front with
  | nil => rfl
  | cons c others ih =>
    obtain ⟨hc, hothers⟩ := List.ne_and_not_mem_of_not_mem_cons h
    have hnot : separator.isPrefixOf (c :: (others ++ (separator ++ rest))) = false := by
      rw [← Bool.not_eq_true, List.isPrefixOf_iff_prefix]
      intro hprefix
      exact hc (List.cons_prefix_cons.1 hprefix).1
    rw [List.cons_append, cutSeparator?, hnot, ih hothers]
    rfl

theorem Text.eq_of_cutSeparator? {t front rest : Text} (h : t.cutSeparator? = some (front, rest)) :
    t = front ++ (separator ++ rest) := by
  induction t generalizing front with
  | nil => cases h
  | cons c others ih =>
    rw [cutSeparator?] at h
    split at h
    · next hprefix =>
      obtain ⟨more, hmore⟩ := List.isPrefixOf_iff_prefix.1 hprefix
      rw [← hmore, List.drop_left] at h
      cases h
      exact hmore.symm
    · obtain ⟨parts, hcut, hparts⟩ := Option.map_eq_some_iff.1 h
      cases hparts
      exact congrArg (c :: ·) (ih hcut)

theorem Outline.of_append {front authority path : Text} (hfront : CodePoint.ofChar ':' ∉ front)
    (hauthority : ∀ c ∈ authority, c.opensPath = false)
    (hpath : ∀ c ∈ path.head?, c.opensPath = true) :
    of (front ++ (separator ++ (authority ++ path))) = ⟨front, some authority, path⟩ := by
  have hrun : ∀ c ∈ authority, (!c.opensPath) = true := fun c hc => by
    rw [hauthority c hc, Bool.not_false]
  have hrest : ∀ c ∈ path.head?, (!c.opensPath) = false := fun c hc => by
    rw [hpath c hc, Bool.not_true]
  rw [of, Text.cutSeparator?_append hfront]
  dsimp only
  rw [Text.takeWhile_run hrun hrest, Text.dropWhile_run hrun hrest]

/-- Two texts that differ only in the blanks at their ends and in the case of letters of basic Latin
in front of their path. -/
def CaseEqInFront (x y : Text) : Prop :=
  (Outline.of x.trim).small = (Outline.of y.trim).small

instance (x y : Text) : Decidable (CaseEqInFront x y) :=
  inferInstanceAs (Decidable (_ = _))

namespace CaseEqInFront

variable {x y : Text}

theorem symm (h : CaseEqInFront x y) : CaseEqInFront y x :=
  Eq.symm h

/-- A text with a separator differs in front of its path from one that is cut in the same places. -/
theorem exists_append (h : CaseEqInFront x y) {front authority path : Text}
    (hfront : CodePoint.ofChar ':' ∉ front) (hauthority : ∀ c ∈ authority, c.opensPath = false)
    (hpath : ∀ c ∈ path.head?, c.opensPath = true)
    (hx : x.trim = front ++ (separator ++ (authority ++ path))) :
    ∃ front' authority', y.trim = front' ++ (separator ++ (authority' ++ path)) ∧
      CaseEq front front' ∧ CaseEq authority authority' := by
  rw [CaseEqInFront, hx, Outline.of_append hfront hauthority hpath] at h
  rw [Outline.of] at h
  split at h
  · have hnone := congrArg Outline.authority h
    cases hnone
  · next front' rest hcut =>
    simp only [Outline.small, Outline.mk.injEq, Option.map_some, Option.some.injEq] at h
    obtain ⟨hfronts, hauthorities, rfl⟩ := h
    refine ⟨front', _, ?_, hfronts, hauthorities⟩
    rw [List.takeWhile_append_dropWhile]
    exact Text.eq_of_cutSeparator? hcut

/-- Without a separator, the texts differ in case only. -/
theorem caseEq_of_no_separator (h : CaseEqInFront x y) (hx : (x.trim).cutSeparator? = none) :
    CaseEq x.trim y.trim := by
  rw [CaseEqInFront, Outline.of, Outline.of, hx] at h
  dsimp only at h
  split at h
  · exact congrArg Outline.front h
  · have hsome := congrArg Outline.authority h
    cases hsome

end CaseEqInFront

/-! ## Patterns -/

namespace RawPattern

/-- Marks are no letters, so they are the same in texts that differ in case only. -/
theorem exists_append_of_marks (marks : Text) {t s : Text}
    (hmarks : ∀ c ∈ marks, c.isBasicLetter = false) (h : CaseEq (marks ++ t) s) :
    ∃ t', s = marks ++ t' ∧ CaseEq t t' := by
  obtain ⟨marks', t', rfl, hsame, ht⟩ := h.exists_append
  rw [hsame.eq_of_no_letter hmarks]
  exact ⟨t', rfl, ht⟩

theorem IsProtocol.caseEq {t s : Text} (h : IsProtocol t) (hs : CaseEq t s) : IsProtocol s := by
  have hletter : ∀ c : CodePoint, c.small.isProtocolLetter = c.isProtocolLetter :=
    CodePoint.apply_small (f := CodePoint.isProtocolLetter) (by decide)
  have hpart : ∀ c : CodePoint, c.small.isProtocolPart = c.isProtocolPart :=
    CodePoint.apply_small (f := CodePoint.isProtocolPart) (by decide)
  have hname : ∀ {c : CodePoint} {rest name : Text}, c.isProtocolLetter = true →
      (∀ d ∈ rest, d.isProtocolPart = true) → CaseEq (c :: rest) name →
        ∃ c' rest', name = c' :: rest' ∧ c'.isProtocolLetter = true ∧
          ∀ d ∈ rest', d.isProtocolPart = true := by
    intro c rest name hc hrest hsame
    obtain ⟨c', rest', rfl, hhead, hothers⟩ := hsame.exists_cons
    refine ⟨c', rest', rfl, ?_, hothers.forall_mem _ hpart hrest⟩
    exact hhead.forall_mem _ hletter (by simpa using hc) c' List.mem_cons_self
  rcases h with rfl | ⟨c, rest, hc, hrest, rfl | rfl⟩
  · exact .inl (hs.eq_of_no_letter (by decide))
  · obtain ⟨c', rest', rfl, hc', hrest'⟩ := hname hc hrest hs
    exact .inr ⟨c', rest', hc', hrest', .inl rfl⟩
  · obtain ⟨name, mark, rfl, hsame, hmark⟩ := hs.exists_append
    obtain ⟨c', rest', rfl, hc', hrest'⟩ := hname hc hrest hsame
    rw [hmark.eq_of_no_letter (by decide)]
    exact .inr ⟨c', rest', hc', hrest', .inr rfl⟩

theorem IsRun.caseEq {t s : Text} (h : IsRun t) (hs : CaseEq t s) : IsRun s :=
  ⟨hs.ne_nil h.1, hs.forall_mem _
    (CodePoint.apply_small (f := CodePoint.isHostPart) (by decide)) h.2⟩

theorem IsHost.caseEq {t s : Text} (h : IsHost t) (hs : CaseEq t s) : IsHost s := by
  cases h with
  | star =>
    rw [hs.eq_of_no_letter (by decide)]
    exact .star
  | run hrun => exact .run (hrun.caseEq hs)
  | @within run hrun =>
    obtain ⟨run', rfl, hsame⟩ := exists_append_of_marks (Text.ofChars ['*', '.']) (by decide) hs
    exact .within (hrun.caseEq hsame)
  | @bracketed inner hne hparts =>
    obtain ⟨rest, rfl, hrest⟩ := exists_append_of_marks (Text.ofChars ['[']) (by decide) hs
    obtain ⟨inner', mark, rfl, hsame, hmark⟩ := hrest.exists_append
    rw [hmark.eq_of_no_letter (by decide)]
    exact .bracketed (hsame.ne_nil hne)
      (hsame.forall_mem _ CodePoint.isBracketedPart_small hparts)

/-- A port has no letters. -/
theorem isBasicLetter_of_mem_portText {port : Option Text} (h : ∀ t ∈ port, IsPort t) :
    ∀ c ∈ portText port, c.isBasicLetter = false := by
  intro c hc
  rcases IsPort.portText_cases h hc with rfl | rfl | hdigit
  · decide
  · decide
  · by_cases hlatin : c.val < 0x80
    · exact CodePoint.forall_basicLatin
        (P := fun c => c.isDigit = true → c.isBasicLetter = false) (by decide +kernel) hlatin hdigit
    · rw [← Bool.not_eq_true, CodePoint.isBasicLetter_iff]
      omega

/-- Well-spelled parts stay so in the other case, and are read alike. -/
theorem IsSpelled.caseEq {raw : RawPattern} (h : raw.IsSpelled) {protocol host : Text}
    (hprotocol : CaseEq raw.protocol protocol) (hhost : CaseEq raw.host host) :
    IsSpelled ⟨protocol, host, raw.port, raw.path⟩ ∧
      read ⟨protocol, host, raw.port, raw.path⟩ = raw.read := by
  constructor
  · exact ⟨h.protocol.caseEq hprotocol, h.host.caseEq hhost, h.port, h.path⟩
  · simp only [read, Text.lower_congr hprotocol, Text.lower_congr hhost]

end RawPattern

/-- A pattern is read alike from texts that differ in case only in front of their path. -/
theorem Pattern.parse?_of_caseEq {x y : Text} {p : Pattern} (h : CaseEqInFront x y)
    (hx : Pattern.parse? x = some p) : Pattern.parse? y = some p := by
  rw [parse?_eq_some_iff] at hx ⊢
  rcases hx with ⟨hstar, rfl⟩ | ⟨raw, hspelled, htext, hread⟩
  · left
    have hsame := h.caseEq_of_no_separator (by rw [hstar]; rfl)
    rw [hstar] at hsame
    exact ⟨hsame.eq_of_no_letter (by decide), rfl⟩
  · right
    obtain ⟨protocol, authority, hy, hprotocol, hsame⟩ :=
      h.exists_append hspelled.protocol.colon_notMem
      (fun c hc => (Url.counts_of_isSpelled hspelled c hc).1) hspelled.opens_path
      (by rw [htext, RawPattern.text, List.append_assoc])
    obtain ⟨host, port, rfl, hhost, hport⟩ := hsame.exists_append
    rw [hport.eq_of_no_letter (RawPattern.isBasicLetter_of_mem_portText hspelled.port)] at hy
    obtain ⟨hspelled', hread'⟩ := hspelled.caseEq hprotocol hhost
    refine ⟨_, hspelled', ?_, hread' ▸ hread⟩
    rw [hy, RawPattern.text, List.append_assoc]

/-! ## URLs -/

namespace Url

section Parts

variable {a b : Text}

/-- Host and port of an authority are cut off at marks, which are no letters. -/
theorem ofAuthority_small (t : Text) :
    HostPort.ofAuthority (t.map CodePoint.small) =
      ⟨(HostPort.ofAuthority t).host.map CodePoint.small,
        (HostPort.ofAuthority t).port.map CodePoint.small⟩ := by
  have hmark : ∀ mark : CodePoint, mark.isBasicLetter = false →
      ∀ c : CodePoint, c.small = mark ↔ c = mark := fun mark h c => CodePoint.small_eq_iff h
  have hpartition : ∀ mark : CodePoint, mark.isBasicLetter = false → ∀ t : Text,
      partition mark (t.map CodePoint.small) =
        Prod.map (List.map CodePoint.small) (List.map CodePoint.small) (partition mark t) := by
    intro mark h t
    rw [partition, partition, Text.cut?_map (hmark mark h)]
    cases t.cut? mark <;> rfl
  have huser : withoutUser (t.map CodePoint.small) = (withoutUser t).map CodePoint.small := by
    rw [withoutUser, withoutUser, Text.cutLast?_map (hmark _ (by decide))]
    cases t.cutLast? '@' <;> rfl
  simp only [HostPort.ofAuthority, huser, Text.cut?_map (hmark (CodePoint.ofChar '[') (by decide)),
    hpartition (CodePoint.ofChar ':') (by decide)]
  cases (withoutUser t).cut? '[' with
  | none => rfl
  | some cut =>
    simp only [Option.map_some, Prod.map, hpartition (CodePoint.ofChar ']') (by decide),
      hpartition (CodePoint.ofChar ':') (by decide)]

theorem ofAuthority_caseEq (h : CaseEq a b) :
    CaseEq (HostPort.ofAuthority a).host (HostPort.ofAuthority b).host ∧
      CaseEq (HostPort.ofAuthority a).port (HostPort.ofAuthority b).port := by
  have hparts := congrArg HostPort.ofAuthority h
  rw [ofAuthority_small, ofAuthority_small, HostPort.mk.injEq] at hparts
  exact hparts

/-- A port that can be read has no letters. -/
theorem readPort_caseEq {port : Option Nat} (h : CaseEq a b) (ha : readPort a = .ok port) :
    readPort b = .ok port := by
  have hletter : ∀ c ∈ a, c.isBasicLetter = false := by
    intro c hc
    rw [readPort, List.isEmpty_eq_false_iff.2 (List.ne_nil_of_mem hc), if_neg Bool.false_ne_true]
      at ha
    split at ha
    · cases ha
    · next hdigits =>
      have hdigit : c.isBasicDigit = true := by
        rw [Bool.not_eq_true', Bool.not_eq_false] at hdigits
        exact List.all_eq_true.1 hdigits c hc
      exact CodePoint.isBasicLetter_of_isBasicDigit hdigit
  rw [h.eq_of_no_letter hletter, ha]

theorem IsScheme.caseEq (h : IsScheme a) (hs : CaseEq a b) : IsScheme b := by
  constructor
  case head =>
    obtain ⟨c, hc, hletter⟩ := h.head
    obtain ⟨rest, rfl⟩ := List.head?_eq_some_iff.1 hc
    obtain ⟨d, others, rfl, hsame, -⟩ := hs.exists_cons
    refine ⟨d, rfl, ?_⟩
    exact hsame.forall_mem _ CodePoint.isBasicLetter_small (by simpa using hletter) d
      List.mem_cons_self
  case parts => exact hs.forall_mem _ isSchemePart_small h.parts

/-- An authority without brackets passes the check of its brackets. -/
theorem checkBrackets_of_notMem (hopen : CodePoint.ofChar '[' ∉ a)
    (hclose : CodePoint.ofChar ']' ∉ a) : checkBrackets a = .ok () := by
  rw [checkBrackets, Text.any_eq_false_iff.2 hopen, Text.any_eq_false_iff.2 hclose]
  rfl

end Parts

section Made

variable {t s name authority path name' authority' : Text} {port : Option Nat}
  (hmade : IsMade t name authority path) (hname : CaseEq name name')
  (hauthority : CaseEq authority authority')

include hmade hname hauthority

/-- A text that is put together from parts of the other case is made of these. -/
theorem IsMade.caseEq (hs : s = name' ++ Text.ofChars [':', '/', '/'] ++ authority' ++ path) :
    IsMade s name' authority' path := by
  have hcounts : ∀ c ∈ authority', (!endsAuthority c && !isIgnored c) = true :=
    hauthority.forall_mem _ (CodePoint.apply_small
      (f := fun c => !endsAuthority c && !isIgnored c) (by decide)) (by simpa using hmade.counts)
  exact ⟨hs, hmade.scheme.caseEq hname, by simpa using hcounts, hmade.ends⟩

theorem IsMade.url_caseEq (hmade' : IsMade s name' authority' path) :
    Split.url ⟨name'.lower, authority'⟩ s port = Split.url ⟨name.lower, authority⟩ t port := by
  have hhost := Text.lower_congr (ofAuthority_caseEq hauthority).1.symm
  rw [← lowerHost_eq_lower, ← lowerHost_eq_lower] at hhost
  have hpath := (hmade'.path_eq port).trans (hmade.path_eq port).symm
  simp only [Split.url] at hpath ⊢
  rw [hhost, hpath, Text.lower_congr hname.symm]

/-- A text that is put together from parts of the other case, without brackets in its authority, is
read alike. -/
theorem Split.Reads.caseEq (hreads : Split.Reads ⟨name.lower, authority⟩ t port)
    (hmade' : IsMade s name' authority' path)
    (hopen : CodePoint.ofChar '[' ∉ authority) (hclose : CodePoint.ofChar ']' ∉ authority) :
    Split.Reads ⟨name'.lower, authority'⟩ s port := by
  have hlower : name'.lower = name.lower := Text.lower_congr hname.symm
  obtain ⟨hhost, hport⟩ := ofAuthority_caseEq hauthority
  have hopening : CaseEq (Split.opening ⟨name.lower, authority⟩)
      (Split.opening ⟨name.lower, authority'⟩) :=
    CaseEq.append rfl hauthority
  have hwhole : CaseEq t s := by
    rw [hmade'.text_eq, hmade.text_eq]
    exact ((hname.append rfl).append hauthority).append rfl
  rw [hlower]
  constructor
  case brackets =>
    exact checkBrackets_of_notMem (hauthority.notMem (by decide) hopen)
      (hauthority.notMem (by decide) hclose)
  case compatible =>
    have hsame := hauthority.forall_mem (fun c => !c.hidesSeparator)
      (CodePoint.apply_small (f := fun c => !c.hidesSeparator) (by decide))
      (by simpa using hreads.compatible)
    simpa using hsame
  case port_eq => exact readPort_caseEq hport hreads.port_eq
  case scheme_ne => exact hreads.scheme_ne
  case authority_ne => exact hauthority.ne_nil hreads.authority_ne
  case host_ne => exact hhost.ne_nil hreads.host_ne
  case verbatim =>
    rw [← Text.lower_congr hopening, ← Text.lower_congr hwhole]
    exact hreads.verbatim

end Made

/-- The authority of a text holds no brackets. -/
def NoBrackets (source : Text) : Prop :=
  ∀ authority ∈ (Outline.of source.trim).authority,
    CodePoint.ofChar '[' ∉ authority ∧ CodePoint.ofChar ']' ∉ authority

instance (source : Text) : Decidable (NoBrackets source) :=
  inferInstanceAs (Decidable (∀ authority ∈ (Outline.of source.trim).authority, _))

theorem NoBrackets.caseEq {x y : Text} (hx : NoBrackets x) (h : CaseEqInFront x y) :
    NoBrackets y := by
  intro authority hauthority
  have hsame := congrArg Outline.authority h
  simp only [Outline.small, Option.mem_def.1 hauthority, Option.map_some,
    Option.map_eq_some_iff] at hsame
  obtain ⟨other, hother, hcase⟩ := hsame
  obtain ⟨hopen, hclose⟩ := hx other hother
  exact ⟨CaseEq.notMem hcase (by decide) hopen, CaseEq.notMem hcase (by decide) hclose⟩

/-- For the outline, the tabs and line ends in front of the path of a URL belong to its
authority. -/
theorem IsMade.exists_outline {t name authority path : Text} (h : IsMade t name authority path)
    (hcases : path = [] ∨ ∃ dropped rest, path = dropped ++ rest ∧
      (∀ c ∈ dropped, isIgnored c = true) ∧ RawPattern.IsPath rest) :
    ∃ dropped rest, path = dropped ++ rest ∧ (∀ c ∈ dropped, isIgnored c = true) ∧
      (∀ c ∈ authority ++ dropped, c.opensPath = false) ∧
      ∀ c ∈ rest.head?, c.opensPath = true := by
  have hfront : ∀ dropped : Text, (∀ c ∈ dropped, isIgnored c = true) →
      ∀ c ∈ authority ++ dropped, c.opensPath = false := by
    intro dropped hdropped c hc
    rcases List.mem_append.1 hc with hc | hc
    · exact (h.counts c hc).1
    · rw [← Bool.not_eq_true]
      intro hopens
      have hcounts := isIgnored_eq_false_of_endsAuthority hopens
      rw [hdropped c hc] at hcounts
      cases hcounts
  rcases hcases with rfl | ⟨dropped, rest, rfl, hdropped, c, hc, hopens⟩
  · exact ⟨[], [], rfl, List.forall_mem_nil _, hfront [] (List.forall_mem_nil _),
      fun _ hc => by cases hc⟩
  · exact ⟨dropped, rest, rfl, hdropped, hfront dropped hdropped,
      fun d hd => Option.mem_unique hc hd ▸ hopens⟩

/-- A URL is read alike from a text that differs in case only in front of its path. -/
theorem parse?_of_caseEq {x y : Text} {url : Url} (h : CaseEqInFront x y) (hx : NoBrackets x)
    (hurl : parse? x = some url) : parse? y = some url := by
  have hcases := path_cases hurl
  obtain ⟨port, hreads, rfl⟩ := parse?_eq_some_iff.1 hurl
  obtain ⟨name, authority, path, hmade⟩ := hreads.exists_isMade
  rw [hmade.split_eq] at hreads hcases ⊢
  rw [hmade.path_eq] at hcases
  obtain ⟨dropped, rest, rfl, hdropped, hfront, hrest⟩ := hmade.exists_outline hcases
  have hcolon : CodePoint.ofChar ':' ∉ name := Text.notMem_of_kind hmade.scheme.parts (by decide)
  have htext : x.trim = name ++ (separator ++ (authority ++ dropped ++ rest)) := by
    rw [hmade.text_eq]
    simp only [List.append_assoc]
    rfl
  obtain ⟨hopen, hclose⟩ := hx (authority ++ dropped) (by
    rw [htext, Outline.of_append hcolon hfront hrest]
    rfl)
  -- the other text is put together from the same path and parts of the other case
  obtain ⟨name', front, hy, hname, hsame⟩ := h.exists_append hcolon hfront hrest htext
  obtain ⟨authority', dropped', rfl, hauthority, hkept⟩ := hsame.exists_append
  obtain rfl := hkept.eq_of_no_letter fun c hc => (isIgnored_cases (hdropped c hc)).2.2.2.2
  have hmade' := hmade.caseEq hname hauthority (s := y.trim) (by
    rw [hy]
    simp only [List.append_assoc]
    rfl)
  refine parse?_eq_some_iff.2 ⟨port, ?_, ?_⟩
  · rw [hmade'.split_eq]
    exact hreads.caseEq hmade hname hauthority hmade'
      (fun hmem => hopen (List.mem_append_left _ hmem))
      (fun hmem => hclose (List.mem_append_left _ hmem))
  · rw [hmade'.split_eq]
    exact (hmade.url_caseEq hname hauthority hmade').symm

end Url

/-! ## Both readers -/

/-- Texts that differ only in blanks at their ends and in the case of letters of basic Latin in
front of their path are the same pattern, or none. Without brackets in the authority they are the
same URL, or none, and its path is what stands in both behind the authority. -/
theorem parse?_of_caseEqInFront {x y : Text} (h : CaseEqInFront x y) :
    Pattern.parse? y = Pattern.parse? x ∧
      (Url.NoBrackets x → Url.parse? y = Url.parse? x ∧
        ∀ url, Url.parse? x = some url →
          (∃ scheme authority, Url.IsCut x.trim url scheme authority) ∧
            ∃ scheme authority, Url.IsCut y.trim url scheme authority) := by
  refine ⟨Option.ext fun p => ⟨Pattern.parse?_of_caseEq h.symm, Pattern.parse?_of_caseEq h⟩,
    fun hx => ?_⟩
  have hsame : Url.parse? y = Url.parse? x := Option.ext fun url =>
    ⟨Url.parse?_of_caseEq h.symm (hx.caseEq h), Url.parse?_of_caseEq h hx⟩
  refine ⟨hsame, fun url hurl => ⟨(Url.exists_isCut hurl).1, ?_⟩⟩
  rw [← hsame] at hurl
  exact (Url.exists_isCut hurl).1

/-- A text that is both a pattern and a URL, with capitals in front of its path and in it. -/
theorem parse?_of_caseEqInFront_mixed :
    (Pattern.parse? (Text.ofString "HTTPS://A.Example:8443/A?b ")).isSome = true ∧
      (Url.parse? (Text.ofString "HTTPS://A.Example:8443/A?b ")).isSome = true ∧
      Pattern.parse? (Text.ofString " https://a.eXAMPLE:8443/A?b") =
        Pattern.parse? (Text.ofString "HTTPS://A.Example:8443/A?b ") ∧
      Url.parse? (Text.ofString " https://a.eXAMPLE:8443/A?b") =
        Url.parse? (Text.ofString "HTTPS://A.Example:8443/A?b ") := by
  have hcase : CaseEqInFront (Text.ofString "HTTPS://A.Example:8443/A?b ")
      (Text.ofString " https://a.eXAMPLE:8443/A?b") := by
    decide +kernel
  have hbrackets : Url.NoBrackets (Text.ofString "HTTPS://A.Example:8443/A?b ") := by
    decide +kernel
  obtain ⟨hpattern, hurl⟩ := parse?_of_caseEqInFront hcase
  exact ⟨by decide +kernel, by decide +kernel, hpattern, (hurl hbrackets).1⟩

/-- Between brackets the case of a `v` counts. -/
example : (Url.parse? (Text.ofString "x://[v1.a]")).isSome = true ∧
    Url.parse? (Text.ofString "x://[V1.a]") = none := by
  decide +kernel

end SiteRules
