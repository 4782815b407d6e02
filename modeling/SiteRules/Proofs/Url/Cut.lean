import SiteRules.Proofs.Url.Parser

/-!
# Where URLs are cut

The path of a URL is what is left of its text behind scheme and authority. The two are found in a
text from which tabs and line ends have been left out, and a text in which one of these stands
before the end of the authority is refused, since it does not begin with them in lower case
(`prefix_of_lower_prefix`). So scheme, authority and path give the text again (`exists_isCut`). But
a tab or a line end right behind the authority is not noticed: it becomes the beginning of the path,
which then is none that a pattern can have (`isExactCut_iff`).
-/

namespace SiteRules

/-- A path that is a part of a pattern begins with one of the code points that open it. -/
theorem Pattern.isPath_of_parse? {source : Text} {p : Pattern} (h : parse? source = some p) :
    ∀ t ∈ p.rule.path, RawPattern.IsPath t := by
  rcases parse?_eq_some_iff.1 h with ⟨-, rfl⟩ | ⟨raw, hspelled, -, hread⟩
  · intro t ht
    cases ht
  · obtain ⟨_, _, _, -, -, -, rfl⟩ := read_eq_some_iff.1 hread
    exact hspelled.path

namespace Url

/-! ## Tabs and line ends -/

/-- Tabs and line ends stay as they are in lower case, and part the text there. -/
theorem isIgnored_cases {c : CodePoint} (h : isIgnored c = true) :
    c.isCased = false ∧ c.isCaseIgnorable = false ∧ c.lower = [c] ∧ c.val < 0x80 ∧
      c.isBasicLetter = false := by
  simp only [isIgnored, Bool.or_eq_true, decide_eq_true_eq] at h
  rcases h with (rfl | rfl) | rfl <;> decide +kernel

/-- A text without tabs and line ends, or what stands in front of the first of them and behind. -/
theorem counts_or_split (t : Text) : (∀ c ∈ t, isIgnored c = false) ∨
    ∃ (front : Text) (c : CodePoint) (back : Text), t = front ++ c :: back ∧
      (∀ d ∈ front, isIgnored d = false) ∧ isIgnored c = true := by
  induction t with
  | nil => exact .inl (List.forall_mem_nil _)
  | cons c rest ih =>
    cases hc : isIgnored c with
    | true => exact .inr ⟨[], c, rest, rfl, List.forall_mem_nil _, hc⟩
    | false =>
      rcases ih with hrest | ⟨front, d, back, rfl, hfront, hd⟩
      · exact .inl (List.forall_mem_cons.2 ⟨hc, hrest⟩)
      · exact .inr ⟨c :: front, d, back, rfl, List.forall_mem_cons.2 ⟨hc, hfront⟩, hd⟩

theorem prefix_of_notMem {t front back : Text} {c : CodePoint} (h : t <+: front ++ c :: back)
    (hc : c ∉ t) : t <+: front := by
  rcases List.prefix_or_prefix_of_prefix h (List.prefix_append front (c :: back)) with hle | hge
  · exact hle
  · obtain ⟨more, rfl⟩ := hge
    rw [List.prefix_append_right_inj] at h
    cases more with
    | nil => simp
    | cons d others =>
      rw [List.cons_prefix_cons] at h
      exact absurd (List.mem_append_right _ (h.1 ▸ List.mem_cons_self)) hc

/-- If a text without its tabs and line ends begins with `whole`, and in lower case begins with a
text that has none of them and is as long as `whole` in lower case, then the text itself begins with
`whole`. -/
theorem prefix_of_lower_prefix {raw whole opening : Text}
    (hkept : whole <+: raw.filter fun c => !isIgnored c)
    (hcounts : ∀ c ∈ opening, isIgnored c = false) (hbegins : opening.lower <+: raw.lower)
    (hlength : opening.lower.length = whole.lower.length) : whole <+: raw := by
  rcases counts_or_split raw with hall | ⟨front, c, back, rfl, hfront, hignored⟩
  · rwa [filter_of_counts hall] at hkept
  · obtain ⟨hcased, hignorable, hself, hlatin, hletter⟩ := isIgnored_cases hignored
    -- in lower case, nothing as long as `whole` stands behind the first tab or line end
    have hshort : whole.lower.length ≤ front.lower.length := by
      have hnot : c ∉ opening.lower := by
        rw [Text.lower, Text.mem_lowerAfter_iff hlatin hletter]
        intro hmem
        rw [hcounts c hmem] at hignored
        cases hignored
      rw [Text.lower_append_mark hcased hignorable, hself, List.append_assoc] at hbegins
      rw [← hlength]
      exact (prefix_of_notMem hbegins hnot).length_le
    have hkeptFront : front <+: (front ++ c :: back).filter fun c => !isIgnored c := by
      rw [List.filter_append, filter_of_counts hfront]
      exact List.prefix_append _ _
    rcases List.prefix_or_prefix_of_prefix hkept hkeptFront with hle | ⟨more, rfl⟩
    · exact hle.trans (List.prefix_append _ _)
    · rw [Text.length_lower_append] at hshort
      have hnil : more = [] := by
        by_contra hne
        have hpos := List.length_pos_iff.2 (Text.lower_ne_nil hne)
        omega
      rw [hnil, List.append_nil]
      exact List.prefix_append _ _

/-! ## Schemes and authorities -/

theorem cutAuthority_cases (t : Text) : cutAuthority t = [] ∨
    ∃ tail, t = Text.ofChars ['/', '/'] ++ (cutAuthority t ++ tail) ∧
      (∀ c ∈ cutAuthority t, endsAuthority c = false) ∧
      ∀ c ∈ tail.head?, endsAuthority c = true := by
  match t with
  | [] | [_] => exact .inl rfl
  | a :: b :: rest =>
    by_cases hslashes : a = CodePoint.ofChar '/' ∧ b = CodePoint.ofChar '/'
    · have hcut : cutAuthority (a :: b :: rest) = rest.takeWhile fun c => !endsAuthority c := by
        rw [cutAuthority, if_pos hslashes]
      right
      rw [hcut]
      refine ⟨rest.dropWhile fun c => !endsAuthority c, ?_, fun c hc => ?_, fun c hc => ?_⟩
      · rw [List.takeWhile_append_dropWhile, hslashes.1, hslashes.2]
        rfl
      · simpa using List.mem_takeWhile_imp (p := fun c => !endsAuthority c) hc
      · simpa using Text.eq_false_of_mem_head?_dropWhile hc
    · left
      rw [cutAuthority, if_neg hslashes]

/-- A text that has a scheme and an authority begins with them, if what does not count is left out
of it. -/
theorem Split.ofText_cases (raw : Text) : (ofText raw).scheme = [] ∨ (ofText raw).authority = [] ∨
    ∃ name authority tail, IsScheme name ∧ ofText raw = ⟨name.lower, authority⟩ ∧
      (raw.dropWhile fun c => c.val ≤ 0x20).filter (fun c => !isIgnored c) =
        name ++ Text.ofChars [':', '/', '/'] ++ authority ++ tail ∧
      (∀ c ∈ authority, endsAuthority c = false ∧ isIgnored c = false) ∧
      ∀ c ∈ tail.head?, endsAuthority c = true := by
  unfold ofText
  generalize hkept : (raw.dropWhile fun c => c.val ≤ 0x20).filter (fun c => !isIgnored c) = kept
  dsimp only
  rcases cutScheme_cases kept with hnil | ⟨name, rest, hname, heq, hcut⟩
  · exact .inl hnil
  rw [hcut]
  dsimp only
  rcases cutAuthority_cases rest with hnil | ⟨tail, hrest, hends, htail⟩
  · exact .inr (.inl hnil)
  refine .inr (.inr ⟨name, _, tail, hname, rfl, ?_, fun c hc => ⟨hends c hc, ?_⟩, htail⟩)
  · rw [heq, List.append_assoc, List.append_assoc]
    conv_lhs => rw [hrest]
    rfl
  · have hmem : c ∈ kept := by
      rw [heq, hrest]
      simp [hc]
    rw [← hkept] at hmem
    simpa using (List.mem_filter.1 hmem).2

/-! ## Cuts -/

/-- A URL text consists of a scheme and an authority, which are those of the URL, and its path. -/
structure IsCut (t : Text) (url : Url) (scheme authority : Text) : Prop where
  text_eq : t = scheme ++ Text.ofChars [':', '/', '/'] ++ authority ++ url.path
  protocol_eq : scheme.lower = url.protocol
  authority_ne : authority ≠ []
  authority_counts : ∀ c ∈ authority, endsAuthority c = false ∧ isIgnored c = false

theorem IsScheme.opening_counts {name authority : Text} (hname : IsScheme name)
    (hauthority : ∀ c ∈ authority, isIgnored c = false) :
    ∀ c ∈ name ++ Text.ofChars [':', '/', '/'] ++ authority, isIgnored c = false := by
  intro c hc
  rw [List.mem_append, List.mem_append] at hc
  rcases hc with (hc | hc) | hc
  · exact isIgnored_eq_false_of_isSchemePart (hname.parts c hc)
  · revert c
    decide
  · exact hauthority c hc

/-- A text that in lower case begins with the scheme has no controls in front of it. -/
theorem Split.Reads.dropWhile_eq {raw : Text} {split : Split} {port : Option Nat}
    (h : split.Reads raw port) (hscheme : IsScheme split.scheme) :
    raw.dropWhile (fun c => c.val ≤ 0x20) = raw := by
  refine Text.dropWhile_eq_self fun c hc => decide_eq_false fun hle => ?_
  have hlatin : c.val < 0x80 := by omega
  have hletter : c.isBasicLetter = false := by
    rw [← Bool.not_eq_true, CodePoint.isBasicLetter_iff]
    omega
  -- such a control would begin the lower-case forms of both texts
  have hraw := (Text.head?_lowerAfter_eq_mark hlatin hletter [] raw).2 (Option.mem_def.1 hc)
  obtain ⟨d, hd, hdletter⟩ := hscheme.head
  have hopening : split.opening.head? = some d := by
    rw [opening, List.append_assoc, List.head?_append, Option.mem_def.1 hd]
    rfl
  obtain ⟨more, hmore⟩ := List.isPrefixOf_iff_prefix.1 h.verbatim
  have hne : split.opening.lower ≠ [] := by
    apply Text.lower_ne_nil
    intro hnil
    rw [hnil] at hopening
    cases hopening
  have hlower : split.opening.lower.head? = some c := by
    rw [← Text.lower, ← hmore, List.head?_append_of_ne_nil _ hne] at hraw
    exact hraw
  have hhead := (Text.head?_lowerAfter_eq_mark hlatin hletter [] split.opening).1 hlower
  rw [hopening, Option.some.injEq] at hhead
  rw [hhead, hletter] at hdletter
  cases hdletter

/-- A text is put together from a scheme, an authority and what follows. Tabs and line ends in front
of what ends the authority belong to what follows. -/
structure IsMade (t name authority path : Text) : Prop where
  text_eq : t = name ++ Text.ofChars [':', '/', '/'] ++ authority ++ path
  scheme : IsScheme name
  counts : ∀ c ∈ authority, endsAuthority c = false ∧ isIgnored c = false
  ends : ∀ c ∈ (path.filter fun c => !isIgnored c).head?, endsAuthority c = true

/-- A text is split where it was put together. -/
theorem IsMade.split_eq {t name authority path : Text} (h : IsMade t name authority path) :
    Split.ofText t = ⟨name.lower, authority⟩ := by
  rw [h.text_eq]
  exact Split.ofText_append_filter h.scheme h.counts h.ends

/-- Its path is what follows. -/
theorem IsMade.path_eq {t name authority path : Text} (h : IsMade t name authority path)
    (port : Option Nat) : (Split.url ⟨name.lower, authority⟩ t port).path = path := by
  rw [h.text_eq]
  exact Split.drop_opening_append h.scheme authority path

/-- A text whose parts are in order is put together from them. -/
theorem Split.Reads.exists_isMade {t : Text} {port : Option Nat}
    (h : (Split.ofText t).Reads t port) : ∃ name authority path, IsMade t name authority path := by
  rcases Split.ofText_cases t with hnil | hnil | ⟨name, authority, tail, hname, hsplit, hkept,
    hauthority, htail⟩
  · exact absurd hnil h.scheme_ne
  · exact absurd hnil h.authority_ne
  rw [hsplit] at h
  rw [h.dropWhile_eq hname.lower] at hkept
  have hcounts : ∀ c ∈ Split.opening ⟨name.lower, authority⟩, isIgnored c = false :=
    hname.lower.opening_counts fun c hc => (hauthority c hc).2
  have hlength : (Split.opening ⟨name.lower, authority⟩).lower.length =
      (name ++ Text.ofChars [':', '/', '/'] ++ authority).lower.length := by
    simp only [Split.opening, Text.length_lower_append, Text.lower_lower]
  have hwhole : name ++ Text.ofChars [':', '/', '/'] ++ authority <+: t := by
    refine prefix_of_lower_prefix ?_ hcounts (List.isPrefixOf_iff_prefix.1 h.verbatim) hlength
    rw [hkept]
    exact List.prefix_append _ _
  obtain ⟨path, rfl⟩ := hwhole
  have htail_eq : path.filter (fun c => !isIgnored c) = tail := by
    rw [List.filter_append,
      filter_of_counts (hname.opening_counts fun c hc => (hauthority c hc).2)] at hkept
    exact List.append_cancel_left hkept
  exact ⟨name, authority, path, rfl, hname, hauthority, htail_eq ▸ htail⟩

/-- Scheme, authority and path give the text again. Without what does not count, the path is empty
or begins with what ends the authority. -/
theorem exists_isCut {source : Text} {url : Url} (h : parse? source = some url) :
    (∃ scheme authority, IsCut source.trim url scheme authority) ∧
      ∀ c ∈ (url.path.filter fun c => !isIgnored c).head?, endsAuthority c = true := by
  obtain ⟨port, hreads, rfl⟩ := parse?_eq_some_iff.1 h
  obtain ⟨name, authority, path, hmade⟩ := hreads.exists_isMade
  rw [hmade.split_eq] at hreads ⊢
  rw [hmade.path_eq]
  refine ⟨⟨name, authority, ?_, (Text.lower_lower name).symm, hreads.authority_ne,
    hmade.counts⟩, hmade.ends⟩
  rw [hmade.path_eq, ← hmade.text_eq]

/-- Nothing, or a path that a pattern can have, possibly behind tabs and line ends, is left of a
text behind scheme and authority. -/
theorem path_cases {source : Text} {url : Url} (h : parse? source = some url) :
    url.path = [] ∨ ∃ dropped rest, url.path = dropped ++ rest ∧
      (∀ c ∈ dropped, isIgnored c = true) ∧ RawPattern.IsPath rest := by
  obtain ⟨⟨scheme, authority, hcut⟩, hends⟩ := exists_isCut h
  have hpath : url.path = url.path.takeWhile isIgnored ++ url.path.dropWhile isIgnored :=
    List.takeWhile_append_dropWhile.symm
  have hdropped : ∀ c ∈ url.path.takeWhile isIgnored, isIgnored c = true :=
    fun c hc => List.mem_takeWhile_imp hc
  cases hrest : url.path.dropWhile isIgnored with
  | nil =>
    left
    rw [hrest, List.append_nil] at hpath
    rw [← hpath] at hdropped
    -- a tab or a line end at the end of the text would have been trimmed off
    by_contra hne
    have hlast := List.getLast?_eq_some_getLast hne
    have htrim : source.trim.getLast? = some (url.path.getLast hne) := by
      rw [hcut.text_eq, List.getLast?_append, hlast, Option.some_or]
    have hcounts := isIgnored_eq_false_of_not_blank (Text.isBlank_of_mem_getLast?_trim _ htrim)
    rw [hdropped _ (List.getLast_mem hne)] at hcounts
    cases hcounts
  | cons c others =>
    have hhead : c ∈ (url.path.dropWhile isIgnored).head? := by
      rw [hrest, List.head?_cons, Option.mem_some]
    have hcounts := Text.eq_false_of_mem_head?_dropWhile hhead
    have hfilter : (url.path.filter fun d => !isIgnored d).head? = some c := by
      have hnone : (url.path.takeWhile isIgnored).filter (fun d => !isIgnored d) = [] :=
        List.filter_eq_nil_iff.2 fun d hd => by simp [hdropped d hd]
      rw [hpath, hrest, List.filter_append, hnone, List.nil_append, List.filter_cons, hcounts]
      rfl
    rw [hrest] at hpath
    exact .inr ⟨_, _, hpath, hdropped, c, rfl, hends c hfilter⟩

/-- A URL is an exact cut of a text: its path is all that stands behind scheme and authority, and a
pattern can have it, unless it is empty. -/
def IsExactCut (source : Text) (url : Url) : Prop :=
  (∃ scheme authority, IsCut source.trim url scheme authority) ∧
    (url.path = [] ∨ RawPattern.IsPath url.path)

/-- Scheme, authority and path of every URL give its text again, and the path is empty or one that a
pattern can have behind tabs and line ends. There are none of these, and the URL is an exact cut,
exactly if the path does not begin with one. -/
theorem isExactCut_iff {source : Text} {url : Url} (h : parse? source = some url) :
    (∃ scheme authority, IsCut source.trim url scheme authority) ∧
      (url.path = [] ∨ ∃ dropped rest, url.path = dropped ++ rest ∧
        (∀ c ∈ dropped, isIgnored c = true) ∧ RawPattern.IsPath rest) ∧
      (IsExactCut source url ↔ ∀ c ∈ url.path.head?, isIgnored c = false) := by
  have hcut := (exists_isCut h).1
  have hpath := path_cases h
  refine ⟨hcut, hpath, ?_, fun hcounts => ⟨hcut, ?_⟩⟩
  · rintro ⟨-, hnil | ⟨d, hd, hopens⟩⟩ c hc
    · rw [hnil] at hc
      cases hc
    · obtain rfl : c = d := Option.mem_unique hc hd
      exact isIgnored_eq_false_of_endsAuthority hopens
  · rcases hpath with hnil | ⟨dropped, rest, heq, hdropped, hrest⟩
    · exact .inl hnil
    · right
      cases dropped with
      | nil => rwa [heq, List.nil_append]
      | cons c others =>
        rw [heq] at hcounts
        have hc := hdropped c List.mem_cons_self
        rw [hcounts c rfl] at hc
        cases hc

/-- A scheme in capitals, a user, a port and a tab inside the path stand in no way. -/
theorem isExactCut_inner_tab :
    ∃ url, parse? (Text.ofString " HTTP://me@a:80/x\ty ") = some url ∧
      IsExactCut (Text.ofString " HTTP://me@a:80/x\ty ") url := by
  have hurl : parse? (Text.ofString " HTTP://me@a:80/x\ty ") =
      some ⟨Protocol.http, Text.ofString "a", some 80, Text.ofString "/x\ty", true⟩ := by
    decide +kernel
  exact ⟨_, hurl, (isExactCut_iff hurl).2.2.2 (by decide +kernel)⟩

/-- The path begins with a tab that stands right behind the authority, and no pattern has such a
path. -/
theorem not_isExactCut_tab :
    ∃ url, parse? (Text.ofString "http://a\t/x") = some url ∧
      ¬IsExactCut (Text.ofString "http://a\t/x") url ∧
      ∀ source p, Pattern.parse? source = some p → p.rule.path ≠ some url.path := by
  have hurl : parse? (Text.ofString "http://a\t/x") =
      some ⟨Protocol.http, Text.ofString "a", some 80, Text.ofString "\t/x", false⟩ := by
    decide +kernel
  have hpath : ¬RawPattern.IsPath (Text.ofString "\t/x") := by
    rintro ⟨c, hc, hopens⟩
    cases hc
    revert hopens
    decide
  refine ⟨_, hurl, ?_, fun source p hp heq => hpath (Pattern.isPath_of_parse? hp _ heq)⟩
  rintro ⟨-, hnil | hpath'⟩
  · revert hnil
    decide
  · exact hpath hpath'

end Url

end SiteRules
