import SiteRules.Pattern.Parser
import SiteRules.Proofs.Except
import SiteRules.Proofs.Number.Decimal
import SiteRules.Proofs.Text.Lower

/-!
# Theory of reading patterns

The spelling of each part of a pattern, and that a text is cut into parts exactly when it is put
together from such spellings (`RawPattern.ofText?_eq_some_iff`).
-/

namespace SiteRules

theorem CodePoint.val_le_of_isBracketedPart {c : CodePoint} (h : c.isBracketedPart = true) :
    c.val ≤ 0x66 := by
  simp only [isBracketedPart, isHexDigit, Bool.or_eq_true, Bool.and_eq_true, decide_eq_true_eq,
    isBasicDigit_iff, eq_ofChar_iff] at h
  simp only [Char.reduceToNat] at h
  omega

theorem CodePoint.isBracketedPart_small (c : CodePoint) :
    c.small.isBracketedPart = c.isBracketedPart :=
  apply_small (f := isBracketedPart) (by decide) c

namespace RawPattern

/-! ## The spelling of the parts -/

/-- A protocol is spelled `*`, or by a letter and what can follow it, with or without a `?`. -/
def IsProtocol (t : Text) : Prop :=
  t = star ∨ ∃ c rest, c.isProtocolLetter = true ∧ (∀ d ∈ rest, d.isProtocolPart = true) ∧
    (t = c :: rest ∨ t = c :: rest ++ [CodePoint.ofChar '?'])

/-- A run of host code points. -/
def IsRun (t : Text) : Prop :=
  t ≠ [] ∧ ∀ c ∈ t, c.isHostPart = true

/-- A text between brackets. -/
def bracket (t : Text) : Text :=
  CodePoint.ofChar '[' :: (t ++ [CodePoint.ofChar ']'])

/-- A host is spelled `*`, by a run, by a run after `*.`, or by what stands between brackets. -/
inductive IsHost : Text → Prop
  | star : IsHost star
  | run {t : Text} (h : IsRun t) : IsHost t
  | within {t : Text} (h : IsRun t) : IsHost (CodePoint.ofChar '*' :: CodePoint.ofChar '.' :: t)
  | bracketed {t : Text} (hne : t ≠ []) (h : ∀ c ∈ t, c.isBracketedPart = true) :
    IsHost (bracket t)

/-- A port is spelled `*`, or by one to five digits. -/
def IsPort (t : Text) : Prop :=
  t = star ∨ (1 ≤ t.length ∧ t.length ≤ 5 ∧ ∀ c ∈ t, c.isDigit = true)

/-- A path begins with one of the code points that open it. -/
def IsPath (t : Text) : Prop :=
  ∃ c ∈ t.head?, c.opensPath = true

/-- All parts are spelled as they have to be. -/
structure IsSpelled (raw : RawPattern) : Prop where
  protocol : IsProtocol raw.protocol
  host : IsHost raw.host
  port : ∀ t ∈ raw.port, IsPort t
  path : ∀ t ∈ raw.path, IsPath t

/-- A port with the colon in front of it. -/
def portText : Option Text → Text
  | none => []
  | some t => CodePoint.ofChar ':' :: t

theorem mem_portText {port : Option Text} {c : CodePoint} (h : c ∈ portText port) :
    c = CodePoint.ofChar ':' ∨ ∃ t ∈ port, c ∈ t := by
  cases port with
  | none => cases h
  | some t =>
    rcases List.mem_cons.1 h with heq | hc
    · exact .inl heq
    · exact .inr ⟨t, rfl, hc⟩

/-- The text of a pattern, part after part. -/
def text (raw : RawPattern) : Text :=
  raw.protocol ++ (separator ++ (raw.host ++ (portText raw.port ++ raw.path.getD [])))

/-! ## The cuts -/

theorem cutProtocol?_eq_some {t name rest : Text} (h : cutProtocol? t = some (name, rest)) :
    IsProtocol name ∧ t = name ++ rest := by
  cases t with
  | nil => cases h
  | cons c others =>
    rw [cutProtocol?] at h
    split at h
    · next hstar =>
      cases h
      subst hstar
      exact ⟨.inl rfl, rfl⟩
    · split at h
      · next hletter =>
        have hparts : ∀ d ∈ others.takeWhile CodePoint.isProtocolPart, d.isProtocolPart = true :=
          fun d hd => List.mem_takeWhile_imp hd
        have hothers :=
          List.takeWhile_append_dropWhile (p := CodePoint.isProtocolPart) (l := others)
        dsimp only at h
        split at h
        · next hrest =>
          cases h
          rw [hrest, List.append_nil] at hothers
          exact ⟨.inr ⟨c, _, hletter, hparts, .inl rfl⟩, by rw [hothers, List.append_nil]⟩
        · next d rest' hrest =>
          rw [hrest] at hothers
          split at h
          · next hmark =>
            cases h
            subst hmark
            refine ⟨.inr ⟨c, _, hletter, hparts, .inr rfl⟩, ?_⟩
            rw [List.append_assoc, List.cons_append]
            exact congrArg (c :: ·) hothers.symm
          · cases h
            exact ⟨.inr ⟨c, _, hletter, hparts, .inl rfl⟩, congrArg (c :: ·) hothers.symm⟩
      · cases h

theorem cutProtocol?_append {name rest : Text} (hname : IsProtocol name)
    (hrest : rest.head? = some (CodePoint.ofChar ':')) :
    cutProtocol? (name ++ rest) = some (name, rest) := by
  obtain ⟨others, rfl⟩ := List.head?_eq_some_iff.1 hrest
  rcases hname with rfl | ⟨c, run, hletter, hrun, rfl | rfl⟩
  · rfl
  · have hc : c ≠ CodePoint.ofChar '*' := CodePoint.ne_of_kind hletter (by decide)
    have hstop : ∀ d ∈ (CodePoint.ofChar ':' :: others).head?, d.isProtocolPart = false := by
      rintro d ⟨rfl⟩
      decide
    rw [List.cons_append, cutProtocol?, if_neg hc, if_pos hletter, Text.takeWhile_run hrun hstop,
      Text.dropWhile_run hrun hstop]
    rfl
  · have hc : c ≠ CodePoint.ofChar '*' := CodePoint.ne_of_kind hletter (by decide)
    have hstop : ∀ d ∈ (CodePoint.ofChar '?' :: CodePoint.ofChar ':' :: others).head?,
        d.isProtocolPart = false := by
      rintro d ⟨rfl⟩
      decide
    rw [List.append_assoc, List.cons_append, cutProtocol?, if_neg hc, if_pos hletter,
      List.cons_append, List.nil_append, Text.takeWhile_run hrun hstop,
      Text.dropWhile_run hrun hstop]
    rfl

theorem cutSeparator?_eq_some_iff {t rest : Text} :
    cutSeparator? t = some rest ↔ t = separator ++ rest := by
  rw [cutSeparator?]
  constructor
  · intro h
    split at h
    · next hfront =>
      obtain ⟨others, rfl⟩ := List.isPrefixOf_iff_prefix.1 hfront
      rw [List.drop_left] at h
      rw [Option.some.inj h]
    · cases h
  · rintro rfl
    rw [if_pos (List.isPrefixOf_iff_prefix.2 (List.prefix_append _ _)), List.drop_left]

theorem cutRun?_eq_some {t run rest : Text} (h : cutRun? t = some (run, rest)) :
    IsRun run ∧ t = run ++ rest := by
  rw [cutRun?] at h
  split at h
  · cases h
  · next hne =>
    cases h
    refine ⟨⟨fun hnil => hne hnil, fun c hc => List.mem_takeWhile_imp hc⟩, ?_⟩
    exact List.takeWhile_append_dropWhile.symm

theorem cutRun?_append {run rest : Text} (hrun : IsRun run)
    (hrest : ∀ c ∈ rest.head?, c.isHostPart = false) :
    cutRun? (run ++ rest) = some (run, rest) := by
  obtain ⟨c, others, rfl⟩ := List.exists_cons_of_ne_nil hrun.1
  rw [cutRun?, Text.takeWhile_run hrun.2 hrest, Text.dropWhile_run hrun.2 hrest]

theorem cutHost?_eq_some {t host rest : Text} (h : cutHost? t = some (host, rest)) :
    IsHost host ∧ t = host ++ rest := by
  cases t with
  | nil => cases h
  | cons c others =>
    rw [cutHost?.eq_def] at h
    dsimp only at h
    split at h
    · next hopen =>
      subst hopen
      have hothers := List.takeWhile_append_dropWhile (p := CodePoint.isBracketedPart) (l := others)
      split at h
      · cases h
      · cases h
      · next d rest' hrest hne =>
        split at h
        · next hclose =>
          cases h
          subst hclose
          refine ⟨.bracketed hne fun c hc => List.mem_takeWhile_imp hc, ?_⟩
          rw [hrest] at hothers
          rw [List.append_assoc, List.cons_append]
          exact congrArg (CodePoint.ofChar '[' :: ·) hothers.symm
        · cases h
    · split at h
      · next hstar =>
        subst hstar
        split at h
        · cases h
          exact ⟨.star, rfl⟩
        · next d rest' =>
          split at h
          · next hpoint =>
            subst hpoint
            obtain ⟨parts, hcut, hparts⟩ := Option.map_eq_some_iff.1 h
            cases hparts
            obtain ⟨hrun, heq⟩ := cutRun?_eq_some hcut
            exact ⟨.within hrun, by rw [heq]; rfl⟩
          · cases h
            exact ⟨.star, rfl⟩
      · obtain ⟨hrun, heq⟩ := cutRun?_eq_some h
        exact ⟨.run hrun, heq⟩

/-- What can stand behind a host: nothing, a port or a path. -/
def EndsHost (rest : Text) : Prop :=
  ∀ c ∈ rest.head?, c = CodePoint.ofChar ':' ∨ c.opensPath = true

theorem EndsHost.isHostPart {rest : Text} (h : EndsHost rest) :
    ∀ c ∈ rest.head?, c.isHostPart = false := by
  intro c hc
  rcases h c hc with rfl | hpath
  · decide
  · simp only [CodePoint.opensPath, Bool.or_eq_true, decide_eq_true_eq] at hpath
    rcases hpath with (rfl | rfl) | rfl <;> decide

theorem cutHost?_append {host rest : Text} (hhost : IsHost host) (hrest : EndsHost rest) :
    cutHost? (host ++ rest) = some (host, rest) := by
  cases hhost with
  | star =>
    cases rest with
    | nil => rfl
    | cons d rest' =>
      have hpoint : d ≠ CodePoint.ofChar '.' := by
        rintro rfl
        have hpart := hrest.isHostPart _ rfl
        exact absurd hpart (by decide)
      show cutHost? (CodePoint.ofChar '*' :: d :: rest') = _
      rw [cutHost?.eq_def]
      dsimp only
      rw [if_neg (by decide), if_pos rfl, if_neg hpoint]
      rfl
  | run hrun =>
    obtain ⟨c, others, rfl⟩ := List.exists_cons_of_ne_nil hrun.1
    have hc := hrun.2 c List.mem_cons_self
    have hopen : c ≠ CodePoint.ofChar '[' := CodePoint.ne_of_kind hc (by decide)
    have hstar : c ≠ CodePoint.ofChar '*' := CodePoint.ne_of_kind hc (by decide)
    rw [List.cons_append, cutHost?.eq_def]
    dsimp only
    rw [if_neg hopen, if_neg hstar]
    exact cutRun?_append hrun hrest.isHostPart
  | @within run hrun =>
    show cutHost? (CodePoint.ofChar '*' :: CodePoint.ofChar '.' :: (run ++ rest)) = _
    rw [cutHost?.eq_def]
    dsimp only
    rw [if_neg (by decide), if_pos rfl, if_pos rfl]
    show (cutRun? (run ++ rest)).map _ = _
    rw [cutRun?_append hrun hrest.isHostPart]
    rfl
  | @bracketed inner hne hparts =>
    have hstop : ∀ c ∈ (CodePoint.ofChar ']' :: rest).head?, c.isBracketedPart = false := by
      rintro c ⟨rfl⟩
      decide
    rw [bracket, List.cons_append, List.append_assoc, List.singleton_append, cutHost?.eq_def]
    dsimp only
    rw [if_pos rfl, Text.takeWhile_run hparts hstop, Text.dropWhile_run hparts hstop]
    obtain ⟨c, others, rfl⟩ := List.exists_cons_of_ne_nil hne
    rfl

theorem cutPort?_eq_some {t rest : Text} {port : Option Text} (h : cutPort? t = some (port, rest)) :
    (∀ p ∈ port, IsPort p) ∧ t = portText port ++ rest := by
  cases t with
  | nil =>
    cases h
    exact ⟨fun _ hp => (by cases hp), rfl⟩
  | cons c others =>
    rw [cutPort?.eq_def] at h
    dsimp only at h
    split at h
    · next hcolon =>
      subst hcolon
      cases others with
      | nil => cases h
      | cons d rest' =>
        dsimp only at h
        split at h
        · next hstar =>
          cases h
          subst hstar
          exact ⟨fun _ hp => by cases hp; exact .inl rfl, rfl⟩
        · split at h
          · next hlength =>
            cases h
            rw [Bool.and_eq_true, decide_eq_true_eq, decide_eq_true_eq] at hlength
            refine ⟨fun _ hp => ?_, ?_⟩
            · cases hp
              exact .inr ⟨hlength.1, hlength.2, fun c hc => List.mem_takeWhile_imp hc⟩
            · exact congrArg (CodePoint.ofChar ':' :: ·) List.takeWhile_append_dropWhile.symm
          · cases h
    · cases h
      exact ⟨fun _ hp => (by cases hp), rfl⟩

theorem cutPort?_append {port : Option Text} {rest : Text} (hport : ∀ p ∈ port, IsPort p)
    (hrest : ∀ c ∈ rest.head?, c.opensPath = true) :
    cutPort? (portText port ++ rest) = some (port, rest) := by
  cases port with
  | none =>
    cases rest with
    | nil => rfl
    | cons c others =>
      have hcolon : c ≠ CodePoint.ofChar ':' := CodePoint.ne_of_kind (hrest c rfl) (by decide)
      show cutPort? (c :: others) = _
      rw [cutPort?.eq_def]
      dsimp only
      rw [if_neg hcolon]
  | some digits =>
    show cutPort? (CodePoint.ofChar ':' :: (digits ++ rest)) = _
    rw [cutPort?.eq_def]
    dsimp only
    rw [if_pos rfl]
    rcases hport digits rfl with rfl | ⟨hmin, hmax, hdigits⟩
    · rfl
    · have hstop : ∀ c ∈ rest.head?, c.isDigit = false := by
        intro c hc
        have hpath := hrest c hc
        simp only [CodePoint.opensPath, Bool.or_eq_true, decide_eq_true_eq] at hpath
        rcases hpath with (rfl | rfl) | rfl <;> decide
      have htake := Text.takeWhile_run hdigits hstop
      have hdrop := Text.dropWhile_run hdigits hstop
      obtain ⟨d, others, rfl⟩ : ∃ d others, digits = d :: others :=
        List.exists_cons_of_length_pos hmin
      have hstar : d ≠ CodePoint.ofChar '*' :=
        CodePoint.ne_of_kind (hdigits d List.mem_cons_self) (by decide)
      rw [List.cons_append] at htake hdrop ⊢
      simp only [if_neg hstar, htake, hdrop, decide_eq_true hmin, decide_eq_true hmax,
        Bool.and_self, if_true]

theorem cutPath?_eq_some_iff {t : Text} {path : Option Text} :
    cutPath? t = some path ↔ (∀ q ∈ path, IsPath q) ∧ t = path.getD [] := by
  cases t with
  | nil =>
    constructor
    · intro h
      cases h
      exact ⟨fun _ hq => (by cases hq), rfl⟩
    · rintro ⟨hpath, hnil⟩
      cases path with
      | none => rfl
      | some q =>
        obtain ⟨c, hc, -⟩ := hpath q rfl
        rw [← show [] = q from hnil] at hc
        cases hc
  | cons c rest =>
    rw [cutPath?]
    constructor
    · intro h
      split at h
      · next hopens =>
        cases h
        exact ⟨fun q hq => by cases hq; exact ⟨c, rfl, hopens⟩, rfl⟩
      · cases h
    · rintro ⟨hpath, heq⟩
      cases path with
      | none => cases heq
      | some q =>
        obtain ⟨d, hd, hopens⟩ := hpath q rfl
        rw [← show c :: rest = q from heq] at hd ⊢
        cases hd
        rw [if_pos hopens]

theorem IsSpelled.opens_path {raw : RawPattern} (h : raw.IsSpelled) :
    ∀ c ∈ (raw.path.getD []).head?, c.opensPath = true := by
  intro c hc
  cases hpath : raw.path with
  | none =>
    rw [hpath] at hc
    cases hc
  | some t =>
    rw [hpath] at hc
    obtain ⟨d, hd, hopens⟩ := h.path t hpath
    obtain rfl : c = d := Option.mem_unique hc hd
    exact hopens

/-- A text is cut into parts exactly when it is put together from parts that are spelled as they
have to be. -/
theorem ofText?_eq_some_iff {t : Text} {raw : RawPattern} :
    ofText? t = some raw ↔ raw.IsSpelled ∧ t = raw.text := by
  simp only [ofText?, Option.bind_eq_bind, Option.bind_eq_some_iff, Prod.exists]
  constructor
  · rintro ⟨protocol, rest₁, hprotocol, rest₂, hseparator, host, rest₃, hhost, port, rest₄, hport,
      path, hpath, hraw⟩
    obtain ⟨hname, rfl⟩ := cutProtocol?_eq_some hprotocol
    obtain rfl := cutSeparator?_eq_some_iff.1 hseparator
    obtain ⟨hspelled, rfl⟩ := cutHost?_eq_some hhost
    obtain ⟨hnumber, rfl⟩ := cutPort?_eq_some hport
    obtain ⟨hopens, rfl⟩ := cutPath?_eq_some_iff.1 hpath
    cases hraw
    exact ⟨⟨hname, hspelled, hnumber, hopens⟩, rfl⟩
  · rintro ⟨h, rfl⟩
    -- each part stops where it does because what follows begins with a mark of its own
    have hpath := h.opens_path
    have hend : EndsHost (portText raw.port ++ raw.path.getD []) := by
      intro c hc
      cases hport : raw.port with
      | none =>
        rw [hport] at hc
        exact .inr (hpath c hc)
      | some digits =>
        rw [hport] at hc
        cases hc
        exact .inl rfl
    exact ⟨_, _, cutProtocol?_append h.protocol rfl, _, cutSeparator?_eq_some_iff.2 rfl, _, _,
      cutHost?_append h.host hend, _, _, cutPort?_append h.port hpath, _,
      cutPath?_eq_some_iff.2 ⟨h.path, rfl⟩, rfl⟩

/-! ## Blanks -/

theorem isBlank_of_isHostPart {c : CodePoint} (h : c.isHostPart = true) : c.isBlank = false := by
  rw [CodePoint.isHostPart, Bool.not_eq_true', Bool.or_eq_false_iff] at h
  exact h.2

theorem isBlank_of_isBracketedPart {c : CodePoint} (h : c.isBracketedPart = true) :
    c.isBlank = false := by
  have hle := CodePoint.val_le_of_isBracketedPart h
  exact CodePoint.forall_basicLatin
    (P := fun c => c.isBracketedPart = true → c.isBlank = false) (by decide) (by omega) h

theorem isProtocolPart_cases {c : CodePoint} (h : c.isProtocolPart = true) :
    c.val < 0x80 ∨ c.val ∈ [0x130, 0x131, 0x17f, 0x212a] := by
  simp only [CodePoint.isProtocolPart, CodePoint.isProtocolLetter, Bool.or_eq_true,
    decide_eq_true_eq, CodePoint.isBasicLetter_iff, CodePoint.isBasicDigit_iff,
    CodePoint.eq_ofChar_iff, Char.reduceToNat] at h
  simp only [List.mem_cons, List.not_mem_nil, or_false]
  omega

theorem isBlank_of_isProtocolPart {c : CodePoint} (h : c.isProtocolPart = true) :
    c.isBlank = false := by
  rcases isProtocolPart_cases h with hlatin | hpast
  · exact CodePoint.forall_basicLatin
      (P := fun c => c.isProtocolPart = true → c.isBlank = false) (by decide) hlatin h
  · have hall : ∀ n ∈ [0x130, 0x131, 0x17f, 0x212a], ∀ range ∈ CodePoint.blankRanges,
        n < range.1 ∨ range.2 < n := by
      decide
    rw [CodePoint.isBlank, CodePoint.isIn, List.any_eq_false]
    intro range hrange hin
    rw [Bool.and_eq_true, decide_eq_true_eq, decide_eq_true_eq] at hin
    have hout := hall _ hpast range hrange
    omega

theorem IsProtocol.isBlank {t : Text} (h : IsProtocol t) : ∀ c ∈ t, c.isBlank = false := by
  intro c hc
  rcases h with rfl | ⟨first, rest, hletter, hrest, hname⟩
  · rw [List.mem_singleton.1 hc]
    decide
  · have hfirst : first.isProtocolPart = true := by
      simp only [CodePoint.isProtocolPart, hletter, Bool.true_or]
    have hall : ∀ d ∈ first :: rest, d.isBlank = false :=
      List.forall_mem_cons.2 ⟨isBlank_of_isProtocolPart hfirst,
        fun d hd => isBlank_of_isProtocolPart (hrest d hd)⟩
    rcases hname with rfl | rfl
    · exact hall c hc
    · rcases List.mem_append.1 hc with hmem | hmark
      · exact hall c hmem
      · rw [List.mem_singleton.1 hmark]
        decide

theorem IsHost.isBlank {t : Text} (h : IsHost t) : ∀ c ∈ t, c.isBlank = false := by
  intro c hc
  cases h with
  | star =>
    rw [List.mem_singleton.1 hc]
    decide
  | run hrun => exact isBlank_of_isHostPart (hrun.2 c hc)
  | within hrun =>
    rcases List.mem_cons.1 hc with rfl | hc
    · decide
    · rcases List.mem_cons.1 hc with rfl | hc
      · decide
      · exact isBlank_of_isHostPart (hrun.2 c hc)
  | bracketed hne hparts =>
    rcases List.mem_cons.1 hc with rfl | hc
    · decide
    · rcases List.mem_append.1 hc with hpart | hclose
      · exact isBlank_of_isBracketedPart (hparts c hpart)
      · rw [List.mem_singleton.1 hclose]
        decide

theorem IsPort.isBlank {t : Text} (h : IsPort t) : ∀ c ∈ t, c.isBlank = false := by
  intro c hc
  rcases h with rfl | ⟨-, -, hdigits⟩
  · rw [List.mem_singleton.1 hc]
    decide
  · exact CodePoint.isBlank_of_isDigit (hdigits c hc)

/-- Blanks stand nowhere in a pattern but in its path. -/
theorem IsSpelled.isBlank {raw : RawPattern} (h : raw.IsSpelled) :
    ∀ c ∈ raw.text, c.isBlank = true → c ∈ raw.path.getD [] := by
  intro c hc hblank
  have hout : ∀ t : Text, (∀ d ∈ t, d.isBlank = false) → c ∉ t := by
    intro t ht hmem
    rw [ht c hmem] at hblank
    cases hblank
  rw [text, List.mem_append, List.mem_append, List.mem_append, List.mem_append] at hc
  rcases hc with hprotocol | hseparator | hhost | hport | hpath
  · exact absurd hprotocol (hout _ h.protocol.isBlank)
  · exact absurd hseparator (hout _ (by decide))
  · exact absurd hhost (hout _ h.host.isBlank)
  · cases hraw : raw.port with
    | none =>
      rw [hraw] at hport
      cases hport
    | some digits =>
      rw [hraw] at hport
      rcases List.mem_cons.1 hport with rfl | hdigit
      · cases hblank
      · exact absurd hdigit (hout _ (h.port digits hraw).isBlank)
  · exact hpath

/-! ## Lower case -/

theorem isHostPart_of_isBasicLetter {c : CodePoint} (h : c.isBasicLetter = true) :
    c.isHostPart = true := by
  have hlatin : c.val < 0x80 := by
    have hrange := CodePoint.isBasicLetter_iff.1 h
    omega
  exact CodePoint.forall_basicLatin (P := fun c => c.isBasicLetter = true → c.isHostPart = true)
    (by decide) hlatin h

theorem isHostPart_of_past_basicLatin {c : CodePoint} (h : 0x80 ≤ c.val)
    (hblank : c.isBlank = false) : c.isHostPart = true := by
  have hmark : ∀ mark : Char, mark.toNat < 0x80 → c ≠ CodePoint.ofChar mark := by
    rintro mark hmark rfl
    exact absurd h (Nat.not_le.2 hmark)
  simp only [CodePoint.isHostPart, hblank, decide_eq_false (hmark '/' (by decide)),
    decide_eq_false (hmark ':' (by decide)), decide_eq_false (hmark '?' (by decide)),
    decide_eq_false (hmark '#' (by decide)), decide_eq_false (hmark '*' (by decide)),
    decide_eq_false (hmark '[' (by decide)), decide_eq_false (hmark ']' (by decide)),
    Bool.or_self, Bool.not_false]

/-- A run of host code points stays one in lower case. -/
theorem isHostPart_of_mem_lower {t : Text} (h : ∀ c ∈ t, c.isHostPart = true) :
    ∀ d ∈ t.lower, d.isHostPart = true := by
  refine Text.forall_mem_lower (by decide) (by decide) fun c hc d hd => ?_
  rcases CodePoint.mem_lower_cases hd with rfl | hsmall | ⟨hpast, hformless⟩
  · exact h d hc
  · exact isHostPart_of_isBasicLetter (CodePoint.isBasicLetter_iff.2 (.inr hsmall))
  · refine isHostPart_of_past_basicLatin hpast ?_
    rw [CodePoint.isBlank, CodePoint.isIn, List.any_eq_false]
    intro range hrange hin
    rw [Bool.and_eq_true, decide_eq_true_eq, decide_eq_true_eq] at hin
    have hout := hformless range (List.mem_append_left _ (List.mem_append_right _ hrange))
    omega

theorem IsRun.lower {t : Text} (h : IsRun t) : IsRun t.lower :=
  ⟨Text.lower_ne_nil h.1, isHostPart_of_mem_lower h.2⟩

theorem lower_bracket {t : Text} (h : ∀ c ∈ t, c.isBracketedPart = true) :
    (bracket t).lower = bracket (t.map CodePoint.small) := by
  rw [Text.lower_eq_map_small]
  · rw [bracket, List.map_cons, List.map_append]
    rfl
  · intro c hc
    rw [bracket, List.mem_cons, List.mem_append, List.mem_singleton] at hc
    rcases hc with rfl | hpart | rfl
    · decide
    · have hle := CodePoint.val_le_of_isBracketedPart (h c hpart)
      omega
    · decide

/-! ## The parts that are read -/

theorem readHost_run {t : Text} (h : IsRun t) : readHost t = .ok (.exactly t) := by
  obtain ⟨c, rest, rfl⟩ := List.exists_cons_of_ne_nil h.1
  have hc := h.2 c List.mem_cons_self
  have hstar : c ≠ CodePoint.ofChar '*' := CodePoint.ne_of_kind hc (by decide)
  have hopen : c ≠ CodePoint.ofChar '[' := CodePoint.ne_of_kind hc (by decide)
  have hall : c :: rest ≠ star := fun heq => hstar (List.cons.inj heq).1
  simp only [readHost, if_neg hall, if_neg hstar, if_neg hopen]

theorem readHost_bracket (t : Text) : readHost (bracket t) = .ok (.exactly t) := by
  have hall : CodePoint.ofChar '[' :: (t ++ [CodePoint.ofChar ']']) ≠ star := fun heq =>
    absurd (List.cons.inj heq).1 (by decide)
  have hstar : CodePoint.ofChar '[' ≠ CodePoint.ofChar '*' := by decide
  simp only [bracket, readHost, if_neg hall, if_neg hstar, if_true, List.dropLast_concat]

/-- After an asterisk, a host part never stands for one host. -/
theorem readHost_star_ne (t host : Text) :
    readHost (CodePoint.ofChar '*' :: t) ≠ .ok (.exactly host) := by
  rw [readHost]
  split
  · exact fun h => by cases h
  · simp only [if_true]
    split
    · exact fun h => by cases h
    · exact fun h => by cases h

end RawPattern

/-- The hosts that a pattern can name: those that can be spelled with or without brackets. -/
def HostRule.IsName (host : Text) : Prop :=
  (∀ c ∈ host, c.isHostPart = true) ∨ ∀ c ∈ host, c.isBracketedPart = true

namespace RawPattern

/-- The one host that a host part stands for can be named. -/
theorem isName_of_readHost {t host : Text} (h : IsHost t)
    (hread : readHost t.lower = .ok (.exactly host)) : HostRule.IsName host := by
  cases h with
  | star => cases hread
  | run hrun =>
    rw [readHost_run hrun.lower] at hread
    cases hread
    exact .inl hrun.lower.2
  | within hrun => exact absurd hread (readHost_star_ne _ _)
  | @bracketed inner hne hparts =>
    rw [lower_bracket hparts, readHost_bracket] at hread
    cases hread
    refine .inr fun c hc => ?_
    obtain ⟨d, hd, rfl⟩ := List.mem_map.1 hc
    rw [CodePoint.isBracketedPart_small, hparts d hd]

end RawPattern

namespace Pattern

open RawPattern (readProtocol readHost readPort ofText?_eq_some_iff isName_of_readHost)

/-- A text is a pattern if it is `*`, or if it is put together from parts that can be read. -/
theorem parse?_eq_some_iff {source : Text} {p : Pattern} :
    parse? source = some p ↔ (source.trim = RawPattern.star ∧ p = .everything) ∨
      ∃ raw : RawPattern, raw.IsSpelled ∧ source.trim = raw.text ∧ raw.read.toOption = some p := by
  -- every text of parts has a separator, so none of them is `*`
  have hne : ∀ raw : RawPattern, raw.text ≠ RawPattern.star := by
    intro raw heq
    have hlength := congrArg List.length heq
    simp only [RawPattern.text, RawPattern.separator, RawPattern.star, Text.ofChars,
      List.length_append, List.length_map,
      List.length_cons, List.length_nil] at hlength
    omega
  rw [parse?, parse]
  generalize source.trim = t
  by_cases hstar : t = RawPattern.star
  · simp only [if_pos hstar]
    constructor
    · intro h
      exact .inl ⟨hstar, (Option.some.inj h).symm⟩
    · rintro (⟨-, rfl⟩ | ⟨raw, -, heq, -⟩)
      · rfl
      · exact absurd (heq.symm.trans hstar) (hne raw)
  · simp only [if_neg hstar]
    constructor
    · intro h
      right
      cases hcut : RawPattern.ofText? t with
      | none =>
        rw [hcut] at h
        cases h
      | some raw =>
        rw [hcut] at h
        obtain ⟨hspelled, heq⟩ := ofText?_eq_some_iff.1 hcut
        exact ⟨raw, hspelled, heq, h⟩
    · rintro (⟨heq, -⟩ | ⟨raw, hspelled, heq, hread⟩)
      · exact absurd heq hstar
      · rw [ofText?_eq_some_iff.2 ⟨hspelled, heq⟩]
        exact hread

/-- The parts of a rule are read from the parts of its text. -/
theorem read_eq_some_iff {raw : RawPattern} {p : Pattern} :
    raw.read.toOption = some p ↔ ∃ protocols hosts port,
      readProtocol raw.protocol.lower = .ok protocols ∧ readHost raw.host.lower = .ok hosts ∧
        readPort raw.port = .ok port ∧ p = .site ⟨protocols, hosts, port, raw.path⟩ := by
  simp only [RawPattern.read, toOption_bind_eq_some_iff]
  constructor
  · rintro ⟨protocols, hprotocol, hosts, hhost, port, hport, hp⟩
    exact ⟨protocols, hosts, port, hprotocol, hhost, hport, (Option.some.inj hp).symm⟩
  · rintro ⟨protocols, hosts, port, hprotocol, hhost, hport, rfl⟩
    exact ⟨protocols, hprotocol, hosts, hhost, port, hport, rfl⟩

/-- The one host that a pattern accepts can be named. -/
theorem isName_of_parse? {source host : Text} {protocols : ProtocolRule} {port : PortRule}
    {path : Option Text} (h : parse? source = some (.site ⟨protocols, .exactly host, port, path⟩)) :
    HostRule.IsName host := by
  rcases parse?_eq_some_iff.1 h with ⟨-, hp⟩ | ⟨raw, hspelled, -, hread⟩
  · cases hp
  · obtain ⟨_, _, _, -, hhost, -, hp⟩ := read_eq_some_iff.1 hread
    cases hp
    exact isName_of_readHost hspelled.host hhost

end Pattern

end SiteRules
