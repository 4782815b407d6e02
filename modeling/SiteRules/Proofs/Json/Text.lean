import SiteRules.Json.Reader
import SiteRules.Json.Writer
import SiteRules.Proofs.Text.Utf8

/-!
# Theory of JSON texts in quotes

A text without surrogates that has been written between quotes is read back
(`Json.scanText_quote`), code point by code point (`Json.scanText_escape`).
-/

namespace SiteRules

/-- The characters of a text, the replacement character standing for a surrogate. -/
def Text.chars (t : Text) : List Char :=
  t.map CodePoint.toChar

@[simp] theorem Text.chars_nil : chars [] = [] := rfl

@[simp] theorem Text.chars_cons (c : CodePoint) (t : Text) :
    chars (c :: t) = c.toChar :: t.chars := rfl

@[simp] theorem Text.chars_append (t u : Text) : (t ++ u).chars = t.chars ++ u.chars :=
  List.map_append

theorem Text.chars_ofChars (cs : List Char) : (ofChars cs).chars = cs :=
  map_toChar_ofChars cs

theorem Text.chars_ofString (s : String) : (ofString s).chars = s.toList :=
  chars_ofChars s.toList

namespace Json

/-- The three forms of a code point between quotes. -/
inductive EscapeForm (c : CodePoint) : Prop where
  /-- A backslash with a letter. -/
  | simple (ch e : Char) (eq : c = CodePoint.ofChar ch) (stands : simpleEscape? e = some ch)
    (ne : e ≠ 'u') (chars : (escape c).chars = ['\\', e])
  /-- The number of a control character. -/
  | control (low : c.val < 0x20) (chars : (escape c).chars = ("\\u" ++ hexDigits 4 c.val).toList)
  /-- The code point as it is. -/
  | plain (quote : c.toChar ≠ '"') (backslash : c.toChar ≠ '\\') (low : 0x20 ≤ c.toChar.toNat)
    (chars : (escape c).chars = [c.toChar])

theorem escape_cases {c : CodePoint} (hc : c.isSurrogate = false) : EscapeForm c := by
  have hchar := CodePoint.ofChar_toChar hc
  have hsimple (ch e : Char) (heq : c = CodePoint.ofChar ch) (he : simpleEscape? e = some ch)
      (hu : e ≠ 'u') (hescape : escape c = Text.ofChars ['\\', e]) : EscapeForm c :=
    .simple ch e heq he hu (by rw [hescape, Text.chars_ofChars])
  by_cases hquote : c = CodePoint.ofChar '"'
  · exact hsimple '"' '"' hquote rfl (by decide) (hquote ▸ rfl)
  by_cases hbackslash : c = CodePoint.ofChar '\\'
  · exact hsimple '\\' '\\' hbackslash rfl (by decide) (hbackslash ▸ rfl)
  by_cases hlf : c = CodePoint.ofChar '\n'
  · exact hsimple '\n' 'n' hlf rfl (by decide) (hlf ▸ rfl)
  by_cases hcr : c = CodePoint.ofChar '\r'
  · exact hsimple '\r' 'r' hcr rfl (by decide) (hcr ▸ rfl)
  by_cases htab : c = CodePoint.ofChar '\t'
  · exact hsimple '\t' 't' htab rfl (by decide) (htab ▸ rfl)
  by_cases hback : c = CodePoint.ofChar '\x08'
  · exact hsimple '\x08' 'b' hback rfl (by decide) (hback ▸ rfl)
  by_cases hfeed : c = CodePoint.ofChar '\x0c'
  · exact hsimple '\x0c' 'f' hfeed rfl (by decide) (hfeed ▸ rfl)
  have hescape : escape c =
      if c.val < 0x20 then Text.ofString ("\\u" ++ hexDigits 4 c.val) else [c] := by
    simp only [escape, if_neg hquote, if_neg hbackslash, if_neg hlf, if_neg hcr, if_neg htab,
      if_neg hback, if_neg hfeed]
  by_cases hlow : c.val < 0x20
  · refine .control hlow ?_
    rw [hescape, if_pos hlow, Text.chars_ofString]
  · have hval : c.toChar.toNat = c.val := congrArg CodePoint.val hchar
    refine .plain (fun h => hquote ?_) (fun h => hbackslash ?_) (by omega) ?_
    · rw [← hchar, h]
    · rw [← hchar, h]
    · rw [hescape, if_neg hlow]
      rfl

/-- The escape of a control character is the number in four digits. -/
theorem escape_control {n : Nat} (hn : n < 0x20) : ∃ a b, ("\\u" ++ hexDigits 4 n).toList =
      ['\\', 'u', '0', '0', a, b] ∧ hexValue? a = some (n / 16) ∧ hexValue? b = some (n % 16) := by
  have hall : ∀ n < 0x20, ("\\u" ++ hexDigits 4 n).toList =
      ['\\', 'u', '0', '0', Nat.digitChar (n / 16), Nat.digitChar (n % 16)] ∧
        hexValue? (Nat.digitChar (n / 16)) = some (n / 16) ∧
          hexValue? (Nat.digitChar (n % 16)) = some (n % 16) := by decide +kernel
  exact ⟨_, _, hall n hn⟩

section Scan

variable {opening : List Char} {fuel : Nat} {t : Text} {rest : List Char}

/-- A backslash with a letter is read as the code point that it stands for. -/
theorem scanText_simple {e c : Char} {tail : List Char} (he : simpleEscape? e = some c)
    (hu : e ≠ 'u') (hscan : scanText opening fuel tail = .ok (t, rest)) :
    scanText opening (fuel + 1) ('\\' :: e :: tail) = .ok (CodePoint.ofChar c :: t, rest) := by
  rw [scanText, he]
  · dsimp only
    rw [hscan]
    rfl
  · exact hu

/-- A control character is read from its number. -/
theorem scanText_control {c : CodePoint} (hc : c.val < 0x20) {next : Char} {tail : List Char}
    (hscan : scanText opening fuel (next :: tail) = .ok (t, rest)) :
    scanText opening (fuel + 1) (("\\u" ++ hexDigits 4 c.val).toList ++ next :: tail) =
      .ok (c :: t, rest) := by
  obtain ⟨a, b, htext, ha, hb⟩ := escape_control hc
  have hdigits : fourDigits? ('0' :: '0' :: a :: b :: next :: tail) =
      some (c.val, next :: tail) := by
    have hvalue : c.val / 16 * 16 + c.val % 16 = c.val := by omega
    have hzero : hexValue? '0' = some 0 := rfl
    simp [fourDigits?, hzero, ha, hb, hvalue]
  -- so small a number is not taken for the first half of a pair
  have hescape : scanHexEscape ('0' :: '0' :: a :: b :: next :: tail) = .ok (c, next :: tail) := by
    have hlow : ¬(decide (0xd800 ≤ c.val) && decide (c.val ≤ 0xdbff)) = true := by
      simp
      omega
    have hnat : CodePoint.ofNat c.val = c := dif_pos c.isLt
    rw [scanHexEscape, hdigits]
    dsimp only
    rw [if_neg hlow, hnat]
  rw [htext]
  show scanText opening (fuel + 1) ('\\' :: 'u' :: '0' :: '0' :: a :: b :: next :: tail) = _
  rw [scanText, hescape]
  exact congrArg (· >>= fun parts => Except.ok (c :: parts.1, parts.2)) hscan

/-- A character that needs no escape is read as it is. -/
theorem scanText_plain {c : Char} (hquote : c ≠ '"') (hbackslash : c ≠ '\\') (hc : 0x20 ≤ c.toNat)
    {tail : List Char} (hscan : scanText opening fuel tail = .ok (t, rest)) :
    scanText opening (fuel + 1) (c :: tail) = .ok (CodePoint.ofChar c :: t, rest) := by
  rw [scanText, if_neg (Nat.not_lt.2 hc), hscan]
  · rfl
  · exact hquote
  · exact fun h _ => hbackslash h
  · exact fun _ h _ => hbackslash h
  · exact fun _ _ h _ => hbackslash h

/-- A code point is read from its form between quotes. -/
theorem scanText_escape {c : CodePoint} (hc : c.isSurrogate = false) {next : Char}
    {tail : List Char} (hscan : scanText opening fuel (next :: tail) = .ok (t, rest)) :
    scanText opening (fuel + 1) ((escape c).chars ++ next :: tail) = .ok (c :: t, rest) := by
  cases escape_cases hc with
  | simple ch e heq he hu hchars =>
    subst heq
    rw [hchars]
    exact scanText_simple he hu hscan
  | control hlow hchars =>
    rw [hchars]
    exact scanText_control hlow hscan
  | plain hquote hbackslash hlow hchars =>
    have hplain := scanText_plain hquote hbackslash hlow hscan
    rw [CodePoint.ofChar_toChar hc] at hplain
    rw [hchars]
    exact hplain

/-- A text is read up to the quote that closes it. -/
theorem scanText_quote (ht : ∀ c ∈ t, c.isSurrogate = false) (hfuel : t.length < fuel)
    (rest : List Char) :
    scanText opening fuel (Text.chars (t.flatMap escape) ++ '"' :: rest) = .ok (t, rest) := by
  induction t generalizing fuel with
  | nil =>
    obtain ⟨n, rfl⟩ : ∃ n, fuel = n + 1 := ⟨fuel - 1, by simp at hfuel; omega⟩
    rfl
  | cons c t ih =>
    obtain ⟨n, rfl⟩ : ∃ n, fuel = n + 1 := ⟨fuel - 1, by simp at hfuel; omega⟩
    obtain ⟨hc, ht⟩ := List.forall_mem_cons.1 ht
    have hrest := ih ht (Nat.lt_of_succ_lt_succ hfuel)
    have hne : Text.chars (t.flatMap escape) ++ '"' :: rest ≠ [] :=
      List.append_ne_nil_of_right_ne_nil _ (List.cons_ne_nil _ _)
    -- something always follows, and this keeps the four digits of an escape from ending the text
    obtain ⟨next, tail, heq⟩ := List.exists_cons_of_ne_nil hne
    rw [heq] at hrest
    rw [List.flatMap_cons, Text.chars_append, List.append_assoc, heq]
    exact scanText_escape hc hrest

end Scan

/-! ## What a quoted text holds -/

/-- A surrogate is not escaped, and no escape holds one. -/
theorem mem_escape_iff {c d : CodePoint} (hc : c.isSurrogate = true) : c ∈ escape d ↔ c = d := by
  have hne := CodePoint.ne_ofChar_of_isSurrogate hc
  by_cases hd : d.isSurrogate = true
  · have hlow : ¬d.val < 0x20 := by
      rw [CodePoint.isSurrogate, Bool.and_eq_true, decide_eq_true_eq, decide_eq_true_eq] at hd
      omega
    have hned := CodePoint.ne_ofChar_of_isSurrogate hd
    rw [escape, if_neg (hned _), if_neg (hned _), if_neg (hned _), if_neg (hned _),
      if_neg (hned _), if_neg (hned _), if_neg (hned _), if_neg hlow, List.mem_singleton]
  · have hcd : c ≠ d := by
      rintro rfl
      exact hd hc
    refine iff_of_false (fun hmem => ?_) hcd
    unfold escape at hmem
    split_ifs at hmem
    case neg => exact hcd (List.mem_singleton.1 hmem)
    all_goals simp [hne, Text.ofString, Text.notMem_ofChars hc] at hmem

/-- The surrogates of a text are the same between quotes. -/
theorem mem_quote_iff {c : CodePoint} (hc : c.isSurrogate = true) {t : Text} :
    c ∈ quote t ↔ c ∈ t := by
  have hne := CodePoint.ne_ofChar_of_isSurrogate hc
  simp [quote, hne, mem_escape_iff hc]

theorem isSurrogate_of_mem_quote {t : Text} (h : ∀ c ∈ quote t, c.isSurrogate = false) :
    ∀ c ∈ t, c.isSurrogate = false := by
  intro c hc
  refine Bool.eq_false_iff.2 fun hsurrogate => ?_
  exact Bool.eq_false_iff.1 (h c ((mem_quote_iff hsurrogate).2 hc)) hsurrogate

theorem chars_quote (t : Text) :
    (quote t).chars = '"' :: (Text.chars (t.flatMap escape) ++ ['"']) := by
  rw [quote, Text.chars_cons, Text.chars_append]
  rfl

/-- A carriage return is escaped. -/
theorem return_notMem_quote {t : Text} (ht : ∀ c ∈ t, c.isSurrogate = false) :
    '\r' ∉ (quote t).chars := by
  have hescape : ∀ c ∈ t, '\r' ∉ (escape c).chars := by
    intro c hc hmem
    cases escape_cases (ht c hc) with
    | simple ch e heq he hu hchars =>
      have hletter : e ≠ '\r' := by
        rintro rfl
        cases he
      simp [hchars, hletter.symm] at hmem
    | control hlow hchars =>
      obtain ⟨a, b, htext, ha, hb⟩ := escape_control hlow
      have hfirst : a ≠ '\r' := by
        rintro rfl
        cases ha
      have hsecond : b ≠ '\r' := by
        rintro rfl
        cases hb
      simp [hchars, htext, hfirst.symm, hsecond.symm] at hmem
    | plain hquote hbackslash hlow hchars =>
      rw [hchars, List.mem_singleton] at hmem
      rw [← hmem] at hlow
      exact absurd hlow (by decide)
  rw [chars_quote]
  simp only [List.mem_cons, List.mem_append, List.not_mem_nil, or_false, not_or]
  refine ⟨by decide, fun hmem => ?_, by decide⟩
  obtain ⟨d, hd, heq⟩ := List.mem_map.1 hmem
  obtain ⟨c, hc, hdc⟩ := List.mem_flatMap.1 hd
  exact hescape c hc (List.mem_map.2 ⟨d, hdc, heq⟩)

end Json

end SiteRules
