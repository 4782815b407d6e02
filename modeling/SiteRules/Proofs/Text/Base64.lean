import SiteRules.Proofs.Text.CodePoint
import SiteRules.Text.Base64

/-!
# Bytes as text

Bytes are read from the text that spells them (`Base64.decode?_encodeLines`): each group of four
characters gives the three bytes it was made of, the last group fewer, and the line ends between the
lines are passed over.
-/

namespace SiteRules.Base64

/-! ## Characters -/

theorem value?_digit_of_lt : ∀ n < 64, value? (CodePoint.ofChar (digit n)) = some n := by
  decide +kernel

theorem digit_mod (n : Nat) : digit (n % 64) = digit n := by
  rw [digit, Nat.mod_mod, digit]

/-- Six bits are read from their character. -/
theorem value?_digit (n : Nat) : value? (CodePoint.ofChar (digit n)) = some (n % 64) := by
  rw [← digit_mod]
  exact value?_digit_of_lt _ (Nat.mod_lt _ (by decide))

theorem visible_digit (n : Nat) : 0x20 < (digit n).toNat ∧ (digit n).toNat < 0x7f := by
  have hall : ∀ n < 64, 0x20 < (digit n).toNat ∧ (digit n).toNat < 0x7f := by decide +kernel
  rw [← digit_mod]
  exact hall _ (Nat.mod_lt _ (by decide))

theorem digit_ne_pad (n : Nat) : CodePoint.ofChar (digit n) ≠ CodePoint.ofChar '=' := by
  intro heq
  have hvalue := value?_digit n
  rw [heq] at hvalue
  cases hvalue

/-- A character is taken for the next six bits. -/
theorem decodeFrom_digit (place left pads n : Nat) (rest : Text) :
    decodeFrom place left pads (CodePoint.ofChar (digit n) :: rest) =
      match place with
      | 0 => decodeFrom 1 (n % 64) 0 rest
      | 1 => (decodeFrom 2 (n % 64 % 16) 0 rest).map (UInt8.ofNat (left * 4 + n % 64 / 16) :: ·)
      | 2 => (decodeFrom 3 (n % 64 % 4) 0 rest).map (UInt8.ofNat (left * 16 + n % 64 / 4) :: ·)
      | _ => (decodeFrom 0 0 0 rest).map (UInt8.ofNat (left * 64 + n % 64) :: ·) := by
  rewrite [decodeFrom, if_neg (digit_ne_pad n), value?_digit]
  rfl

/-! ## Groups -/

theorem ofNat_eq_of_toNat {n : Nat} {b : UInt8} (h : n = b.toNat) : UInt8.ofNat n = b := by
  rw [h, UInt8.ofNat_toNat]

/-- Bytes are read from their groups of four characters. -/
theorem decode?_encode (bs : List UInt8) : decode? (Text.ofChars (encode bs)) = some bs := by
  unfold decode?
  induction bs using encode.induct with
  | case1 => rfl
  | case2 a =>
    have ha := a.toNat_lt
    simp only [encode, Text.ofChars, List.map_cons, List.map_nil, decodeFrom_digit]
    have hfirst : UInt8.ofNat (a.toNat / 4 % 64 * 4 + a.toNat % 4 * 16 % 64 / 16) = a :=
      ofNat_eq_of_toNat (by omega)
    rw [hfirst]
    rfl
  | case3 a b =>
    have ha := a.toNat_lt
    have hb := b.toNat_lt
    simp only [encode, Text.ofChars, List.map_cons, List.map_nil, decodeFrom_digit]
    have hfirst : UInt8.ofNat
        (a.toNat / 4 % 64 * 4 + (a.toNat % 4 * 16 + b.toNat / 16) % 64 / 16) = a :=
      ofNat_eq_of_toNat (by omega)
    have hsecond : UInt8.ofNat ((a.toNat % 4 * 16 + b.toNat / 16) % 64 % 16 * 16 +
        b.toNat % 16 * 4 % 64 / 4) = b :=
      ofNat_eq_of_toNat (by omega)
    rw [hfirst, hsecond]
    rfl
  | case4 a b c rest ih =>
    have ha := a.toNat_lt
    have hb := b.toNat_lt
    have hc := c.toNat_lt
    have hrest : decodeFrom 0 0 0 ((encode rest).map CodePoint.ofChar) = some rest := ih
    simp only [encode, Text.ofChars, List.map_cons, decodeFrom_digit, hrest, Option.map_some]
    have hfirst : UInt8.ofNat
        (a.toNat / 4 % 64 * 4 + (a.toNat % 4 * 16 + b.toNat / 16) % 64 / 16) = a :=
      ofNat_eq_of_toNat (by omega)
    have hsecond : UInt8.ofNat ((a.toNat % 4 * 16 + b.toNat / 16) % 64 % 16 * 16 +
        (b.toNat % 16 * 4 + c.toNat / 64) % 64 / 4) = b :=
      ofNat_eq_of_toNat (by omega)
    have hthird : UInt8.ofNat ((b.toNat % 16 * 4 + c.toNat / 64) % 64 % 4 * 64 +
        c.toNat % 64) = c :=
      ofNat_eq_of_toNat (by omega)
    rw [hfirst, hsecond, hthird]

/-! ## Lines -/

/-- Line ends are passed over. -/
theorem decodeFrom_filter (place left pads : Nat) (cs : List Char) :
    decodeFrom place left pads (Text.ofChars (cs.filter (· ≠ '\n'))) =
      decodeFrom place left pads (Text.ofChars cs) := by
  induction cs generalizing place left pads with
  | nil => rfl
  | cons c rest ih =>
    by_cases hc : c = '\n'
    · have hnone : value? (CodePoint.ofChar '\n') = none := by decide
      subst hc
      rw [List.filter_cons_of_neg (by decide), ih, Text.ofChars, Text.ofChars, List.map_cons,
        decodeFrom, if_neg (by decide), hnone]
    · have hkept : (c :: rest).filter (· ≠ '\n') = c :: rest.filter (· ≠ '\n') :=
        List.filter_cons_of_pos (by simpa using hc)
      simp only [Text.ofChars] at ih
      rw [hkept, Text.ofChars, Text.ofChars, List.map_cons, List.map_cons, decodeFrom, decodeFrom]
      simp only [ih]

/-- Bytes are spelled with visible characters of basic Latin. -/
theorem visible_of_mem_encode {bs : List UInt8} :
    ∀ c ∈ encode bs, 0x20 < c.toNat ∧ c.toNat < 0x7f := by
  induction bs using encode.induct with
  | case1 => exact List.forall_mem_nil _
  | case2 | case3 => simp [encode, visible_digit]
  | case4 a b c rest ih =>
    intro d hd
    simp only [encode, List.mem_cons] at hd
    rcases hd with rfl | rfl | rfl | rfl | hd
    · exact visible_digit _
    · exact visible_digit _
    · exact visible_digit _
    · exact visible_digit _
    · exact ih d hd

/-- The characters of a text in lines are those of the text and line ends. -/
theorem filter_lines {width fuel : Nat} (hwidth : 0 < width) {cs : List Char} (h : '\n' ∉ cs)
    (hfuel : cs.length < fuel) : (lines width fuel cs).filter (· ≠ '\n') = cs := by
  induction fuel generalizing cs with
  | zero => exact absurd hfuel (Nat.not_lt_zero _)
  | succ fuel ih =>
    rw [lines]
    split
    · next hempty => rw [List.isEmpty_iff.1 hempty, List.filter_nil]
    · next hne =>
      have hpos : 0 < cs.length := List.length_pos_iff.2 fun hnil => hne (hnil ▸ rfl)
      have htake : (cs.take width).filter (· ≠ '\n') = cs.take width :=
        List.filter_eq_self.2 fun c hc => decide_eq_true fun heq =>
          h (heq ▸ List.mem_of_mem_take hc)
      have hbreak : '\n' ∉ cs.drop width := fun hmem => h (List.mem_of_mem_drop hmem)
      have hrest := ih hbreak (by rw [List.length_drop]; omega)
      rw [List.filter_append, List.filter_cons_of_neg (by decide), htake, hrest,
        List.take_append_drop]

/-- Bytes are read from the lines that spell them. -/
theorem decode?_encodeLines (bs : List UInt8) :
    decode? (Text.ofChars (encodeLines bs)) = some bs := by
  have hbreak : '\n' ∉ encode bs := fun hmem =>
    absurd (visible_of_mem_encode _ hmem).1 (by decide)
  have hlines := filter_lines (show 0 < 76 by decide) hbreak
    (Nat.lt_succ_self (encode bs).length)
  rw [decode?, ← decodeFrom_filter, encodeLines, hlines]
  exact decode?_encode bs

end SiteRules.Base64
