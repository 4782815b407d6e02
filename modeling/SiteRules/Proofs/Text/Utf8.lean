import Mathlib.Data.List.TakeWhile
import SiteRules.Text.Utf8

/-!
# Theory of UTF-8

A text is encoded unless it holds a surrogate (`Utf8.encodeText_eq_ok_iff`), and characters hold
none.
-/

namespace SiteRules

/-- A character is no surrogate. -/
theorem CodePoint.isSurrogate_ofChar (c : Char) : (CodePoint.ofChar c).isSurrogate = false := by
  have hval : (ofChar c).val = c.val.toNat := rfl
  rw [← Bool.not_eq_true, isSurrogate, Bool.and_eq_true, decide_eq_true_eq, decide_eq_true_eq, hval]
  rintro ⟨hlow, hhigh⟩
  rcases c.valid with hvalid | ⟨hvalid, -⟩
  · have hvalid : c.val.toNat < 0xd800 := hvalid
    omega
  · have hvalid : 0xdfff < c.val.toNat := hvalid
    omega

/-- No character is a surrogate. -/
theorem CodePoint.ne_ofChar_of_isSurrogate {c : CodePoint} (h : c.isSurrogate = true) (ch : Char) :
    c ≠ ofChar ch := by
  rintro rfl
  rw [isSurrogate_ofChar] at h
  cases h

/-- Characters are no surrogates. -/
theorem Text.notMem_ofChars {c : CodePoint} (h : c.isSurrogate = true) (cs : List Char) :
    c ∉ ofChars cs := by
  intro hmem
  obtain ⟨ch, -, rfl⟩ := List.mem_map.1 hmem
  exact CodePoint.ne_ofChar_of_isSurrogate h ch rfl

theorem CodePoint.ofChar_toChar {c : CodePoint} (h : c.isSurrogate = false) :
    ofChar c.toChar = c := by
  have hvalid : c.val.isValidChar := by
    have hlt := c.isLt
    rw [isSurrogate, Bool.and_eq_false_iff, decide_eq_false_iff_not, decide_eq_false_iff_not] at h
    unfold Nat.isValidChar
    omega
  refine CodePoint.ext ?_
  rw [toChar, h, if_neg Bool.false_ne_true, Char.ofNat, dif_pos hvalid]
  rfl

theorem CodePoint.toChar_ofChar (c : Char) : (ofChar c).toChar = c := by
  rw [toChar, isSurrogate_ofChar, if_neg Bool.false_ne_true]
  exact Char.ofNat_toNat c

theorem Text.map_toChar_ofChars (cs : List Char) : (ofChars cs).map CodePoint.toChar = cs := by
  rw [ofChars, List.map_map]
  exact (List.map_congr_left fun c _ => CodePoint.toChar_ofChar c).trans (List.map_id' cs)

namespace Utf8

theorem encodeError?_eq_none_iff {cannot : CodePoint → Bool} {t : Text} :
    encodeError? cannot t = none ↔ ∀ c ∈ t, cannot c = false := by
  unfold encodeError?
  split
  · next hnil =>
    rw [List.dropWhile_eq_nil_iff] at hnil
    simpa using hnil
  · next c rest hcons =>
    have hmem : c ∈ t := (List.dropWhile_sublist _).subset (hcons ▸ List.mem_cons_self)
    have hcannot : cannot c = true := by
      have hhead := List.head?_dropWhile_not (fun c => !cannot c) t
      rw [hcons] at hhead
      simpa using hhead
    simp only [reduceCtorEq, false_iff]
    intro hall
    rw [hall c hmem] at hcannot
    cases hcannot

/-- The bytes of a text are those of its characters. -/
theorem encodeText_eq_ok_iff {t : Text} {content : List UInt8} :
    encodeText t = .ok content ↔
      (∀ c ∈ t, c.isSurrogate = false) ∧ encode (t.map CodePoint.toChar) = content := by
  unfold encodeText
  rw [← encodeError?_eq_none_iff]
  split
  · next hnone => simp [hnone]
  · next e hsome => simp [hsome]

/-! ## Decoding what has been encoded -/

section Decode

variable {rest : List UInt8} {cs : List Char}

theorem toNat_ofNat {m : Nat} (hm : m < 0x100) : (UInt8.ofNat m).toNat = m :=
  UInt8.toNat_ofNat_of_lt' hm

theorem decodeFrom_small {b : UInt8} (hb : b.toNat < 0x80)
    (hrest : ∀ position, decodeFrom position rest = .ok cs) (position : Nat) :
    decodeFrom position (b :: rest) = .ok (Char.ofNat b.toNat :: cs) := by
  rw [decodeFrom, if_pos hb, hrest]
  rfl

/-- A leading byte with what it announces makes a character. -/
theorem decodeFrom_lead {b : UInt8} {tail : List UInt8} {l : Lead} {n : Nat}
    (hb : ¬b.toNat < 0x80) (hlead : lead? b.toNat = some l)
    (htail : continuation l.following l.least l.greatest l.payload 1 tail = .ok (n, rest))
    (hrest : ∀ position, decodeFrom position rest = .ok cs) (position : Nat) :
    decodeFrom position (b :: tail) = .ok (Char.ofNat n :: cs) := by
  rw [decodeFrom, if_neg hb, hlead]
  dsimp only
  split
  · next hread =>
    rw [htail] at hread
    cases hread
  · next hread =>
    rw [htail] at hread
    cases hread
    rw [hrest]
    rfl

theorem continuation_cons {n least greatest payload read m : Nat} {bytes : List UInt8}
    (hm : m < 0x100) (hleast : least ≤ m) (hgreatest : m ≤ greatest) :
    continuation (n + 1) least greatest payload read (UInt8.ofNat m :: bytes) =
      continuation n 0x80 0xbf (payload * 64 + (m - 0x80)) (read + 1) bytes := by
  rw [continuation, toNat_ofNat hm, if_pos (by simp [hleast, hgreatest])]

section Sequences

variable (hrest : ∀ position, decodeFrom position rest = .ok cs) (position : Nat) {v : Nat}

include hrest

theorem decodeFrom_two (hlow : 0x80 ≤ v) (hhigh : v < 0x800) :
    decodeFrom position (UInt8.ofNat (v / 64 % 32 + 192) :: UInt8.ofNat (v % 64 + 128) :: rest) =
      .ok (Char.ofNat v :: cs) := by
  have hfirst : (UInt8.ofNat (v / 64 % 32 + 192)).toNat = v / 64 % 32 + 192 :=
    toNat_ofNat (by omega)
  have hlead : lead? (v / 64 % 32 + 192) = some ⟨v / 64 % 32, 1, 0x80, 0xbf⟩ := by
    rw [lead?, if_neg (by omega), if_pos (by omega), Nat.add_sub_cancel]
  have hvalue : v / 64 % 32 * 64 + (v % 64 + 128 - 0x80) = v := by omega
  refine decodeFrom_lead (by omega) (by rw [hfirst, hlead]) ?_ hrest position
  dsimp only
  rw [continuation_cons (by omega) (by omega) (by omega), continuation, hvalue]

/-- A surrogate would have such bytes, too, but their second one is out of its range. -/
theorem decodeFrom_three (hlow : 0x800 ≤ v) (hhigh : v < 0x10000)
    (hchar : v < 0xd800 ∨ 0xdfff < v) :
    decodeFrom position (UInt8.ofNat (v / 4096 % 16 + 224) :: UInt8.ofNat (v / 64 % 64 + 128) ::
      UInt8.ofNat (v % 64 + 128) :: rest) = .ok (Char.ofNat v :: cs) := by
  have hfirst : (UInt8.ofNat (v / 4096 % 16 + 224)).toNat = v / 4096 % 16 + 224 :=
    toNat_ofNat (by omega)
  have hlead : lead? (v / 4096 % 16 + 224) = some ⟨v / 4096 % 16, 2,
      if v / 4096 % 16 + 224 = 0xe0 then 0xa0 else 0x80,
      if v / 4096 % 16 + 224 = 0xed then 0x9f else 0xbf⟩ := by
    rw [lead?, if_neg (by omega), if_neg (by omega), if_pos (by omega), Nat.add_sub_cancel]
  have hvalue : (v / 4096 % 16 * 64 + (v / 64 % 64 + 128 - 0x80)) * 64 +
      (v % 64 + 128 - 0x80) = v := by omega
  refine decodeFrom_lead (by omega) (by rw [hfirst, hlead]) ?_ hrest position
  dsimp only
  rw [continuation_cons (by omega) (by split <;> omega) (by split <;> omega),
    continuation_cons (by omega) (by omega) (by omega), continuation, hvalue]

theorem decodeFrom_four (hlow : 0x10000 ≤ v) (hhigh : v < 0x110000) :
    decodeFrom position (UInt8.ofNat (v / 262144 % 8 + 240) :: UInt8.ofNat (v / 4096 % 64 + 128) ::
      UInt8.ofNat (v / 64 % 64 + 128) :: UInt8.ofNat (v % 64 + 128) :: rest) =
      .ok (Char.ofNat v :: cs) := by
  have hfirst : (UInt8.ofNat (v / 262144 % 8 + 240)).toNat = v / 262144 % 8 + 240 :=
    toNat_ofNat (by omega)
  have hlead : lead? (v / 262144 % 8 + 240) = some ⟨v / 262144 % 8, 3,
      if v / 262144 % 8 + 240 = 0xf0 then 0x90 else 0x80,
      if v / 262144 % 8 + 240 = 0xf4 then 0x8f else 0xbf⟩ := by
    rw [lead?, if_neg (by omega), if_neg (by omega), if_neg (by omega), if_pos (by omega),
      Nat.add_sub_cancel]
  have hvalue : ((v / 262144 % 8 * 64 + (v / 4096 % 64 + 128 - 0x80)) * 64 +
      (v / 64 % 64 + 128 - 0x80)) * 64 + (v % 64 + 128 - 0x80) = v := by omega
  refine decodeFrom_lead (by omega) (by rw [hfirst, hlead]) ?_ hrest position
  dsimp only
  rw [continuation_cons (by omega) (by split <;> omega) (by split <;> omega),
    continuation_cons (by omega) (by omega) (by omega),
    continuation_cons (by omega) (by omega) (by omega), continuation, hvalue]

/-- The bytes of a character make the character. -/
theorem decodeFrom_utf8EncodeChar (c : Char) :
    decodeFrom position (String.utf8EncodeChar c ++ rest) = .ok (c :: cs) := by
  have hchar : Char.ofNat c.val.toNat = c := Char.ofNat_toNat c
  have hvalid : c.val.toNat < 0xd800 ∨ 0xdfff < c.val.toNat ∧ c.val.toNat < 0x110000 := c.valid
  rw [String.utf8EncodeChar]
  generalize c.val.toNat = v at hchar hvalid
  rw [← hchar]
  split
  · have hsmall : (UInt8.ofNat v).toNat < 0x80 := by rw [toNat_ofNat] <;> omega
    have hread := decodeFrom_small hsmall hrest position
    rwa [toNat_ofNat (by omega)] at hread
  · split
    · exact decodeFrom_two hrest position (by omega) (by omega)
    · split
      · exact decodeFrom_three hrest position (by omega) (by omega) (by omega)
      · exact decodeFrom_four hrest position (by omega) (by omega)

end Sequences

end Decode

/-- What has been encoded is decoded to the same characters. -/
theorem decode_encode (cs : List Char) : decode (encode cs) = .ok cs := by
  have hfrom : ∀ position, decodeFrom position (encode cs) = .ok cs := by
    induction cs with
    | nil =>
      intro position
      show decodeFrom position [] = .ok []
      rw [decodeFrom]
    | cons c cs ih => exact fun position => decodeFrom_utf8EncodeChar ih position c
  exact hfrom 0

end Utf8

end SiteRules
