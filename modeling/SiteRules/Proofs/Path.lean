import Mathlib.Data.List.Basic
import SiteRules.Proofs.FileTree
import SiteRules.Proofs.Text.Utf8

/-!
# Paths that the system can be given

A path is given to the system as bytes: a zero would end it, and a surrogate is taken only if it
stands for a byte. A path without others (`Path.IsNamable`) passes every check
(`FileTree.checkPath_eq_ok_iff`), and so do the paths of the directories above it. Operations on it
fail only if the system refuses them.
-/

namespace SiteRules

/-- Whether a code point can stand in a path that is given to the system. -/
def CodePoint.isNamable (c : CodePoint) : Bool :=
  c.val ≠ 0 && !(c.isSurrogate && !Utf8.isByteMark c)

theorem CodePoint.isNamable_iff {c : CodePoint} : c.isNamable = true ↔
    c.val ≠ 0 ∧ (c.isSurrogate && !Utf8.isByteMark c) = false := by
  rw [isNamable, Bool.and_eq_true, decide_eq_true_eq, Bool.not_eq_true']

/-- A path whose components the system can be given. -/
def Path.IsNamable (p : Path) : Prop :=
  ∀ part ∈ p.parts, ∀ c ∈ part, c.isNamable = true

/-! ## The bytes of a path -/

namespace Utf8

theorem zero_ne_ofNat {n : Nat} (h : n % 0x100 ≠ 0) : 0 ≠ UInt8.ofNat n := by
  intro hzero
  have hval := congrArg UInt8.toNat hzero
  rw [UInt8.toNat_ofNat'] at hval
  exact h hval.symm

/-- Only the character zero has a zero among its bytes. -/
theorem zero_mem_utf8EncodeChar_iff {c : Char} : 0 ∈ String.utf8EncodeChar c ↔ c.toNat = 0 := by
  have hnat : c.toNat = c.val.toNat := rfl
  rw [String.utf8EncodeChar, hnat]
  generalize c.val.toNat = v
  -- all bytes of a longer sequence have a mark in their upper bits
  have hmarked (m b : Nat) (hm : 0 < m) (hb : 0 < b) (h : m + b ≤ 0x100) (n : Nat) :
      0 ≠ UInt8.ofNat (n % m + b) := by
    have hlt := Nat.mod_lt n hm
    exact zero_ne_ofNat (by omega)
  split
  · rw [List.mem_singleton]
    refine ⟨fun h => ?_, fun h => h ▸ rfl⟩
    by_contra hv
    exact zero_ne_ofNat (by omega) h
  · refine iff_of_false ?_ (by omega)
    split_ifs <;>
      simp (disch := decide) only [List.mem_cons, List.not_mem_nil, hmarked, or_self, not_false_iff]

theorem encodeName_eq_ok_iff {t : Text} {bytes : List UInt8} :
    encodeName t = .ok bytes ↔ (∀ c ∈ t, (c.isSurrogate && !isByteMark c) = false) ∧
      (t.flatMap fun c => if isByteMark c then [UInt8.ofNat c.val]
        else String.utf8EncodeChar c.toChar) = bytes := by
  unfold encodeName
  rw [← encodeError?_eq_none_iff]
  split
  · next hnone => simp [hnone]
  · next e hsome => simp [hsome]

/-- Of the code points of a name only zero has a zero among its bytes. -/
theorem zero_mem_nameBytes_iff {c : CodePoint} (hc : (c.isSurrogate && !isByteMark c) = false) :
    (0 ∈ if isByteMark c then [UInt8.ofNat c.val] else String.utf8EncodeChar c.toChar) ↔
      c.val = 0 := by
  split
  · next hmark =>
    rw [isByteMark, Bool.and_eq_true, decide_eq_true_eq, decide_eq_true_eq] at hmark
    rw [List.mem_singleton]
    exact iff_of_false (zero_ne_ofNat (by omega)) (by omega)
  · next hmark =>
    have hplain : c.isSurrogate = false := by
      rwa [Bool.eq_false_iff.2 hmark, Bool.not_false, Bool.and_true] at hc
    have hval : c.toChar.toNat = c.val := congrArg CodePoint.val (CodePoint.ofChar_toChar hplain)
    rw [zero_mem_utf8EncodeChar_iff, hval]

end Utf8

/-! ## The components of a path -/

namespace Path

variable {p : Path} {c : CodePoint}

/-- What is joined holds the code points of the pieces, but for what joins them. -/
theorem mem_intercalate_iff {sep : CodePoint} (hc : c ≠ sep) {parts : List Text} :
    c ∈ [sep].intercalate parts ↔ ∃ part ∈ parts, c ∈ part := by
  induction parts with
  | nil => simp
  | cons part rest ih =>
    cases rest with
    | nil => simp
    | cons next others =>
      rw [List.intercalate_cons_cons, List.mem_append, List.mem_append, ih, List.mem_singleton,
        or_iff_left hc, List.exists_mem_cons_iff _ part]

/-- What cannot be given to the system stands in a component. -/
theorem mem_text_iff (hc : c.isNamable = false) :
    c ∈ p.text ↔ ∃ part ∈ p.parts, c ∈ part := by
  -- the slashes, and the point that stands for no component, can be given to the system
  have hslash : c ≠ CodePoint.ofChar '/' := by
    rintro rfl
    cases hc
  have hdot : c ≠ CodePoint.ofChar '.' := by
    rintro rfl
    cases hc
  unfold text
  split
  · next hempty =>
    rw [Bool.and_eq_true, List.isEmpty_iff] at hempty
    simp [hempty.2, hdot]
  · rw [List.mem_append, mem_intercalate_iff hslash, List.mem_replicate]
    simp [hslash]

theorem isNamable_iff : p.IsNamable ↔ ∀ c ∈ p.text, c.isNamable = true := by
  constructor
  · intro h c hmem
    by_contra hc
    obtain ⟨part, hpart, hmem⟩ := (mem_text_iff (Bool.eq_false_iff.2 hc)).1 hmem
    exact hc (h part hpart c hmem)
  · intro h part hpart c hmem
    by_contra hc
    exact hc (h c ((mem_text_iff (Bool.eq_false_iff.2 hc)).2 ⟨part, hpart, hmem⟩))

/-- The directory of a path can be given to the system if the path can. -/
theorem IsNamable.parent (h : p.IsNamable) : p.parent.IsNamable :=
  fun part hpart => h part (List.dropLast_subset p.parts hpart)

end Path

/-! ## Operations -/

namespace FileTree

variable {t : FileTree} {p : Path}

/-- A path passes the checks exactly if it can be given to the system. -/
theorem checkPath_eq_ok_iff {zero : FileError} : checkPath zero p = .ok () ↔ p.IsNamable := by
  have hall : p.IsNamable ↔ (∀ c ∈ p.text, (c.isSurrogate && !Utf8.isByteMark c) = false) ∧
      ¬∃ c ∈ p.text, c.val = 0 := by
    simp only [Path.isNamable_iff, CodePoint.isNamable_iff]
    exact ⟨fun h => ⟨fun c hc => (h c hc).2, fun ⟨c, hc, hzero⟩ => (h c hc).1 hzero⟩,
      fun h c hc => ⟨fun hzero => h.2 ⟨c, hc, hzero⟩, h.1 c hc⟩⟩
  rw [hall]
  unfold checkPath
  split
  · next e herror =>
    refine iff_of_false nofun fun h => ?_
    rw [Utf8.encodeName_eq_ok_iff.2 ⟨h.1, rfl⟩] at herror
    cases herror
  · next bytes hok =>
    obtain ⟨hencode, rfl⟩ := Utf8.encodeName_eq_ok_iff.1 hok
    rw [and_iff_right hencode]
    have hzero : (0 ∈ p.text.flatMap fun c => if Utf8.isByteMark c then [UInt8.ofNat c.val]
        else String.utf8EncodeChar c.toChar) ↔ ∃ c ∈ p.text, c.val = 0 := by
      rw [List.mem_flatMap]
      exact exists_congr fun c => and_congr_right fun hc =>
        Utf8.zero_mem_nameBytes_iff (hencode c hc)
    rw [← hzero, ← List.contains_iff_mem]
    split
    · next h => exact iff_of_false nofun (not_not_intro h)
    · next h => exact iff_of_true rfl h

/-- A question about a path is answered, or the system refuses it. -/
theorem ask_spec (answer : Node → Bool) :
    EndsIn (fun e => e.isRefusal = true) (fun _ => True) (t.ask p answer) := by
  unfold ask
  split
  · exact trivial
  · split
    · exact trivial
    · exact rfl

theorem isDirectory_spec : EndsIn (fun e => e.isRefusal = true) (fun _ => True)
    (t.isDirectory p) := by
  unfold isDirectory
  split
  · exact trivial
  · exact ask_spec _

/-- Whether something is at a path is told, or the system refuses it. -/
theorem has_spec : EndsIn (fun e => e.isRefusal = true) (fun _ => True) (t.has p) := by
  unfold has
  split
  · exact trivial
  · exact ask_spec _

section IsNamable

variable (h : p.IsNamable)

include h

theorem makeDirectory_of_isNamable :
    EndsIn (fun e => e.isRefusal = true) (fun _ => True) (t.makeDirectory p) := by
  rw [makeDirectory, checkPath_eq_ok_iff.2 h]
  refine EndsIn.bind (V := fun _ => True) trivial fun _ _ => ?_
  split
  · exact rfl
  · exact rfl
  · split
    · exact rfl
    · exact trivial

theorem ensureDirectory_of_isNamable :
    EndsIn (fun e => e.isRefusal = true) (fun _ => True) (t.ensureDirectory p) := by
  rw [ensureDirectory]
  split
  · exact trivial
  · exact rfl
  · next e _ herror =>
    have hrefusal := (makeDirectory_of_isNamable h).of_error herror
    refine EndsIn.ite (fun _ => hrefusal) fun _ => ?_
    split
    · exact trivial
    · exact hrefusal
    · next unknown hunknown => exact isDirectory_spec.of_error hunknown

/-- Directories that are not made have been refused. -/
theorem makeDirectories_of_isNamable :
    EndsIn (fun e => e.isRefusal = true) (fun _ => True) (t.makeDirectories p).2 := by
  -- the path is tried, then the one above it is made, and then the path is tried again
  induction p using makeDirectories.induct t with
  | case1 p t' hmade =>
    rw [makeDirectories, hmade]
    exact trivial
  | case2 p path hroot hmissing =>
    rw [makeDirectories, hmissing]
    simp only [dif_pos hroot]
    exact rfl
  | case3 p path hroot t' e habove hmissing ih =>
    have hspec := ih h.parent
    rw [habove] at hspec
    rw [makeDirectories, hmissing]
    simp only [dif_neg hroot, habove]
    exact hspec
  | case4 p path hroot t' habove t'' hmade hmissing ih =>
    rw [makeDirectories, hmissing]
    simp only [dif_neg hroot, habove, hmade]
    exact trivial
  | case5 p path hroot t' habove e hfailed hmissing ih =>
    rw [makeDirectories, hmissing]
    simp only [dif_neg hroot, habove, hfailed]
    exact (ensureDirectory_of_isNamable h).of_error hfailed
  | case6 p e hfailed hother =>
    rw [makeDirectories, hfailed]
    dsimp only
    split
    · next path => exact absurd rfl (hother path)
    · exact (ensureDirectory_of_isNamable h).of_error hfailed

/-- A file that is not written has been refused. -/
theorem write_of_isNamable (content : List UInt8) :
    EndsIn (fun e => e.isRefusal = true) (fun _ => True) (t.write p content) := by
  rw [write, checkPath_eq_ok_iff.2 h]
  refine EndsIn.bind (V := fun _ => True) trivial fun _ _ => ?_
  split
  · exact rfl
  · exact rfl
  · split
    · exact rfl
    · exact trivial

end IsNamable

end FileTree

end SiteRules
