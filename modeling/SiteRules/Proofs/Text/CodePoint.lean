import Mathlib.Data.List.TakeWhile
import SiteRules.Text.Blank

/-!
# Theory of code points and texts

How a text falls apart: into a run of code points of one kind and the rest, at the first or the last
separator, into the pieces between separators, and into blanks and what stands between them. The
pieces are settled by being joined to the text again (`Text.splitAt_eq_iff`).
-/

namespace SiteRules

namespace CodePoint

/-- What holds of the numbers below 128 holds of basic Latin. -/
theorem forall_basicLatin {P : CodePoint → Prop}
    (h : ∀ n : Fin 0x80, P ⟨n.val, Nat.lt_trans n.isLt (by decide)⟩) {c : CodePoint}
    (hc : c.val < 0x80) : P c :=
  h ⟨c.val, hc⟩

theorem eq_ofChar_iff {c : CodePoint} {ch : Char} : c = ofChar ch ↔ c.val = ch.toNat :=
  ⟨fun h => h ▸ rfl, fun h => CodePoint.ext h⟩

theorem isBasicDigit_iff {c : CodePoint} : c.isBasicDigit = true ↔ 0x30 ≤ c.val ∧ c.val ≤ 0x39 := by
  rw [isBasicDigit, Bool.and_eq_true, decide_eq_true_eq, decide_eq_true_eq]

theorem isBasicLetter_iff {c : CodePoint} :
    c.isBasicLetter = true ↔
      (0x41 ≤ c.val ∧ c.val ≤ 0x5a) ∨ (0x61 ≤ c.val ∧ c.val ≤ 0x7a) := by
  simp only [isBasicLetter, Bool.or_eq_true, Bool.and_eq_true, decide_eq_true_eq]

theorem val_lt_of_isBasicDigit {c : CodePoint} (h : c.isBasicDigit = true) : c.val < 0x80 := by
  have hrange := isBasicDigit_iff.1 h
  omega

theorem isBasicLetter_of_isBasicDigit {c : CodePoint} (h : c.isBasicDigit = true) :
    c.isBasicLetter = false :=
  forall_basicLatin (P := fun c => c.isBasicDigit = true → c.isBasicLetter = false) (by decide)
    (val_lt_of_isBasicDigit h) h

theorem ne_of_kind {p : CodePoint → Bool} {c d : CodePoint} (hc : p c = true) (hd : p d = false) :
    c ≠ d := by
  rintro rfl
  rw [hc] at hd
  cases hd

end CodePoint

namespace Text

theorem notMem_of_kind {p : CodePoint → Bool} {t : Text} {mark : CodePoint}
    (h : ∀ c ∈ t, p c = true) (hmark : p mark = false) : mark ∉ t :=
  fun hmem => CodePoint.ne_of_kind (h mark hmem) hmark rfl

/-! ## Runs -/

section Runs

variable {p : CodePoint → Bool} {t run rest : Text}

theorem dropWhile_eq_self (h : ∀ c ∈ t.head?, p c = false) : t.dropWhile p = t := by
  cases t with
  | nil => rfl
  | cons c _ => rw [List.dropWhile_cons, h c rfl, if_neg Bool.false_ne_true]

/-- A run is taken whole when the code point after it, if there is one, is of another kind. -/
theorem takeWhile_run (hrun : ∀ c ∈ run, p c = true) (hrest : ∀ c ∈ rest.head?, p c = false) :
    (run ++ rest).takeWhile p = run := by
  rw [List.takeWhile_append_of_pos hrun]
  cases rest with
  | nil => exact List.append_nil run
  | cons c _ => rw [List.takeWhile_cons, hrest c rfl, if_neg Bool.false_ne_true, List.append_nil]

theorem dropWhile_run (hrun : ∀ c ∈ run, p c = true) (hrest : ∀ c ∈ rest.head?, p c = false) :
    (run ++ rest).dropWhile p = rest := by
  rw [List.dropWhile_append_of_pos hrun, dropWhile_eq_self hrest]

/-- What a run of one kind leaves of a text begins with another kind. -/
theorem eq_false_of_mem_head?_dropWhile {c : CodePoint} (h : c ∈ (t.dropWhile p).head?) :
    p c = false := by
  have hhead := List.head?_dropWhile_not p t
  rw [Option.mem_def.1 h] at hhead
  exact hhead

end Runs

/-! ## Cuts -/

theorem any_eq_true_iff {mark : CodePoint} {t : Text} : t.any (· = mark) = true ↔ mark ∈ t := by
  rw [List.any_eq_true]
  constructor
  · rintro ⟨c, hc, heq⟩
    exact of_decide_eq_true heq ▸ hc
  · intro h
    exact ⟨mark, h, decide_eq_true rfl⟩

theorem any_eq_false_iff {mark : CodePoint} {t : Text} : t.any (· = mark) = false ↔ mark ∉ t := by
  rw [← Bool.not_eq_true, any_eq_true_iff]

section Cuts

variable {sep : CodePoint} {t a b : Text}

theorem cut?_append (h : sep ∉ a) (b : Text) : cut? sep (a ++ sep :: b) = some (a, b) := by
  induction a with
  | nil => simp [cut?]
  | cons c rest ih =>
    have hc : c ≠ sep := fun heq => h (heq ▸ List.mem_cons_self)
    have hrest : sep ∉ rest := fun hmem => h (List.mem_cons_of_mem _ hmem)
    rw [List.cons_append, cut?, if_neg hc, ih hrest]
    rfl

theorem cut?_eq_none (h : sep ∉ t) : cut? sep t = none := by
  induction t with
  | nil => rfl
  | cons c rest ih =>
    have hc : c ≠ sep := fun heq => h (heq ▸ List.mem_cons_self)
    have hrest : sep ∉ rest := fun hmem => h (List.mem_cons_of_mem _ hmem)
    rw [cut?, if_neg hc, ih hrest]
    rfl

/-- A text is cut at its first separator. -/
theorem cut?_eq_some_iff : cut? sep t = some (a, b) ↔ t = a ++ sep :: b ∧ sep ∉ a := by
  constructor
  · intro h
    by_cases hmem : sep ∈ t
    · obtain ⟨a', b', ht, ha'⟩ := List.eq_append_cons_of_mem hmem
      rw [ht, cut?_append ha'] at h
      cases h
      exact ⟨ht, ha'⟩
    · rw [cut?_eq_none hmem] at h
      cases h
  · rintro ⟨rfl, ha⟩
    exact cut?_append ha b

theorem cut?_eq_none_iff : cut? sep t = none ↔ sep ∉ t := by
  refine ⟨fun h hmem => ?_, cut?_eq_none⟩
  obtain ⟨a, b, ht, ha⟩ := List.eq_append_cons_of_mem hmem
  rw [ht, cut?_append ha] at h
  cases h

theorem cutLast?_eq_none_iff : cutLast? sep t = none ↔ sep ∉ t := by
  rw [cutLast?, Option.map_eq_none_iff, cut?_eq_none_iff, List.mem_reverse]

/-- A text is cut at its last separator. -/
theorem cutLast?_eq_some_iff : cutLast? sep t = some (a, b) ↔ t = a ++ sep :: b ∧ sep ∉ b := by
  rw [cutLast?, Option.map_eq_some_iff]
  constructor
  · rintro ⟨⟨x, y⟩, hcut, hab⟩
    obtain ⟨ht, hx⟩ := cut?_eq_some_iff.1 hcut
    cases hab
    refine ⟨?_, fun hmem => hx (List.mem_reverse.1 hmem)⟩
    rw [← List.reverse_reverse t, ht, List.reverse_append, List.reverse_cons, List.append_assoc]
    rfl
  · rintro ⟨rfl, hb⟩
    refine ⟨(b.reverse, a.reverse), ?_, ?_⟩
    · rw [List.reverse_append, List.reverse_cons, List.append_assoc]
      exact cut?_append (fun hmem => hb (List.mem_reverse.1 hmem)) _
    · rw [List.reverse_reverse, List.reverse_reverse]

/-- Changing code points, none into or from the separator, changes what stands in front and what
stands behind. -/
theorem cut?_map {f : CodePoint → CodePoint} (h : ∀ c, f c = sep ↔ c = sep) (t : Text) :
    cut? sep (t.map f) = (cut? sep t).map (Prod.map (List.map f) (List.map f)) := by
  have hmem : ∀ {t : Text}, sep ∉ t → sep ∉ t.map f := by
    intro t hnot hmem
    obtain ⟨c, hc, heq⟩ := List.mem_map.1 hmem
    exact hnot ((h c).1 heq ▸ hc)
  cases hcut : cut? sep t with
  | none => exact cut?_eq_none (hmem (cut?_eq_none_iff.1 hcut))
  | some parts =>
    obtain ⟨rfl, hfront⟩ := cut?_eq_some_iff.1 hcut
    rw [List.map_append, List.map_cons, (h sep).2 rfl]
    exact cut?_append (hmem hfront) _

theorem cutLast?_map {f : CodePoint → CodePoint} (h : ∀ c, f c = sep ↔ c = sep) (t : Text) :
    cutLast? sep (t.map f) = (cutLast? sep t).map (Prod.map (List.map f) (List.map f)) := by
  rw [cutLast?, cutLast?, ← List.map_reverse, cut?_map h, Option.map_map, Option.map_map]
  congr 1
  funext parts
  simp [Prod.map]

end Cuts

/-! ## Pieces -/

/-- A separator opens a piece; every other code point stands in front of the first piece. -/
theorem splitAt_cons (sep c : CodePoint) (rest : Text) :
    splitAt sep (c :: rest) =
      if c = sep then [] :: splitAt sep rest
      else match splitAt sep rest with
        | [] => [[c]]
        | piece :: pieces => (c :: piece) :: pieces :=
  rfl

theorem splitAt_ne_nil (sep : CodePoint) (t : Text) : t.splitAt sep ≠ [] := by
  cases t with
  | nil => exact List.cons_ne_nil [] []
  | cons c rest =>
    rw [splitAt_cons]
    split
    · simp
    · split <;> simp

/-- Of a code point that does not separate, the pieces are those of the rest with the code point in
front of the first. -/
theorem splitAt_cons_of_ne {sep c : CodePoint} (h : c ≠ sep) (rest : Text) :
    ∃ piece pieces, rest.splitAt sep = piece :: pieces ∧
      splitAt sep (c :: rest) = (c :: piece) :: pieces := by
  obtain ⟨piece, pieces, hpieces⟩ := List.exists_cons_of_ne_nil (splitAt_ne_nil sep rest)
  refine ⟨piece, pieces, hpieces, ?_⟩
  rw [splitAt_cons, if_neg h, hpieces]

/-- A code point other than the separator stands in one of the pieces. -/
theorem exists_mem_splitAt {sep c : CodePoint} {t : Text} (hne : c ≠ sep) (h : c ∈ t) :
    ∃ piece ∈ t.splitAt sep, c ∈ piece := by
  induction t with
  | nil => cases h
  | cons d rest ih =>
    by_cases hd : d = sep
    · have hrest : c ∈ rest := by
        rcases List.mem_cons.1 h with heq | hmem
        · exact absurd (heq.trans hd) hne
        · exact hmem
      obtain ⟨piece, hpiece, hmem⟩ := ih hrest
      rw [splitAt_cons, if_pos hd]
      exact ⟨piece, List.mem_cons_of_mem _ hpiece, hmem⟩
    · obtain ⟨first, others, hpieces, heq⟩ := splitAt_cons_of_ne hd rest
      rw [heq]
      rcases List.mem_cons.1 h with rfl | hmem
      · exact ⟨c :: first, List.mem_cons_self, List.mem_cons_self⟩
      · obtain ⟨piece, hpiece, hc⟩ := ih hmem
        rw [hpieces, List.mem_cons] at hpiece
        rcases hpiece with rfl | hpiece
        · exact ⟨d :: piece, List.mem_cons_self, List.mem_cons_of_mem _ hc⟩
        · exact ⟨piece, List.mem_cons_of_mem _ hpiece, hc⟩

theorem splitAt_eq_self {sep : CodePoint} {t : Text} (h : sep ∉ t) : t.splitAt sep = [t] := by
  induction t with
  | nil => rfl
  | cons c rest ih =>
    have hc : c ≠ sep := fun heq => h (heq ▸ List.mem_cons_self)
    rw [splitAt_cons, if_neg hc, ih fun hmem => h (List.mem_cons_of_mem _ hmem)]

/-- What has no separator makes the last piece longer. -/
theorem splitAt_append {sep : CodePoint} {rest : Text} (hrest : sep ∉ rest) (t : Text) :
    ∃ pieces last, t.splitAt sep = pieces ++ [last] ∧
      (t ++ rest).splitAt sep = pieces ++ [last ++ rest] := by
  induction t with
  | nil => exact ⟨[], [], rfl, splitAt_eq_self hrest⟩
  | cons c front ih =>
    obtain ⟨pieces, last, hfront, hwhole⟩ := ih
    rw [List.cons_append, splitAt_cons, splitAt_cons, hfront, hwhole]
    by_cases hc : c = sep
    · rw [if_pos hc, if_pos hc]
      exact ⟨[] :: pieces, last, rfl, rfl⟩
    · rw [if_neg hc, if_neg hc]
      cases pieces with
      | nil => exact ⟨[], c :: last, rfl, rfl⟩
      | cons first others => exact ⟨(c :: first) :: others, last, rfl, rfl⟩

/-- Leaving out code points other than the separator leaves them out of the pieces. -/
theorem splitAt_filter {sep : CodePoint} {p : CodePoint → Bool} (hsep : p sep = true) (t : Text) :
    splitAt sep (t.filter p) = (splitAt sep t).map (List.filter p) := by
  induction t with
  | nil => rfl
  | cons c rest ih =>
    by_cases hc : c = sep
    · rw [hc, List.filter_cons_of_pos hsep, splitAt_cons, if_pos rfl, ih, splitAt_cons, if_pos rfl]
      rfl
    · obtain ⟨piece, pieces, hpieces, hsplit⟩ := splitAt_cons_of_ne hc rest
      rw [hpieces, List.map_cons] at ih
      rw [hsplit, List.map_cons]
      by_cases hp : p c = true
      · rw [List.filter_cons_of_pos hp, splitAt_cons, if_neg hc, ih, List.filter_cons_of_pos hp]
      · rw [List.filter_cons_of_neg hp, ih, List.filter_cons_of_neg hp]

/-- Changing code points, none into or from the separator, changes the pieces one by one. -/
theorem splitAt_map {sep : CodePoint} {f : CodePoint → CodePoint} {t : Text}
    (h : ∀ c ∈ t, f c = sep ↔ c = sep) :
    splitAt sep (t.map f) = (splitAt sep t).map (List.map f) := by
  induction t with
  | nil => rfl
  | cons c rest ih =>
    have ih := ih fun d hd => h d (List.mem_cons_of_mem _ hd)
    have hc := h c List.mem_cons_self
    by_cases heq : c = sep
    · rw [List.map_cons, splitAt_cons, if_pos (hc.2 heq), ih, splitAt_cons, if_pos heq]
      rfl
    · obtain ⟨piece, pieces, hpieces, hsplit⟩ := splitAt_cons_of_ne heq rest
      rw [List.map_cons, splitAt_cons, if_neg (fun hf => heq (hc.1 hf)), ih, hpieces, hsplit]
      rfl

/-! ## Pieces and joined texts -/

section Joined

variable {sep : CodePoint} {t : Text}

/-- Joining the pieces by the separator gives the text again. -/
theorem intercalate_splitAt (sep : CodePoint) (t : Text) :
    [sep].intercalate (t.splitAt sep) = t := by
  induction t with
  | nil => rfl
  | cons c rest ih =>
    by_cases hc : c = sep
    · have hne : splitAt sep rest ≠ [] := splitAt_ne_nil sep rest
      rw [splitAt_cons, if_pos hc, List.intercalate_cons_of_ne_nil hne, ih, hc]
      rfl
    · obtain ⟨piece, pieces, hpieces, hsplit⟩ := splitAt_cons_of_ne hc rest
      rw [hsplit, List.intercalate_cons_cons_left, ← hpieces, ih]

theorem notMem_of_mem_splitAt {piece : Text} (h : piece ∈ t.splitAt sep) : sep ∉ piece := by
  induction t generalizing piece with
  | nil =>
    rw [List.mem_singleton.1 h]
    exact List.not_mem_nil
  | cons c rest ih =>
    by_cases hc : c = sep
    · rw [splitAt_cons, if_pos hc, List.mem_cons] at h
      rcases h with rfl | h
      · exact List.not_mem_nil
      · exact ih h
    · obtain ⟨first, others, hpieces, hsplit⟩ := splitAt_cons_of_ne hc rest
      rw [hpieces] at ih
      rw [hsplit, List.mem_cons] at h
      rcases h with rfl | h
      · have hfirst : sep ∉ first := ih List.mem_cons_self
        exact List.not_mem_cons_of_ne_of_not_mem (Ne.symm hc) hfirst
      · exact ih (List.mem_cons_of_mem _ h)

theorem splitAt_piece {piece : Text} (h : sep ∉ piece) (rest : Text) :
    (piece ++ sep :: rest).splitAt sep = piece :: rest.splitAt sep := by
  induction piece with
  | nil => rw [List.nil_append, splitAt_cons, if_pos rfl]
  | cons c others ih =>
    have hc : c ≠ sep := fun heq => h (heq ▸ List.mem_cons_self)
    rw [List.cons_append, splitAt_cons, if_neg hc, ih fun hmem => h (List.mem_cons_of_mem _ hmem)]

/-- What is joined from texts without the separator is split into them again. -/
theorem splitAt_intercalate {pieces : List Text} (hne : pieces ≠ [])
    (h : ∀ piece ∈ pieces, sep ∉ piece) : splitAt sep ([sep].intercalate pieces) = pieces := by
  induction pieces with
  | nil => exact absurd rfl hne
  | cons first others ih =>
    have hfirst : sep ∉ first := h first List.mem_cons_self
    have hrest : ∀ piece ∈ others, sep ∉ piece := fun piece hmem =>
      h piece (List.mem_cons_of_mem _ hmem)
    by_cases hothers : others = []
    · rw [hothers, List.intercalate_singleton]
      exact splitAt_eq_self hfirst
    · rw [List.intercalate_cons_of_ne_nil hothers, List.append_assoc, List.singleton_append,
        splitAt_piece hfirst, ih hothers hrest]

/-- The pieces of a text are the only texts without the separator that it is joined from. -/
theorem splitAt_eq_iff {pieces : List Text} :
    t.splitAt sep = pieces ↔
      pieces ≠ [] ∧ (∀ piece ∈ pieces, sep ∉ piece) ∧ [sep].intercalate pieces = t := by
  constructor
  · intro h
    subst h
    exact ⟨splitAt_ne_nil sep t, fun _ => notMem_of_mem_splitAt, intercalate_splitAt sep t⟩
  · intro ⟨hne, hpieces, hjoin⟩
    rw [← hjoin]
    exact splitAt_intercalate hne hpieces

theorem intercalate_append {front back : List Text} (hfront : front ≠ []) (hback : back ≠ []) :
    [sep].intercalate (front ++ back) =
      [sep].intercalate front ++ sep :: [sep].intercalate back := by
  induction front with
  | nil => exact absurd rfl hfront
  | cons first others ih =>
    have hwhole : others ++ back ≠ [] := List.append_ne_nil_of_right_ne_nil others hback
    rw [List.cons_append, List.intercalate_cons_of_ne_nil hwhole]
    by_cases hothers : others = []
    · rw [hothers, List.intercalate_singleton, List.append_assoc]
      rfl
    · rw [ih hothers, List.intercalate_cons_of_ne_nil hothers, List.append_assoc _ _ (sep :: _)]

/-- A separator between two texts keeps their pieces apart. -/
theorem splitAt_append_sep (front back : Text) :
    (front ++ sep :: back).splitAt sep = front.splitAt sep ++ back.splitAt sep := by
  refine splitAt_eq_iff.2 ⟨?_, ?_, ?_⟩
  · exact List.append_ne_nil_of_right_ne_nil _ (splitAt_ne_nil sep back)
  · intro piece hpiece
    exact (List.mem_append.1 hpiece).elim notMem_of_mem_splitAt notMem_of_mem_splitAt
  · rw [intercalate_append (splitAt_ne_nil sep front) (splitAt_ne_nil sep back),
      intercalate_splitAt, intercalate_splitAt]

/-- The last pieces of a text are those of an end that is the whole text or follows a separator. -/
theorem splitAt_suffix_iff {rear : Text} :
    rear.splitAt sep <:+ t.splitAt sep ↔ t = rear ∨ sep :: rear <:+ t := by
  constructor
  · intro ⟨front, hfront⟩
    have ht : t = [sep].intercalate (front ++ rear.splitAt sep) := by
      rw [hfront, intercalate_splitAt]
    by_cases hnil : front = []
    · left
      rw [ht, hnil, List.nil_append, intercalate_splitAt]
    · right
      rw [ht, intercalate_append hnil (splitAt_ne_nil sep rear), intercalate_splitAt]
      exact List.suffix_append _ _
  · intro h
    rcases h with rfl | ⟨front, rfl⟩
    · exact List.suffix_rfl
    · rw [splitAt_append_sep]
      exact List.suffix_append _ _

end Joined

/-! ## Texts inside texts -/

theorem occursIn_iff_infix {part t : Text} : part.occursIn t = true ↔ part <:+: t := by
  induction t with
  | nil => simp [occursIn]
  | cons c rest ih =>
    rw [occursIn, Bool.or_eq_true, List.isPrefixOf_iff_prefix, ih, List.infix_cons_iff]

/-! ## Blanks at the ends -/

/-- A text with no blank at either end is what is left of it without them. -/
theorem trim_eq_self {t : Text} (hhead : ∀ c ∈ t.head?, c.isBlank = false)
    (hlast : ∀ c ∈ t.getLast?, c.isBlank = false) : t.trim = t := by
  have hend : t.reverse.dropWhile CodePoint.isBlank = t.reverse :=
    dropWhile_eq_self fun c hc => hlast c (List.head?_reverse ▸ hc)
  rw [trim, dropWhile_eq_self hhead, trimEnd, hend, List.reverse_reverse]

/-- Without the blanks at its ends, a text does not end in one. -/
theorem isBlank_of_mem_getLast?_trim {t : Text} : ∀ c ∈ t.trim.getLast?, c.isBlank = false := by
  intro c hc
  rw [trim, trimEnd, List.getLast?_reverse] at hc
  exact eq_false_of_mem_head?_dropWhile hc

/-- Behind what has no blanks, only those at the end are left out. -/
theorem trimEnd_append {front : Text} (h : ∀ c ∈ front, c.isBlank = false) (rest : Text) :
    (front ++ rest).trimEnd = front ++ rest.trimEnd := by
  have hfront : front.reverse.dropWhile CodePoint.isBlank = front.reverse :=
    dropWhile_eq_self fun c hc => h c (List.mem_reverse.1 (List.mem_of_mem_head? hc))
  rw [trimEnd, trimEnd, List.reverse_append, List.dropWhile_append]
  split
  · next hall =>
    rw [List.isEmpty_iff.1 hall, hfront, List.reverse_reverse, List.reverse_nil, List.append_nil]
  · rw [List.reverse_append, List.reverse_reverse]

theorem trim_append {front : Text} (hne : front ≠ []) (h : ∀ c ∈ front, c.isBlank = false)
    (rest : Text) : (front ++ rest).trim = front ++ rest.trimEnd := by
  obtain ⟨c, others, rfl⟩ := List.exists_cons_of_ne_nil hne
  have hhead : ∀ d ∈ (c :: others ++ rest).head?, d.isBlank = false := by
    rintro d ⟨rfl⟩
    exact h c List.mem_cons_self
  rw [trim, dropWhile_eq_self hhead, trimEnd_append h]

theorem trim_of_no_blank {t : Text} (h : ∀ c ∈ t, c.isBlank = false) : t.trim = t :=
  trim_eq_self (fun c hc => h c (List.mem_of_mem_head? hc))
    (fun c hc => h c (List.mem_of_mem_getLast? hc))

end Text

end SiteRules
