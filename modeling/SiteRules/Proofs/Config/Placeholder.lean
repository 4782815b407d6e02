import Mathlib.Logic.ExistsUnique
import SiteRules.Config.Placeholder
import SiteRules.Proofs.Text.CodePoint

/-!
# Filling in placeholders

A text is cut at all of its placeholders in exactly one way (`Text.existsUnique_cuts`), since no
placeholder begins inside another one. Filling a text in puts the values of the names in the place
of the placeholders and leaves what stands between them as it is (`Text.fill_eq_join`). What a value
holds, alone or together with what stands next to it, is no matter of the cut, and so it is never
filled in.
-/

namespace SiteRules

namespace Text

/-! ## Placeholders -/

/-- A name: a word of at least one code point. -/
structure IsName (name : Text) : Prop where
  ne_nil : name ≠ []
  isWord : ∀ c ∈ name, c.isWord = true

/-- The placeholder with a name. -/
def placeholder (name : Text) : Text :=
  CodePoint.ofChar '$' :: CodePoint.ofChar '\x7b' :: (name ++ [CodePoint.ofChar '\x7d'])

variable {t before after name other rest : Text}

theorem placeholder?_append (h : IsName name) (rest : Text) :
    placeholder? (placeholder name ++ rest) = some (name, rest) := by
  have hclosing : ∀ c ∈ (CodePoint.ofChar '\x7d' :: rest).head?, c.isWord = false := by
    intro c hc
    rw [List.head?_cons, Option.mem_some_iff] at hc
    rw [← hc]
    decide
  have hempty : name.isEmpty = false := List.isEmpty_eq_false_iff.2 h.ne_nil
  have htail : name ++ [CodePoint.ofChar '\x7d'] ++ rest =
      name ++ CodePoint.ofChar '\x7d' :: rest :=
    List.append_assoc _ _ _
  rw [placeholder, List.cons_append, List.cons_append, htail, placeholder?]
  simp [dropWhile_run h.isWord hclosing, takeWhile_run h.isWord hclosing, hempty]

theorem eq_of_placeholder? (h : placeholder? t = some (name, rest)) :
    IsName name ∧ t = placeholder name ++ rest := by
  unfold placeholder? at h
  split at h
  · next dollar brace tail =>
    split at h
    · next hmarks =>
      split at h
      · cases h
      · next closing after hdrop =>
        simp only [Bool.and_eq_true, decide_eq_true_eq] at hmarks
        simp only [Option.ite_none_right_eq_some, Option.some.injEq, Prod.mk.injEq,
          Bool.and_eq_true, decide_eq_true_eq, Bool.not_eq_true', List.isEmpty_eq_false_iff] at h
        obtain ⟨⟨hclosing, hne⟩, rfl, rfl⟩ := h
        refine ⟨⟨hne, fun c hc => List.mem_takeWhile_imp hc⟩, ?_⟩
        have htail : tail =
            tail.takeWhile CodePoint.isWord ++ CodePoint.ofChar '\x7d' :: after := by
          rw [← hclosing, ← hdrop, List.takeWhile_append_dropWhile]
        rw [hmarks.1, hmarks.2, placeholder, List.cons_append, List.cons_append, List.append_assoc]
        exact congrArg (_ :: _ :: ·) htail
    · cases h
  · cases h

/-- Only its first code point is a dollar sign. -/
theorem dollar_notMem_tail (h : IsName name) : CodePoint.ofChar '$' ∉ (placeholder name).tail := by
  have hname : CodePoint.ofChar '$' ∉ name := notMem_of_kind h.isWord (by decide)
  show CodePoint.ofChar '$' ∉ CodePoint.ofChar '\x7b' :: (name ++ [CodePoint.ofChar '\x7d'])
  rw [List.mem_cons, List.mem_append, List.mem_singleton, not_or, not_or]
  exact ⟨by decide, hname, by decide⟩

/-- Behind a placeholder at the front, the next one begins after its end. -/
theorem placeholder_append_cases (h : IsName name) (hother : IsName other)
    (heq : placeholder name ++ rest = before ++ placeholder other ++ after) :
    (before = [] ∧ other = name ∧ after = rest) ∨
      ∃ between, before = placeholder name ++ between ∧
        rest = between ++ placeholder other ++ after := by
  cases before with
  | nil =>
    have hread := placeholder?_append h rest
    rw [heq, List.nil_append, placeholder?_append hother, Option.some.injEq, Prod.mk.injEq] at hread
    exact .inl ⟨rfl, hread⟩
  | cons c before =>
    right
    rw [List.append_assoc] at heq
    rcases List.append_eq_append_iff.1 heq with ⟨between, hbefore, hrest⟩ | ⟨inner, hname, hinner⟩
    · exact ⟨between, hbefore, by rw [hrest, List.append_assoc]⟩
    · cases inner with
      | nil =>
        refine ⟨[], by rw [hname, List.append_nil, List.append_nil], ?_⟩
        rw [List.nil_append] at hinner
        rw [List.nil_append, hinner]
      | cons d inner =>
        -- the other placeholder would begin inside this one
        have hdollar : d = CodePoint.ofChar '$' := (List.cons.inj hinner).1.symm
        have hmem : CodePoint.ofChar '$' ∈ (placeholder name).tail := by
          rw [hname, hdollar]
          exact List.mem_append_right before List.mem_cons_self
        exact absurd hmem (dollar_notMem_tail h)

/-! ## Cuts -/

/-- The pieces of a text that is cut at placeholders: what stands in front of the first, and the
name in each with what follows it. -/
structure Pieces where
  front : Text
  rest : List (Text × Text)

namespace Pieces

/-- The pieces put together, with what a name stands for in the place of its placeholder. -/
def join (meaning : Text → Text) (p : Pieces) : Text :=
  p.front ++ p.rest.flatMap fun piece => meaning piece.1 ++ piece.2

/-- The pieces are those of a text, and it is cut at each placeholder that stands in it. -/
structure Cuts (p : Pieces) (t : Text) : Prop where
  join_eq : p.join placeholder = t
  isName : ∀ piece ∈ p.rest, IsName piece.1
  all : ∀ before name after, IsName name → t = before ++ placeholder name ++ after →
    ∃ left piece right, p.rest = left ++ (name, piece) :: right ∧
      before = (Pieces.mk p.front left).join placeholder

variable {p q : Pieces} {meaning : Text → Text} {c : CodePoint} {front piece : Text}
  {pieces : List (Text × Text)}

theorem join_cons (c : CodePoint) (front : Text) (pieces : List (Text × Text)) :
    (Pieces.mk (c :: front) pieces).join meaning = c :: (Pieces.mk front pieces).join meaning := rfl

theorem join_placeholder (name piece : Text) (pieces : List (Text × Text)) :
    (Pieces.mk [] ((name, piece) :: pieces)).join meaning =
      meaning name ++ (Pieces.mk piece pieces).join meaning :=
  List.append_assoc _ _ _

theorem cuts_nil : (Pieces.mk [] []).Cuts [] := by
  refine ⟨rfl, List.forall_mem_nil _, fun before name after _ h => ?_⟩
  simp [placeholder] at h

theorem Cuts.of_nil (h : p.Cuts []) : p = ⟨[], []⟩ := by
  obtain ⟨front, pieces⟩ := p
  have hjoin := List.append_eq_nil_iff.1 h.join_eq
  cases pieces with
  | nil => rw [show front = [] from hjoin.1]
  | cons e pieces =>
    have hrest := hjoin.2
    rw [List.flatMap_cons, placeholder] at hrest
    cases hrest

/-- A code point at which no placeholder begins belongs to what stands in front. -/
theorem Cuts.cons (hnone : placeholder? (c :: t) = none) (h : (Pieces.mk front pieces).Cuts t) :
    (Pieces.mk (c :: front) pieces).Cuts (c :: t) := by
  refine ⟨congrArg (c :: ·) h.join_eq, h.isName, fun before name after hname heq => ?_⟩
  cases before with
  | nil =>
    rw [heq, List.nil_append, placeholder?_append hname] at hnone
    cases hnone
  | cons d before =>
    obtain ⟨rfl, htail⟩ := List.cons.inj heq
    obtain ⟨left, piece, right, hsplit, hbefore⟩ := h.all before name after hname htail
    exact ⟨left, piece, right, hsplit, congrArg (c :: ·) hbefore⟩

theorem Cuts.of_cons (hnone : placeholder? (c :: t) = none) (h : p.Cuts (c :: t)) :
    ∃ front, p = ⟨c :: front, p.rest⟩ ∧ (Pieces.mk front p.rest).Cuts t := by
  obtain ⟨front, pieces⟩ := p
  cases front with
  | nil =>
    have hjoin := h.join_eq
    cases pieces with
    | nil => cases hjoin
    | cons e pieces =>
      have hname := h.isName e List.mem_cons_self
      rw [← hjoin, join_placeholder, placeholder?_append hname] at hnone
      cases hnone
  | cons d front =>
    obtain ⟨rfl, htail⟩ := List.cons.inj h.join_eq
    refine ⟨front, rfl, htail, h.isName, fun before name after hname heq => ?_⟩
    have heq : d :: t = (d :: before) ++ placeholder name ++ after := congrArg (d :: ·) heq
    obtain ⟨left, piece, right, hsplit, hbefore⟩ := h.all _ name after hname heq
    exact ⟨left, piece, right, hsplit, (List.cons.inj hbefore).2⟩

/-- A placeholder at the front is the first one, and what follows it is cut by itself. -/
theorem Cuts.placeholder (hname : IsName name) (h : (Pieces.mk piece pieces).Cuts t) :
    (Pieces.mk [] ((name, piece) :: pieces)).Cuts (placeholder name ++ t) := by
  refine ⟨?_, List.forall_mem_cons.2 ⟨hname, h.isName⟩, fun before other after hother heq => ?_⟩
  · rw [join_placeholder, h.join_eq]
  · rcases placeholder_append_cases hname hother heq with
      ⟨rfl, rfl, -⟩ | ⟨between, rfl, hrest⟩
    · exact ⟨[], piece, pieces, rfl, rfl⟩
    · obtain ⟨left, last, right, hsplit, hbefore⟩ := h.all between other after hother hrest
      refine ⟨(name, piece) :: left, last, right, ?_, ?_⟩
      · rw [show pieces = left ++ (other, last) :: right from hsplit, List.cons_append]
      · rw [join_placeholder, hbefore]

theorem Cuts.of_placeholder (hname : IsName name) (h : p.Cuts (Text.placeholder name ++ t)) :
    ∃ piece pieces, p = ⟨[], (name, piece) :: pieces⟩ ∧ (Pieces.mk piece pieces).Cuts t := by
  obtain ⟨front, rest⟩ := p
  obtain ⟨left, piece, pieces, hsplit, hfront⟩ := h.all [] name t hname rfl
  have hnil := List.append_eq_nil_iff.1 hfront.symm
  have hleft : left = [] := by
    cases left with
    | nil => rfl
    | cons e left =>
      have hjoin := hnil.2
      rw [List.flatMap_cons, Text.placeholder] at hjoin
      cases hjoin
  obtain ⟨rfl, rfl, rfl⟩ : front = [] ∧ left = [] ∧ rest = (name, piece) :: pieces :=
    ⟨hnil.1, hleft, by rw [hleft] at hsplit; exact hsplit⟩
  refine ⟨piece, pieces, rfl, ?_, fun e he => h.isName e (List.mem_cons_of_mem _ he), ?_⟩
  · have hjoin := h.join_eq
    rw [join_placeholder] at hjoin
    exact List.append_cancel_left hjoin
  · intro before other after hother heq
    have hwhole : Text.placeholder name ++ t =
        (Text.placeholder name ++ before) ++ Text.placeholder other ++ after := by
      rw [heq, List.append_assoc, List.append_assoc, List.append_assoc]
    obtain ⟨left, last, right, hsplit, hbefore⟩ := h.all _ other after hother hwhole
    cases left with
    | nil =>
      -- something stands in front of the other placeholder
      rw [Text.placeholder] at hbefore
      cases hbefore
    | cons e left =>
      obtain ⟨rfl, hrest⟩ := List.cons.inj hsplit
      rw [join_placeholder] at hbefore
      exact ⟨left, last, right, hrest, List.append_cancel_left hbefore⟩

end Pieces

/-! ## Filling in -/

variable {meaning : Text → Text}

theorem fill_nil : fill meaning [] = [] := by
  rw [fill]
  rfl

theorem fill_cons {c : CodePoint} (h : placeholder? (c :: t) = none) :
    fill meaning (c :: t) = c :: fill meaning t := by
  rw [fill]
  split
  · next hsome =>
    rw [h] at hsome
    cases hsome
  · rfl

/-- A text without a dollar sign stays as it is. -/
theorem fill_eq_self (h : CodePoint.ofChar '$' ∉ t) : fill meaning t = t := by
  induction t with
  | nil => exact fill_nil
  | cons c rest ih =>
    rw [List.mem_cons, not_or] at h
    have hnone : placeholder? (c :: rest) = none := by
      rw [Option.eq_none_iff_forall_ne_some]
      intro found hfound
      obtain ⟨-, heq⟩ := eq_of_placeholder? hfound
      exact h.1 (List.cons.inj heq).1.symm
    rw [fill_cons hnone, ih h.2]

theorem fill_placeholder (h : IsName name) (t : Text) :
    fill meaning (placeholder name ++ t) = meaning name ++ fill meaning t := by
  rw [fill]
  split
  · next hsome =>
    rw [placeholder?_append h, Option.some.injEq, Prod.mk.injEq] at hsome
    obtain ⟨rfl, rfl⟩ := hsome
    rfl
  · next hnone =>
    rw [placeholder?_append h] at hnone
    cases hnone

/-- What holds of the empty text, and of a text if it holds of what is left behind a placeholder at
its front, or behind its first code point where there is none, holds of every text. -/
@[elab_as_elim]
theorem induct_placeholders {P : Text → Prop} (nil : P [])
    (placeholder : ∀ name t, IsName name → P t → P (placeholder name ++ t))
    (cons : ∀ c t, placeholder? (c :: t) = none → P t → P (c :: t)) (t : Text) : P t := by
  induction t using fill.induct with
  | case1 t name rest h _ ih =>
    obtain ⟨hname, rfl⟩ := eq_of_placeholder? h
    exact placeholder name rest hname ih
  | case2 => exact nil
  | case3 c rest h ih => exact cons c rest h ih

/-- A text is cut at all of its placeholders in exactly one way. -/
theorem existsUnique_cuts (t : Text) : ∃! p : Pieces, p.Cuts t := by
  induction t using induct_placeholders with
  | nil => exact ⟨_, Pieces.cuts_nil, fun q hq => hq.of_nil⟩
  | placeholder name t hname ih =>
    obtain ⟨⟨piece, pieces⟩, hcuts, hunique⟩ := ih
    refine ⟨_, hcuts.placeholder hname, fun q hq => ?_⟩
    obtain ⟨piece', pieces', rfl, hrest⟩ := hq.of_placeholder hname
    cases hunique _ hrest
    rfl
  | cons c t hnone ih =>
    obtain ⟨⟨front, pieces⟩, hcuts, hunique⟩ := ih
    refine ⟨_, hcuts.cons hnone, fun q hq => ?_⟩
    obtain ⟨front', hq, hrest⟩ := hq.of_cons hnone
    rw [hq]
    cases hunique _ hrest
    rfl

/-- A text is filled in by putting its pieces together with the meanings of the names. -/
theorem fill_eq_join {p : Pieces} (h : p.Cuts t) : fill meaning t = p.join meaning := by
  induction t using induct_placeholders generalizing p with
  | nil =>
    rw [h.of_nil, fill_nil]
    rfl
  | placeholder name t hname ih =>
    obtain ⟨piece, pieces, rfl, hrest⟩ := h.of_placeholder hname
    rw [fill_placeholder hname, ih hrest, Pieces.join_placeholder]
  | cons c t hnone ih =>
    obtain ⟨front, hp, hrest⟩ := h.of_cons hnone
    rw [fill_cons hnone, ih hrest, hp, Pieces.join_cons]

end Text

namespace Environment

open Text

/-- Placeholders are filled in by one pass from left to right. A text without any stays as it is,
and one that is cut at all of its placeholders, which can be done in one way only, becomes the same
pieces with the values of the variables between them. -/
theorem interpolate_onePass (env : Environment) (t : Text) :
    ((∀ before name after, IsName name → t ≠ before ++ placeholder name ++ after) →
      env.interpolate t = t) ∧
    (∃! p : Pieces, p.Cuts t) ∧
    ∀ p : Pieces, p.Cuts t →
      env.interpolate t = p.join fun name => (env.valueOf? name).getD [] := by
  have hjoin : ∀ p : Pieces, p.Cuts t →
      env.interpolate t = p.join fun name => (env.valueOf? name).getD [] := by
    intro p hp
    unfold interpolate
    exact fill_eq_join hp
  refine ⟨fun hnone => ?_, existsUnique_cuts t, hjoin⟩
  -- the text is its own only piece
  have hcuts : (Pieces.mk t []).Cuts t := by
    refine ⟨List.append_nil t, List.forall_mem_nil _, fun before name after hname heq => ?_⟩
    exact absurd heq (hnone before name after hname)
  rw [hjoin _ hcuts]
  exact List.append_nil t

/-- Variables of which one makes a placeholder together with what stands in front of it. -/
def nested : Environment :=
  { bare with
    bindings := [(Text.ofString "A", Text.ofString "B\x7d"), (Text.ofString "B", Text.ofString "x")] }

/-- A placeholder that a value makes together with what stands in front of it is not filled in. -/
theorem interpolate_onePass_nested :
    (Pieces.mk (Text.ofString "$\x7b") [(Text.ofString "A", [])]).Cuts
        (Text.ofString "$\x7b$\x7bA\x7d") ∧
      nested.interpolate (Text.ofString "$\x7b$\x7bA\x7d") = Text.ofString "$\x7bB\x7d" := by
  have hname : IsName (Text.ofString "A") := ⟨by decide, by decide⟩
  have hcuts : (Pieces.mk (Text.ofString "$\x7b") [(Text.ofString "A", [])]).Cuts
      (Text.ofString "$\x7b$\x7bA\x7d") :=
    ((Pieces.cuts_nil.placeholder hname).cons (by decide)).cons (by decide)
  refine ⟨hcuts, ?_⟩
  rw [(interpolate_onePass nested _).2.2 _ hcuts]
  decide

end Environment

end SiteRules
