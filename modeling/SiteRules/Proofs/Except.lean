/-!
# Theory of computations that can fail

When a computation in steps gives a value, and what it ends in.
-/

namespace SiteRules

variable {ε α β : Type}

/-- A computation succeeds if its first step does and the rest succeeds from there. -/
theorem bind_eq_ok_iff {x : Except ε α} {f : α → Except ε β} {b : β} :
    (x >>= f) = .ok b ↔ ∃ a, x = .ok a ∧ f a = .ok b := by
  cases x with
  | error e =>
    constructor
    · intro h
      cases h
    · rintro ⟨_, h, _⟩
      cases h
  | ok a =>
    constructor
    · intro h
      exact ⟨a, rfl, h⟩
    · rintro ⟨_, h, hb⟩
      cases h
      exact hb

/-- A computation whose last step cannot fail succeeds if the steps in front of it do. -/
theorem exists_bind_pure_iff {x : Except ε α} {f : α → β} :
    (∃ b, (x >>= fun a => pure (f a)) = .ok b) ↔ ∃ a, x = .ok a := by
  constructor
  · rintro ⟨_, h⟩
    obtain ⟨a, ha, -⟩ := bind_eq_ok_iff.1 h
    exact ⟨a, ha⟩
  · rintro ⟨a, ha⟩
    exact ⟨f a, bind_eq_ok_iff.2 ⟨a, ha, rfl⟩⟩

/-- A computation gives a value if its first step does and the rest gives one from there. -/
theorem toOption_bind_eq_some_iff {x : Except ε α} {f : α → Except ε β} {b : β} :
    (x >>= f).toOption = some b ↔ ∃ a, x = .ok a ∧ (f a).toOption = some b := by
  cases x with
  | error e =>
    constructor
    · intro h
      cases h
    · rintro ⟨_, h, _⟩
      cases h
  | ok a =>
    constructor
    · intro h
      exact ⟨a, rfl, h⟩
    · rintro ⟨_, h, hb⟩
      cases h
      exact hb

/-- A computation that begins with a check gives a value if the check passes and the rest gives
the value. -/
theorem toOption_check_eq_some_iff {c : Prop} [Decidable c] {e : ε} {f : α → Except ε β}
    {x : Except ε β} {b : β} :
    (if c then throw e >>= f else x).toOption = some b ↔ ¬c ∧ x.toOption = some b := by
  by_cases h : c
  · rw [if_pos h]
    constructor
    · intro hthrow
      cases hthrow
    · rintro ⟨hnot, _⟩
      exact absurd h hnot
  · rw [if_neg h]
    exact ⟨fun hx => ⟨h, hx⟩, fun hx => hx.2⟩

/-! ## What a computation ends in -/

/-- A computation ends in an error that satisfies `E` or in a value that satisfies `V`. -/
def EndsIn (E : ε → Prop) (V : α → Prop) : Except ε α → Prop
  | .error e => E e
  | .ok a => V a

namespace EndsIn

variable {E : ε → Prop} {V : α → Prop} {W : β → Prop}

theorem ok {a : α} (h : V a) : EndsIn E V (.ok a) :=
  h

theorem of_error {x : Except ε α} {e : ε} (h : EndsIn E V x) (hx : x = .error e) : E e := by
  rwa [hx] at h

theorem of_ok {x : Except ε α} {a : α} (h : EndsIn E V x) (hx : x = .ok a) : V a := by
  rwa [hx] at h

theorem of_cases {x : Except ε α} (he : ∀ e, x = .error e → E e) (ha : ∀ a, x = .ok a → V a) :
    EndsIn E V x := by
  cases x with
  | error e => exact he e rfl
  | ok a => exact ha a rfl

theorem bind {x : Except ε α} {f : α → Except ε β} (hx : EndsIn E V x)
    (hf : ∀ a, V a → EndsIn E W (f a)) : EndsIn E W (x >>= f) := by
  cases x with
  | error e => exact hx
  | ok a => exact hf a hx

theorem map {x : Except ε α} {f : α → β} (hx : EndsIn E V x) (hf : ∀ a, V a → W (f a)) :
    EndsIn E W (x.map f) := by
  cases x with
  | error e => exact hx
  | ok a => exact hf a hx

theorem mono {x : Except ε α} {E' : ε → Prop} {V' : α → Prop} (hx : EndsIn E V x)
    (hE : ∀ e, E e → E' e) (hV : ∀ a, V a → V' a) : EndsIn E' V' x := by
  cases x with
  | error e => exact hE e hx
  | ok a => exact hV a hx

theorem weaken {x : Except ε α} {E' : ε → Prop} (hx : EndsIn E V x) (hE : ∀ e, E e → E' e) :
    EndsIn E' V x :=
  hx.mono hE fun _ => id

theorem ite {c : Prop} [Decidable c] {x y : Except ε α} (hx : c → EndsIn E V x)
    (hy : ¬c → EndsIn E V y) : EndsIn E V (if c then x else y) := by
  split
  · next h => exact hx h
  · next h => exact hy h

/-- A computation that begins with a check ends in its error or as the rest does. -/
theorem check {c : Prop} [Decidable c] {e : ε} {f : α → Except ε β} {x : Except ε β} (he : E e)
    (hx : EndsIn E W x) : EndsIn E W (if c then throw e >>= f else x) := by
  split
  · exact he
  · exact hx

/-- What every step keeps holds at the end of a run over a list. -/
theorem foldlM {f : β → α → Except ε β} (hf : ∀ b a, W b → EndsIn E W (f b a)) {b : β} (hb : W b)
    (as : List α) : EndsIn E W (as.foldlM f b) := by
  induction as generalizing b with
  | nil => exact hb
  | cons a rest ih =>
    rw [List.foldlM_cons]
    exact (hf b a hb).bind fun c hc => ih hc

/-- A step that is taken for each element of a list gives as many values. -/
theorem mapM {f : α → Except ε β} {as : List α} (hf : ∀ a ∈ as, EndsIn E W (f a)) :
    EndsIn E (fun bs => bs.length = as.length) (as.mapM f) := by
  induction as with
  | nil => exact rfl
  | cons a rest ih =>
    rw [List.mapM_cons]
    exact (hf a List.mem_cons_self).bind fun _ _ =>
      (ih fun b hb => hf b (List.mem_cons_of_mem _ hb)).bind fun _ hlength =>
        congrArg (· + 1) hlength

end EndsIn

end SiteRules
