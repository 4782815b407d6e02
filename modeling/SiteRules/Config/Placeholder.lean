import SiteRules.Environment
import SiteRules.Text.Word

/-!
# Placeholders

A configuration can name variables: a dollar sign and a name in braces stand for the value of the
variable, and for nothing if there is none. What is filled in is not searched again.
-/

namespace SiteRules

namespace Text

/-- The name in a placeholder at the front of a text, and what follows it. -/
def placeholder? : Text → Option (Text × Text)
  | dollar :: brace :: rest =>
    if dollar = '$' && brace = '\x7b' then
      match rest.dropWhile CodePoint.isWord with
      | [] => none
      | closing :: after =>
        let name := rest.takeWhile CodePoint.isWord
        if closing = '\x7d' && !name.isEmpty then some (name, after) else none
    else none
  | _ => none

/-- A placeholder takes at least one code point. -/
theorem placeholder?_length_lt {t name rest : Text} (h : placeholder? t = some (name, rest)) :
    rest.length < t.length := by
  unfold placeholder? at h
  split at h
  · next dollar brace tail =>
    split at h
    · split at h
      · simp at h
      · next closing after hdrop =>
        have hle := (List.dropWhile_sublist CodePoint.isWord (l := tail)).length_le
        simp only [Option.ite_none_right_eq_some, Option.some.injEq, Prod.mk.injEq] at h
        rw [hdrop, h.2.2] at hle
        simp only [List.length_cons] at hle ⊢
        omega
    · simp at h
  · simp at h

/-- A text with its placeholders filled in, from left to right. -/
def fill (value : Text → Text) (t : Text) : Text :=
  match h : placeholder? t with
  | some (name, rest) =>
    have := placeholder?_length_lt h
    value name ++ fill value rest
  | none => match t with
    | [] => []
    | c :: rest => c :: fill value rest
termination_by t.length

end Text

/-- A text with the values of variables in place of the placeholders that name them. -/
def Environment.interpolate (env : Environment) (t : Text) : Text :=
  t.fill fun name => (env.valueOf? name).getD []

end SiteRules
