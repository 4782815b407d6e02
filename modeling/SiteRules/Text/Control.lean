import SiteRules.Text.CodePoint

/-!
# Control sequences

A terminal takes an escape, a bracket, digits and a letter for an order to itself. Output that does
not go to a terminal leaves such sequences out.
-/

namespace SiteRules.Text

/-- Whether a code point can stand between the bracket and the letter of a control sequence. -/
def isControlPart (c : CodePoint) : Bool :=
  c = ';' || c = '?' || c.isBasicDigit

/-- What follows the control sequence in front of a text, if there is one. -/
def behindControl? : Text → Option Text
  | escape :: bracket :: rest =>
    if escape = '\x1b' && bracket = '[' then
      match rest.dropWhile isControlPart with
      | letter :: rest' => if letter.isBasicLetter then some rest' else none
      | [] => none
    else none
  | _ => none

/-- What follows a control sequence is shorter than the text. -/
theorem length_behindControl? {t rest : Text} (h : behindControl? t = some rest) :
    rest.length < t.length := by
  unfold behindControl? at h
  split at h
  · next parts =>
    split at h
    · split at h
      · next letter rest' hdrop =>
        have hle := (List.dropWhile_sublist isControlPart (l := parts)).length_le
        split at h <;> grind
      · cases h
    · cases h
  · cases h

/-- A text without its control sequences. -/
def withoutControls (t : Text) : Text :=
  match _h : behindControl? t with
  | some rest => withoutControls rest
  | none => match t with
    | [] => []
    | c :: rest => c :: withoutControls rest
termination_by t.length
decreasing_by
  · exact length_behindControl? _h
  · simp

end SiteRules.Text
