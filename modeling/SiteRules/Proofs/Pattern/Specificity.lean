import SiteRules.Pattern.Specificity

/-!
# The order of specificities

Specificities are compared digit by digit from the most significant one on (`Specificity.Lower`).
Their weights, which the look-ups compare, are in the same order (`Specificity.lower_iff`).
-/

namespace SiteRules.Specificity

/-- One specificity is lower than another one in the lexicographic order of their digits. -/
def Lower (a b : Specificity) : Prop :=
  List.Lex (· < ·) a.digits b.digits

/-- The order of weights is the lexicographic order of digits. -/
theorem lower_iff {a b : Specificity} : a.Lower b ↔ a.weight < b.weight := by
  obtain ⟨a1, a2, a3, a4, a5⟩ := a
  obtain ⟨b1, b2, b3, b4, b5⟩ := b
  simp only [Lower, weight, digits, List.cons_lex_cons_iff, List.not_lex_nil, and_false, or_false]
  omega

theorem le_iff_not_lower {a b : Specificity} : a ≤ b ↔ ¬b.Lower a := by
  rw [lower_iff, Nat.not_lt]
  exact Iff.rfl

/-- The greatest weight, which all digits at their greatest have. -/
theorem weight_le (s : Specificity) : s.weight ≤ (⟨1, 1, 2, 2, 2⟩ : Specificity).weight := by
  obtain ⟨scope, path, host, port, protocol⟩ := s
  have hscope := scope.isLt
  have hpath := path.isLt
  have hhost := host.isLt
  have hport := port.isLt
  have hprotocol := protocol.isLt
  show (((scope.val * 2 + path.val) * 3 + host.val) * 3 + port.val) * 3 + protocol.val ≤ 107
  omega

/-- Where only the digit of the port can be the greater one, it decides, provided that the digits
before it are equal. -/
theorem lower_iff_port_lt {a b : Specificity} (hscope : a.scope = b.scope) (hpath : a.path ≤ b.path)
    (hhost : a.host ≤ b.host) (hprotocol : a.protocol ≤ b.protocol) :
    b.Lower a ↔ a.path = b.path ∧ a.host = b.host ∧ b.port < a.port := by
  obtain ⟨a1, a2, a3, a4, a5⟩ := a
  obtain ⟨b1, b2, b3, b4, b5⟩ := b
  simp only at hscope hpath hhost hprotocol
  simp only [Lower, digits, List.cons_lex_cons_iff, List.not_lex_nil, and_false, or_false]
  omega

end SiteRules.Specificity
