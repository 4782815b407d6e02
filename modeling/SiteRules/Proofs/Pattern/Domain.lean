import SiteRules.Proofs.Pattern.Coverage
import SiteRules.Proofs.Text.CodePoint

/-!
# Domains and their labels

A domain accepts itself and the hosts that end with a point and the domain. In terms of the labels
between the points this means that the labels of the host end with those of the domain
(`HostRule.within_accepts_iff_labels`): the domain never begins in the middle of a label. The
domains of one host are ends of one list of labels, which makes any two domains either nested or
disjoint (`HostRule.within_byLabels_nested`).
-/

namespace SiteRules

/-- The labels of a host: what stands between its points, empty labels included. -/
def Text.labels (host : Text) : List Text :=
  host.splitAt '.'

/-- The labels of a host are the only texts without a point that it is joined from by points. -/
theorem Text.labels_eq_iff {host : Text} {labels : List Text} :
    host.labels = labels ↔ labels ≠ [] ∧ (∀ label ∈ labels, CodePoint.ofChar '.' ∉ label) ∧
      [CodePoint.ofChar '.'].intercalate labels = host :=
  splitAt_eq_iff

namespace HostRule

/-- A domain accepts the hosts whose labels end with its own. -/
theorem within_accepts_iff_labels {domain host : Text} :
    (within domain).accepts host = true ↔ domain.labels <:+ host.labels := by
  unfold Text.labels
  rw [within_accepts_iff, Text.splitAt_suffix_iff]

/-- A rule encloses a domain that it accepts together with all hosts of the domain. -/
def Encloses (rule : HostRule) (domain : Text) : Prop :=
  rule.accepts domain = true ∧
    ∀ host, (within domain).accepts host = true → rule.accepts host = true

/-- A domain encloses the domains whose labels end with its own: one that is among its hosts brings
all of its hosts along. -/
theorem within_encloses_iff {outer inner : Text} :
    (within outer).Encloses inner ↔ outer.labels <:+ inner.labels := by
  rw [← within_accepts_iff_labels]
  unfold Encloses
  apply and_iff_left_of_imp
  intro houter host hhost
  exact within_accepts_trans houter hhost

/-- The hosts of a domain are those whose labels end with the labels of the domain. Two domains have
a host in common exactly if one of them encloses the other one. -/
theorem within_byLabels_nested :
    (∀ domain host : Text,
      (within domain).accepts host = true ↔ domain.labels <:+ host.labels) ∧
    ∀ a b : Text,
      (∃ host, (within a).accepts host = true ∧ (within b).accepts host = true) ↔
        (within a).Encloses b ∨ (within b).Encloses a := by
  refine ⟨fun domain host => within_accepts_iff_labels, fun a b => ?_⟩
  rw [within_encloses_iff, within_encloses_iff]
  constructor
  · intro ⟨host, ha, hb⟩
    rw [within_accepts_iff_labels] at ha hb
    -- of two ends of one list of labels the shorter one is an end of the longer one
    exact List.suffix_or_suffix_of_suffix ha hb
  · intro hnested
    have hself (domain : Text) : (within domain).accepts domain = true :=
      within_accepts_iff.2 (.inl rfl)
    rcases hnested with hab | hba
    · exact ⟨b, within_accepts_iff_labels.2 hab, hself b⟩
    · exact ⟨a, hself a, within_accepts_iff_labels.2 hba⟩

/-- An end of a host that begins inside a label is not a domain of the host, and neither is one that
leaves out an empty label at the end. -/
example :
    (within (Text.ofString "brave.com")).accepts (Text.ofString "www.brave.com") = true ∧
      (within (Text.ofString "brave.com")).accepts (Text.ofString "notbrave.com") = false ∧
      (within (Text.ofString "brave.com")).accepts (Text.ofString "www.brave.com.") = false := by
  decide

end HostRule

end SiteRules
