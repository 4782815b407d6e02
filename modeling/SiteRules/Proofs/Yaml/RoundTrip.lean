import SiteRules.Proofs.Yaml.Composed
import SiteRules.Proofs.Yaml.Unfolding
import SiteRules.Yaml.Reader

/-!
# What is read from the YAML text of a value

The text of a mapping of which all parts can be loaded is read as the image of the mapping, if its
draft can be read back (`Yaml.read_of_write`).
-/

namespace SiteRules.Yaml

variable {owner : Mark → Value} {v : Value} {cs : List Char}

/-- Whether a value is a mapping that is not empty. -/
def IsFilled (v : Value) : Prop :=
  ∃ entries, v = .map entries ∧ entries ≠ []

theorem exists_draft (h : IsFilled v) :
    ∃ entries, entries ≠ [] ∧ Draft.ofValue v = .mapping none false entries := by
  obtain ⟨entries, rfl, hne⟩ := h
  obtain ⟨⟨key, value⟩, rest, rfl⟩ := List.exists_cons_of_ne_nil hne
  exact ⟨_, List.cons_ne_nil _ _, rfl⟩

/-- The tokens of a mapping that can be loaded are found in its text. -/
theorem scan_of_write (hfilled : IsFilled v) (h : Loadable owner v)
    (readable : Draft.Readable none .item (Draft.ofValue v)) (hwrite : write v = .ok cs) :
    (∀ d ∈ cs, isWritten d = true) ∧
      Token.scan cs = (Draft.tokens .item (Draft.ofValue v) ++ [.streamEnd], none) := by
  unfold write at hwrite
  split at hwrite
  · next hspellable =>
    have hdrawn : Draft.Drawn (Draft.ofValue v) := Draft.drawn_of_loadable h hspellable none []
    obtain ⟨entries, hne, hdraft⟩ := exists_draft hfilled
    rw [hdraft] at readable hdrawn hwrite ⊢
    exact Draft.scan_put hne readable hdrawn (Except.ok.inj hwrite).symm
  · cases hwrite

theorem isAllowed_of_isWritten {d : Char} (h : isWritten d = true) : isAllowed d = true := by
  rw [isWritten, Bool.and_eq_true, Bool.and_eq_true] at h
  exact h.1.1

/-- The text of a mapping is read as the image of the mapping, apart from marks. -/
theorem read_of_write (hfilled : IsFilled v) (h : Loadable owner v)
    (readable : Draft.Readable none .item (Draft.ofValue v)) (hwrite : write v = .ok cs)
    (levels : Nat) : ∃ w, read levels cs = .ok w ∧ Graph.Opens levels w (image v) := by
  have hspellable := isSpellable_of_write hwrite
  have hdrawn : Draft.Drawn (Draft.ofValue v) := Draft.drawn_of_loadable h hspellable none []
  obtain ⟨hwritten, hscan⟩ := scan_of_write hfilled h readable hwrite
  obtain ⟨n, nodes, anchors, hcompose, hspells⟩ := Draft.spells_ofValue h hspellable
  have hallowed : cs.all isAllowed = true :=
    List.all_eq_true.2 fun d hd => isAllowed_of_isWritten (hwritten d hd)
  refine ⟨Graph.toValue ⟨nodes.toArray⟩ levels n, ?_, Graph.toValue_opens hspells levels⟩
  rw [read, hallowed, hscan]
  dsimp only [bind, Except.bind, pure, Except.pure]
  rw [Graph.ofTokens_tokens hdrawn hcompose]
  dsimp only
  rw [Graph.check_of_spells hspells]
  rfl

/-- The text of a mapping has line feeds for all line ends. -/
theorem return_notMem_of_write (hfilled : IsFilled v) (h : Loadable owner v)
    (readable : Draft.Readable none .item (Draft.ofValue v)) (hwrite : write v = .ok cs) :
    '\r' ∉ cs := by
  intro hmem
  have hwritten := (scan_of_write hfilled h readable hwrite).1 _ hmem
  cases hwritten

end SiteRules.Yaml
