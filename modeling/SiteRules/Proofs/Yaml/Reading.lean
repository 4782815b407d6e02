import SiteRules.Proofs.Text.Utf8
import SiteRules.Proofs.Yaml.Check
import SiteRules.Yaml.Reader

/-!
# When a text has no value

Apart from a text that is not well-formed, there are few reasons why a text has no value
(`Unread`), and the fault tells which: an escape that names no code point, a version with too many
digits, and a scalar of the document that cannot be read. Where nothing in the text is marked, the
scalar is plain and has one of a few forms (`Scalar.Lapse`).
-/

namespace SiteRules.Yaml

/-- A well-formed text has no value. -/
inductive Unread (text : List Char) : Fault → Prop
  | pastRange (h : HoldsPastRange text) : Unread text .codePointRange
  | overflow (h : HoldsOverflow text) : Unread text .codePointOverflow
  | version {count : Nat} (hmany : Literal.maxDigits < count) (h : HoldsDigits text count) :
      Unread text (.number (.tooManyDigits count))
  | node {root n : Nat} {g : Graph} {fault : Fault}
      (spelled : Graph.ofTokens (Token.scan text).1 (Token.scan text).2 = .ok (some (root, g)))
      (fails : (g.get n).Fails fault)
      (cause : '!' ∈ text ∨ ∃ content, g.get n = .scalar (.ofPlain content) content ∧
        Scalar.Lapse content fault) :
      Unread text fault

theorem IsLexical.malformed_or {text : List Char} {fault : Fault} (h : IsLexical text fault) :
    fault = .malformed ∨ Unread text fault := by
  cases fault with
  | malformed => exact .inl rfl
  | codePointRange => exact .inr (.pastRange h)
  | codePointOverflow => exact .inr (.overflow h)
  | number e =>
    obtain ⟨count, hmany, rfl, hdigits⟩ := h
    exact .inr (.version hmany hdigits)
  | _ => exact absurd h id

/-- A text has a value, or it is not well-formed, or there is a reason why it has none. -/
theorem read_fault (levels : Nat) (text : List Char) :
    EndsIn (fun fault => fault = .malformed ∨ Unread text fault) (fun _ => True)
      (read levels text) := by
  obtain ⟨htokens, hfault⟩ := Token.scan_spec text
  have hspec := Graph.ofTokens_spec htokens hfault
  rw [read]
  refine .check (.inl rfl) ?_
  dsimp only
  cases hgraph : Graph.ofTokens (Token.scan text).1 (Token.scan text).2 with
  | error fault => exact IsLexical.malformed_or (hspec.of_error hgraph)
  | ok found =>
    cases found with
    | none => exact trivial
    | some document =>
      obtain ⟨root, g⟩ := document
      show EndsIn _ _ (do
        let g ← g.check root
        return g.toValue levels root)
      refine EndsIn.bind ((g.check_fails root).weaken ?_) fun _ _ => trivial
      rintro fault (rfl | ⟨n, hfails⟩)
      · exact .inl rfl
      · -- the node is one that can be marked, or its kind is told by its spelling
        rcases hspec.of_ok hgraph _ rfl n with hmark | huntagged
        · exact .inr (.node hgraph hfails (.inl hmark))
        · exact (huntagged.lapse_of_fails hfails).imp_right fun hlapse =>
            .node hgraph hfails (.inr hlapse)

/-- Characters are read as they are. -/
theorem readText_ofChars (levels : Nat) (cs : List Char) :
    readText levels (Text.ofChars cs) = read levels cs := by
  have hnone : ¬(Text.ofChars cs).any CodePoint.isSurrogate = true := by
    rw [List.any_eq_true]
    rintro ⟨c, hc, hsurrogate⟩
    exact Text.notMem_ofChars hsurrogate cs hc
  rw [readText, if_neg hnone, Text.map_toChar_ofChars]

/-- What holds of characters holds of code points, of which a surrogate is not well-formed. -/
theorem readText_fault (levels : Nat) (t : Text) :
    EndsIn (fun fault => fault = .malformed ∨ Unread (t.map CodePoint.toChar) fault)
      (fun _ => True) (readText levels t) :=
  .ite (fun _ => .inl rfl) fun _ => read_fault levels _

end SiteRules.Yaml
