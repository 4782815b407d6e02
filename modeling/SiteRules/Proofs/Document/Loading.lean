import SiteRules.Document.File
import SiteRules.Proofs.Path
import SiteRules.Proofs.Yaml.Reading

/-!
# How loading a store fails

A file gives a store, or a failure that names the file, or a fault that is not reported as one of
the file (`Document.isDeclared_load_or_strays`). The last has one of three causes: the system
refuses to tell what is at the path, or the stack does not suffice for what is nested in the file
(`Document.LoadExhausts`), or a text in YAML holds an escape that names no 32-bit integer or a node
that is not of the kind it is marked as (`Yaml.Strays`).
-/

namespace SiteRules

namespace Yaml

/-- A fault of a text that names no rule which the text breaks: an escape names no 32-bit integer,
or a node of the document is not of the kind it is marked as. Where nothing is marked this can only
be a number with too many places. -/
inductive Strays (text : List Char) : Fault → Prop
  | escape (h : HoldsOverflow text) : Strays text .codePointOverflow
  | node {root n : Nat} {g : Graph} {fault : Fault}
      (spelled : Graph.ofTokens (Token.scan text).1 (Token.scan text).2 = .ok (some (root, g)))
      (misfits : (g.get n).Misfits fault) (cause : '!' ∈ text ∨ fault = .placeOverflow) :
      Strays text fault

theorem Node.Misfits.not_isRule {node : Node} {fault : Fault} (h : node.Misfits fault) :
    ¬fault.IsRule := by
  cases h with
  | scalar h => cases h <;> exact id
  | under h => cases h <;> exact id
  | endless _ => exact id
  | time => exact id

theorem Scalar.Lapse.rule_or {content : Text} {fault : Fault} (h : Lapse content fault) :
    fault.IsRule ∨ fault = .placeOverflow := by
  cases h with
  | integer _ h => cases h <;> exact .inl trivial
  | places => exact .inr rfl
  | time => exact .inl trivial

/-- A text that has no value breaks a rule of some kind of value, or it has one of a few other
faults. -/
theorem Unread.rule_or {text : List Char} {fault : Fault} (h : Unread text fault) :
    fault.IsRule ∨ fault = .codePointRange ∨ Strays text fault := by
  cases h with
  | pastRange => exact .inr (.inl rfl)
  | overflow h => exact .inr (.inr (.escape h))
  | version => exact .inl trivial
  | node spelled fails cause =>
    rcases fails.rule_or_misfits with hrule | hmisfits
    · exact .inl hrule
    · refine .inr (.inr (.node spelled hmisfits (cause.imp_right ?_)))
      rintro ⟨content, -, hlapse⟩
      exact hlapse.rule_or.resolve_left hmisfits.not_isRule

/-- A text in YAML has a value, or it breaks a rule, or it has one of a few other faults, which the
text explains. -/
theorem read_spec (levels : Nat) (text : List Char) :
    Reads (fun fault => fault = .codePointRange ∨ Strays text fault) (read levels text) := by
  refine (read_fault levels text).weaken ?_
  rintro fault (rfl | hunread)
  · exact .inl trivial
  · exact hunread.rule_or

end Yaml

namespace Document

theorem isReported_yaml {fault : Yaml.Fault} (h : fault.IsRule ∨ fault = .codePointRange) :
    isReported (.yaml fault) = true := by
  rcases h with hrule | rfl
  · cases fault with
    | malformed | number | calendar => rfl
    | _ => exact absurd hrule id
  · rfl

theorem readText_spec (t : FileTree) (p : Path) :
    EndsIn (fun fault => isReported fault = true) (fun _ => True) (t.readText p) := by
  rw [FileTree.readText]
  split
  · exact rfl
  · split
    · exact rfl
    · exact trivial

/-- A text is read in YAML unless the stack does not suffice, or there is a reported fault, or the
text explains the fault. -/
theorem content_yaml_spec (stack : Stack) (levels : Nat) (cs : List Char) :
    EndsIn (fun fault => isReported fault = true ∨
        (stack.readsYaml (Text.ofChars cs) = false ∧ fault = .exhausted .readingYaml) ∨
        ∃ stray, Yaml.Strays cs stray ∧ fault = .yaml stray)
      (fun _ => True) (Yaml.content stack levels (Text.ofChars cs)) := by
  rw [Yaml.content, Yaml.readText_ofChars]
  refine EndsIn.ite (fun _ => ?_) fun hstack => .inr (.inl ⟨Bool.eq_false_iff.2 hstack, rfl⟩)
  have hspec := Yaml.read_spec levels cs
  cases hread : Yaml.read levels cs with
  | ok v => exact trivial
  | error stray =>
    rcases hspec.of_error hread with hrule | hrange | hstrays
    · exact .inl (isReported_yaml (.inl hrule))
    · exact .inl (isReported_yaml (.inr hrange))
    · exact .inr (.inr ⟨stray, hstrays, rfl⟩)

theorem content_json_spec (stack : Stack) (cs : List Char) :
    EndsIn (fun fault => isReported fault = true ∨
        stack.readsJson (Text.ofChars cs) = false ∧ fault = .exhausted .readingJson)
      (fun _ => True) (Json.content stack cs) := by
  rw [Json.content]
  refine EndsIn.ite (fun _ => ?_) fun hstack => .inr ⟨Bool.eq_false_iff.2 hstack, rfl⟩
  cases Json.read cs with
  | ok v => exact trivial
  | error e => exact .inl rfl

/-- Some work of loading a file goes deeper than the stack allows: its text is read, or a setting of
the document is copied. -/
inductive LoadExhausts (stack : Stack) (t : FileTree) (p : Path) : Recursion → Prop
  | readingJson {cs : List Char} (json : p.isJson = true) (text : t.readText p = .ok cs)
      (deep : stack.readsJson (Text.ofChars cs) = false) : LoadExhausts stack t p .readingJson
  | readingYaml {cs : List Char} (yaml : p.isJson = false) (text : t.readText p = .ok cs)
      (deep : stack.readsYaml (Text.ofChars cs) = false) : LoadExhausts stack t p .readingYaml
  | copying {v : Value} {s : Sites} (value : t.readValue stack levels p = .ok v)
      (valid : read v = .ok s) (deep : canCopy stack s = false) : LoadExhausts stack t p .copying

/-- The value of a file is read, or there is a reported fault, or the stack does not suffice, or the
text of the file in YAML explains the fault. -/
theorem readValue_spec (stack : Stack) (t : FileTree) (p : Path) :
    EndsIn (fun fault => isReported fault = true ∨
        (∃ work, LoadExhausts stack t p work ∧ fault = .exhausted work) ∨
        p.isJson = false ∧
          ∃ text stray, t.readText p = .ok text ∧ Yaml.Strays text stray ∧ fault = .yaml stray)
      (fun _ => True) (t.readValue stack levels p) := by
  rw [FileTree.readValue]
  cases htext : t.readText p with
  | error fault => exact .inl ((readText_spec t p).of_error htext)
  | ok text =>
    refine EndsIn.ite (fun hjson => ?_) fun hyaml => ?_
    · refine (content_json_spec stack text).weaken fun fault hfault => hfault.imp_right ?_
      rintro ⟨hdeep, rfl⟩
      exact .inl ⟨_, .readingJson hjson htext hdeep, rfl⟩
    · refine (content_yaml_spec stack levels text).weaken fun fault hfault => hfault.imp_right ?_
      have hyaml := Bool.eq_false_iff.2 hyaml
      rintro (⟨hdeep, rfl⟩ | ⟨stray, hstrays, rfl⟩)
      · exact .inl ⟨_, .readingYaml hyaml htext hdeep, rfl⟩
      · exact .inr ⟨hyaml, text, stray, rfl, hstrays, rfl⟩

/-- A load goes as it is declared: it gives a store, or a failure that names the file. -/
def IsDeclared (p : Path) : Except LoadError Sites → Prop
  | .ok _ => True
  | .error (.unreadable q _) | .error (.invalid q _) => q = p
  | .error (.unexpected _) => False

instance (p : Path) : DecidablePred (IsDeclared p)
  | .ok _ => .isTrue trivial
  | .error (.unreadable q _) | .error (.invalid q _) => inferInstanceAs (Decidable (q = p))
  | .error (.unexpected _) => .isFalse id

/-- The stack is exhausted by a store of which not all settings can be copied. -/
theorem build_eq_exhausted {stack : Stack} {v : Value} (h : build stack v = .error .exhausted) :
    ∃ s, read v = .ok s ∧ canCopy stack s = false := by
  unfold build at h
  split at h
  · cases h
  · next s hread =>
    split at h
    · cases h
    · next hdeep => exact ⟨s, hread, Bool.eq_false_iff.2 hdeep⟩

/-- Loading a file goes as it is declared, or the system refuses to tell what is at the path, or the
stack does not suffice for what the file holds, or the file is in YAML and its text explains a fault
that is not reported as one of the file. -/
theorem isDeclared_load_or_strays (stack : Stack) (t : FileTree) (p : Path) :
    IsDeclared p (load stack t p) ∨
      (∃ e, t.has p = .error e ∧ e.isRefusal = true ∧
        load stack t p = .error (.unexpected (.file e))) ∨
      (∃ work, LoadExhausts stack t p work ∧
        load stack t p = .error (.unexpected (.exhausted work))) ∨
      p.isJson = false ∧ ∃ text fault, t.readText p = .ok text ∧ Yaml.Strays text fault ∧
        load stack t p = .error (.unexpected (.yaml fault)) := by
  have hvalue := readValue_spec stack t p
  unfold load
  split
  · next e hhas => exact .inr (.inl ⟨e, hhas, FileTree.has_spec.of_error hhas, rfl⟩)
  · exact .inl trivial
  · split
    · next fault hread =>
      split
      · exact .inl rfl
      · next hreported =>
        rcases hvalue.of_error hread with
          hyes | ⟨work, hexhausts, rfl⟩ | ⟨hjson, text, stray, htext, hstrays, rfl⟩
        · exact absurd hyes hreported
        · exact .inr (.inr (.inl ⟨work, hexhausts, rfl⟩))
        · exact .inr (.inr (.inr ⟨hjson, text, stray, htext, hstrays, rfl⟩))
    · next v hread =>
      split
      · exact .inl rfl
      · next hbuild =>
        obtain ⟨s, hvalid, hdeep⟩ := build_eq_exhausted hbuild
        exact .inr (.inr (.inl ⟨.copying, .copying hread hvalid hdeep, rfl⟩))
      · exact .inl trivial

/-- The path of a file in YAML. -/
def yamlFile : Path := ⟨0, [Text.ofString "s.yaml"]⟩

/-- The tree with one file, which marks a word that is no truth value as one. -/
def oneMisfit : FileTree where
  nodes := OrderedMap.ofList [([Text.ofString "s.yaml"], .file (Utf8.encode "!!bool x".toList))]
  working := []

/-- A file that is there is loaded neither as a store nor with a failure that names it, even where
the stack suffices for everything. -/
theorem not_isDeclared_load : oneMisfit.has yamlFile = .ok true ∧
    ¬IsDeclared yamlFile (load .boundless oneMisfit yamlFile) := by
  decide +kernel

end Document

end SiteRules
