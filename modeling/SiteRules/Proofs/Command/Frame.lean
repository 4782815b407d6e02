import SiteRules.Command.Run
import SiteRules.Proofs.Document.File
import SiteRules.Proofs.Store.Ranking

/-!
# What a run changes

Only the command that writes a setting changes files, and of these only the file of the store. A
run that fails has changed no file, except in two cases (`Session.Spoils`). The file of the store
can be cut off: the device fails, or the store is kept in JSON and a text in it holds a surrogate,
which shows only when the text is encoded, after the file has been emptied. Or the store has been
saved, and then the output refuses the answer (`Command.run_frame`, `Command.run_empties_store`).
-/

namespace SiteRules

/-! ## Writing a setting -/

namespace Session

/-- The path of the store for some options: the one that is asked for, else the configured one. -/
def IsStorePath (env : Environment) (t : FileTree) (o : Options) (p : Path) : Prop :=
  ∃ config, Config.loadOrDefault env t (o.config.map Path.ofText) = .ok config ∧
    p = (o.store.map Path.ofText).getD config.storeFile

theorem isStorePath_of_start {env : Environment} {t : FileTree} {o : Options} {session : Session}
    (h : start env t o = .ok session) : IsStorePath env t o session.path := by
  unfold start at h
  split at h
  · cases h
  · next config hconfig =>
    dsimp only at h
    split at h
    · cases h
    · cases h
      exact ⟨config, hconfig, rfl⟩

/-- How a write fails after it has changed the file of the store: the file is cut off, or the output
refuses the answer. -/
inductive Spoils (session : Session) (t : FileTree) (target key word : Text) :
    Outcome → FileTree → Prop
  | cutOff {value : Value} {text : Text} {e : Document.SaveError} {log : List LogLine}
      {t' : FileTree} (value_eq : valueOfWord session.env.stack word = .ok value)
      (rendered : Document.render session.env.stack session.path
        (session.sites.merge target key value) session.config.sortPatterns = .ok text)
      (cut : Document.IsCutOff t session.path text t' e) :
      Spoils session t target key word (.ofSaveError log e) t'
  | unanswered {value : Value} {wording : String} {log : List LogLine} {t' : FileTree}
      (value_eq : valueOfWord session.env.stack word = .ok value)
      (saved : Document.save session.env.stack t session.path
        (session.sites.merge target key value) session.config.sortPatterns = (t', .ok ()))
      (refused : session.env.refusal? (Outcome.lines (writtenLine target key value.shown)) =
        some wording)
      (others : t.SameFilesButAt session.path t') :
      Spoils session t target key word (.abort log (.output wording)) t'

/-- A setting that has been written is in the list that is saved. -/
theorem exists_mem_listed_merge (s : Sites) (pattern key : Text) (value : Value) (ranked : Bool) :
    ∃ record, (pattern, record) ∈ (s.merge pattern key value).listed ranked ∧
      (key, value) ∈ record.entries := by
  refine ⟨((s.get? pattern).getD .empty).insert key value, Store.mem_listed.2 ?_,
    OrderedMap.mem_entries_iff.2 ?_⟩
  · rw [Store.get?_merge, if_pos rfl]
  · rw [OrderedMap.get?_insert, if_pos BEq.rfl]

/-- A value that has been saved is shown. -/
theorem show?_of_save {stack : Stack} {t t' : FileTree} {p : Path} {s : Sites} {pattern key : Text}
    {value : Value} {ranked : Bool}
    (h : Document.save stack t p (s.merge pattern key value) ranked = (t', .ok ())) :
    value.show? = .ok value.shown := by
  obtain ⟨text, -, -, hrender, -⟩ := Document.save_eq_ok h
  obtain ⟨record, hlisted, hmem⟩ := exists_mem_listed_merge s pattern key value ranked
  exact if_pos (Document.isSpellable_of_render hrender hlisted hmem)

theorem status_ofSaveError (log : List LogLine) (e : Document.SaveError) :
    (Outcome.ofSaveError log e).status = 1 := by
  cases e <;> rfl

/-- How a write of a value ends: the value is not copied, or the store is not saved, or it is saved
and the answer tells the setting. -/
inductive Ends (session : Session) (t : FileTree) (target key : Text) (value : Value) :
    Outcome × FileTree → Prop
  | uncopied (deep : session.env.stack.copies value = false) :
      Ends session t target key value (.abort (session.told []) (.exhausted .copying), t)
  | unsaved {log : List LogLine} {e : Document.SaveError} {t' : FileTree}
      (copied : session.env.stack.copies value = true)
      (h : Document.save session.env.stack t session.path (session.sites.merge target key value)
        session.config.sortPatterns = (t', .error e)) :
      Ends session t target key value (.ofSaveError log e, t')
  | saved {log : List LogLine} {t' : FileTree} (copied : session.env.stack.copies value = true)
      (h : Document.save session.env.stack t session.path (session.sites.merge target key value)
        session.config.sortPatterns = (t', .ok ())) :
      Ends session t target key value
        (.answer session.env log (writtenLine target key value.shown), t')

theorem ends_writeValue (session : Session) (t : FileTree) (target key : Text) (value : Value) :
    session.Ends t target key value (session.writeValue t target key value) := by
  unfold writeValue
  split
  · next hdeep => exact .uncopied (by simpa using hdeep)
  · next hcopied =>
    have hcopied : session.env.stack.copies value = true := by simpa using hcopied
    dsimp only
    split
    · next hsave => exact .unsaved hcopied hsave
    · next hsave =>
      -- what has been saved can be shown
      rw [show?_of_save hsave]
      exact .saved hcopied hsave

/-- A write that succeeds changes at most the file of the store, and one that fails changes no file
or spoils that one. -/
theorem write_frame {session : Session} {t t' : FileTree} {target key word : Text}
    {outcome : Outcome} (h : session.write t target key word = (outcome, t')) :
    (outcome.status = 0 ∧ t.SameFilesButAt session.path t') ∨
      (outcome.status ≠ 0 ∧
        (t.SameFiles t' ∨ session.Spoils t target key word outcome t')) := by
  unfold write at h
  split at h
  · cases h
    exact .inr ⟨Nat.one_ne_zero, .inl (.refl t)⟩
  · next value hvalue =>
    have hends := session.ends_writeValue t target key value
    rw [h] at hends
    cases hends with
    | uncopied => exact .inr ⟨Nat.one_ne_zero, .inl (.refl t)⟩
    | unsaved _ hsave =>
      refine .inr ⟨?_, (Document.save_eq_error hsave).imp_right ?_⟩
      · rw [status_ofSaveError]
        exact Nat.one_ne_zero
      · rintro ⟨text, hrender, hcut⟩
        exact .cutOff hvalue hrender hcut
    | saved _ hsave =>
      obtain ⟨-, -, l, -, -, -, hlocate, -, hbut⟩ := Document.save_eq_ok hsave
      unfold Outcome.answer
      split
      · exact .inl ⟨rfl, l, hlocate, hbut⟩
      · next wording hrefused =>
        exact .inr ⟨Nat.one_ne_zero, .inr (.unanswered hvalue hsave hrefused ⟨l, hlocate, hbut⟩)⟩

end Session

/-! ## Runs -/

namespace Command

/-- Whether a command writes a setting. -/
def IsSet : Command → Prop
  | set .. => True
  | _ => False

/-- A run leaves the tree as it is, or it writes a setting in a store that has been opened. -/
theorem run_cases (env : Environment) (t : FileTree) (args : List Text) :
    (run env t args).2 = t ∨ ∃ target key word o session,
      parse? args = some (.set target key word o) ∧ Session.start env t o = .ok session ∧
        run env t args = session.write t target key word := by
  unfold run
  cases parse? args with
  | none => exact .inl rfl
  | some command =>
    dsimp only
    split
    · exact .inl rfl
    · exact .inl rfl
    · cases command with
      | set target key word o =>
        show (execute env t (.set target key word o)).2 = t ∨ _
        rw [execute]
        cases hstart : Session.start env t o with
        | error outcome => exact .inl rfl
        | ok session => exact .inr ⟨target, key, word, o, session, rfl, hstart, rfl⟩
      | _ => exact .inl rfl

/-- A run that writes no setting leaves the tree as it is. One that succeeds changes at most the
file of the store. One that fails changes no file, or it has cut off the file of the store, or it
has saved the store and cannot tell so. -/
theorem run_frame (env : Environment) (t : FileTree) (args : List Text) :
    let outcome := (run env t args).1
    let t' := (run env t args).2
    ((∀ command, parse? args = some command → ¬command.IsSet) → t' = t) ∧
    (outcome.status = 0 → t.SameFiles t' ∨ ∃ target key word o path,
      parse? args = some (.set target key word o) ∧ Session.IsStorePath env t o path ∧
        t.SameFilesButAt path t') ∧
    (outcome.status ≠ 0 → t.SameFiles t' ∨ ∃ target key word o session,
      parse? args = some (.set target key word o) ∧ Session.start env t o = .ok session ∧
        Session.IsStorePath env t o session.path ∧
        session.Spoils t target key word outcome t') := by
  intro outcome t'
  rcases run_cases env t args with htree | ⟨target, key, word, o, session, hparse, hstart, hrun⟩
  · have hsame : t.SameFiles t' := by
      show t.SameFiles (run env t args).2
      rw [htree]
      exact .refl t
    exact ⟨fun _ => htree, fun _ => .inl hsame, fun _ => .inl hsame⟩
  · have hpath := Session.isStorePath_of_start hstart
    refine ⟨fun hnot => absurd trivial (hnot _ hparse), ?_⟩
    rcases Session.write_frame hrun.symm with ⟨hstatus, hbut⟩ | ⟨hstatus, hfailed⟩
    · exact ⟨fun _ => .inr ⟨target, key, word, o, session.path, hparse, hpath, hbut⟩,
        fun hne => absurd hstatus hne⟩
    · refine ⟨fun hzero => absurd hzero hstatus, fun _ => ?_⟩
      rcases hfailed with hsame | hspoils
      · exact .inl hsame
      · exact .inr ⟨target, key, word, o, session, hparse, hstart, hpath, hspoils⟩

/-- The tree with one file `s.json`, which holds a store with one setting. -/
def oneStore : FileTree where
  nodes := OrderedMap.ofList [([Text.ofString "s.json"],
    .file (Utf8.encode "\x7b\"sites\": \x7b\"http://a\": \x7b\"zoom\": 1\x7d\x7d\x7d".toList))]
  working := []

/-- The arguments that ask for a setting that is a surrogate, spelled as an escape. -/
def surrogateArguments : List Text :=
  ["set", "http://a", "zoom", "\"\\ud800\"", "--store", "s.json"].map Text.ofString

/-- A run that fails has emptied the file of the store. -/
theorem run_empties_store :
    (run .bare oneStore surrogateArguments).1.status = 1 ∧
      ¬oneStore.SameFiles (run .bare oneStore surrogateArguments).2 := by
  have hstatus : (run .bare oneStore surrogateArguments).1.status = 1 := by decide +kernel
  have hempty : (run .bare oneStore surrogateArguments).2.at? [Text.ofString "s.json"] =
      some (.file []) := by
    decide +kernel
  have hbefore : oneStore.at? [Text.ofString "s.json"] ≠ some (.file []) := by decide +kernel
  refine ⟨hstatus, fun hsame => hbefore ?_⟩
  exact (hsame _ _).1 hempty

end Command

end SiteRules
