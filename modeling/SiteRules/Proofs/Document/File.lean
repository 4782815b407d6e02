import SiteRules.Document.File
import SiteRules.Proofs.FileTree
import SiteRules.Proofs.Text.Utf8
import SiteRules.Proofs.Value.Spellable

/-!
# What saving a store changes

A store is spelled out before its file is touched, so that what cannot be spelled leaves all files
as they are. If saving succeeds, only the file of the store has changed (`Document.save_eq_ok`). If
it fails, no file has changed, or the file of the store holds the beginning of the text
(`Document.save_eq_error`): nothing if the text held a surrogate, which shows only when the file has
been emptied, or what the device took before it failed. YAML escapes surrogates, JSON does not.
-/

namespace SiteRules

namespace FileTree

variable {t t' : FileTree} {p : Path} {text : Text} {content : List UInt8} {e : FileError}

/-- How writing a text fails: the file cannot be written, or the text cannot be encoded and leaves
the file empty, or the device takes a part of the content. -/
inductive WriteFails (t : FileTree) (p : Path) (text : Text) : FileTree → FileError → Prop
  | unwritten {content : List UInt8} {e : FileError} (h : t.write p content = .error e) :
      WriteFails t p text t e
  | emptied {t' : FileTree} {e : Utf8.EncodeError} (encoded : Utf8.encodeText text = .error e)
      (written : t.write p [] = .ok t') : WriteFails t p text t' (.surrogate e)
  | cutShort {t' : FileTree} {content : List UInt8} {taken : Nat} {reason : FileError.Reason}
      (encoded : Utf8.encodeText text = .ok content)
      (shortage : t.shortage? p content = some (taken, reason))
      (written : t.write p (content.take taken) = .ok t') :
      WriteFails t p text t' (.cutShort reason)

theorem writeAndFail_eq {failure : FileError}
    (h : t.writeAndFail p content failure = (t', .error e)) :
    (t' = t ∧ t.write p content = .error e) ∨ (e = failure ∧ t.write p content = .ok t') := by
  unfold writeAndFail at h
  split at h
  · next hwrite =>
    cases h
    exact .inr ⟨rfl, hwrite⟩
  · next hfailed =>
    cases h
    exact .inl ⟨rfl, hfailed⟩

theorem writeAndFail_ne_ok (failure : FileError) :
    t.writeAndFail p content failure ≠ (t', .ok ()) := by
  intro h
  unfold writeAndFail at h
  split at h
  · cases h
  · cases h

/-- A text that is written has been encoded before, and the device takes all of it. -/
theorem writeText_eq_ok (h : t.writeText p text = (t', .ok ())) :
    ∃ content, Utf8.encodeText text = .ok content ∧ t.write p content = .ok t' := by
  unfold writeText at h
  split at h
  · exact absurd h (writeAndFail_ne_ok _)
  · next content hencode =>
    split at h
    · exact absurd h (writeAndFail_ne_ok _)
    · split at h
      · next hwrite =>
        cases h
        exact ⟨content, hencode, hwrite⟩
      · cases h

theorem writeText_eq_error (h : t.writeText p text = (t', .error e)) :
    t.WriteFails p text t' e := by
  unfold writeText at h
  split at h
  · next surrogate hencode =>
    rcases writeAndFail_eq h with ⟨rfl, hfailed⟩ | ⟨rfl, hwrite⟩
    · exact .unwritten hfailed
    · exact .emptied hencode hwrite
  · next content hencode =>
    split at h
    · next taken reason hshortage =>
      rcases writeAndFail_eq h with ⟨rfl, hfailed⟩ | ⟨rfl, hwrite⟩
      · exact .unwritten hfailed
      · exact .cutShort hencode hshortage hwrite
    · split at h
      · cases h
      · next hfailed =>
        cases h
        exact .unwritten hfailed

end FileTree

namespace Document

variable {stack : Stack} {t t' : FileTree} {p : Path} {s : Sites} {ranked : Bool}

/-! ## Spelling out a store -/

/-- The text of a value is one in the format that the name of the file tells. -/
theorem textFor_eq_ok {v : Value} {text : Text} (h : textFor stack p v = .ok text) :
    (p.isJson = true ∧ stack.writesJson v = true ∧ Json.write v = .ok text) ∨
      (p.isJson = false ∧ stack.writesYaml v = true ∧
        ∃ cs, Yaml.write v = .ok cs ∧ text = Text.ofChars cs) := by
  unfold textFor at h
  split at h
  · next hjson =>
    split at h
    · next hstack =>
      split at h
      · next hwrite =>
        cases h
        exact .inl ⟨hjson, hstack, hwrite⟩
      · cases h
    · cases h
  · next hyaml =>
    split at h
    · next hstack =>
      split at h
      · next cs hwrite =>
        cases h
        exact .inr ⟨Bool.eq_false_iff.2 hyaml, hstack, cs, hwrite, rfl⟩
      · cases h
    · cases h

theorem isSpellable_of_textFor {v : Value} {text : Text} (h : textFor stack p v = .ok text) :
    v.isSpellable = true := by
  rcases textFor_eq_ok h with ⟨-, -, hwrite⟩ | ⟨-, -, cs, hwrite, -⟩
  · exact Json.isSpellable_of_write hwrite
  · exact Yaml.isSpellable_of_write hwrite

/-- A store is spelled out if it can be copied and the document of it has a text. -/
theorem render_eq_ok_iff {text : Text} : render stack p s ranked = .ok text ↔
    canCopy stack s = true ∧ textFor stack p (ofStore s ranked) = .ok text := by
  unfold render
  split
  · next h => exact (and_iff_right h).symm
  · next h => exact iff_of_false nofun fun hno => h hno.1

theorem isSpellable_mapping {entries : List (Text × Value)} :
    (mapping entries).isSpellable = true ↔ ∀ e ∈ entries, e.2.isSpellable = true := by
  show Value.areSpellableEntries _ = true ↔ _
  rw [Value.areSpellableEntries_iff, List.forall_mem_map]
  exact forall₂_congr fun e _ => and_iff_right rfl

/-- All settings of a store that is spelled out can be spelled. -/
theorem isSpellable_of_render {text : Text} (h : render stack p s ranked = .ok text)
    {pattern key : Text} {record : Record Text Value} {v : Value}
    (hlisted : (pattern, record) ∈ s.listed ranked) (hv : (key, v) ∈ record.entries) :
    v.isSpellable = true := by
  have hdocument := isSpellable_of_textFor (render_eq_ok_iff.1 h).2
  unfold ofStore at hdocument
  have hsites := isSpellable_mapping.1 hdocument _ (List.mem_cons_of_mem _ List.mem_cons_self)
  have hsite := isSpellable_mapping.1 hsites _ (List.mem_map_of_mem hlisted)
  have hsetting := isSpellable_mapping.1 hsite _ (List.mem_map_of_mem hv)
  exact Value.isSpellable_of_rebuild hsetting

/-! ## Saving -/

/-- A store that has been saved is in the file of its path, and no other file has changed. -/
theorem save_eq_ok (h : save stack t p s ranked = (t', .ok ())) :
    ∃ text content l, render stack p s ranked = .ok text ∧ Utf8.encodeText text = .ok content ∧
      FileTree.checkPath .nullByte p = .ok () ∧ t'.locate p = .ok l ∧
      t'.at? l = some (.file content) ∧ t.SameFilesBut l t' := by
  unfold save at h
  split at h
  · cases h
  · next text hrender =>
    split at h
    · cases h
    · next above habove =>
      split at h
      · cases h
      · next hwritten =>
        cases h
        obtain ⟨content, hencode, hwrite⟩ := FileTree.writeText_eq_ok hwritten
        obtain ⟨hcheck, l, hlocate, hfile, hbut⟩ := FileTree.of_write_eq_ok hwrite
        have hsame := FileTree.makeDirectories_sameFiles t p.parent
        rw [habove] at hsame
        exact ⟨text, content, l, hrender, hencode, hcheck, hlocate, hfile, hsame.but hbut⟩

/-- What has been saved changes nothing about what the system refuses. -/
theorem refusal?_of_save (h : save stack t p s ranked = (t', .ok ())) :
    t'.refusal? = t.refusal? := by
  unfold save at h
  split at h
  · cases h
  · split at h
    · cases h
    · next above habove =>
      have hrefusal := FileTree.refusal?_makeDirectories t p.parent
      rw [habove] at hrefusal
      split at h
      · cases h
      · next hwritten =>
        cases h
        obtain ⟨content, -, hwrite⟩ := FileTree.writeText_eq_ok hwritten
        obtain ⟨-, l, -, -, rfl⟩ := FileTree.write_eq_ok hwrite
        exact hrefusal

/-- The stages at which saving fails: the store is not spelled out, the directories above the file
are not made, or the text is not written. -/
inductive FailsAt (stack : Stack) (t : FileTree) (p : Path) (s : Sites) (ranked : Bool) :
    FileTree → SaveError → Prop
  | render {e : SaveError} (h : render stack p s ranked = .error e) :
      FailsAt stack t p s ranked t e
  | directories {t' : FileTree} {e : FileError} (same : t.SameFiles t')
      (h : (t.makeDirectories p.parent).2 = .error e) : FailsAt stack t p s ranked t' (.ofFile p e)
  | write {text : Text} {above t' : FileTree} {e : FileError}
      (rendered : Document.render stack p s ranked = .ok text) (same : t.SameFiles above)
      (device : above.shortage? = t.shortage?) (h : above.WriteFails p text t' e) :
      FailsAt stack t p s ranked t' (.ofFile p e)

theorem failsAt_of_save {e : SaveError} (h : save stack t p s ranked = (t', .error e)) :
    FailsAt stack t p s ranked t' e := by
  unfold save at h
  split at h
  · next hrender =>
    cases h
    exact .render hrender
  · next text hrender =>
    have hsame := FileTree.makeDirectories_sameFiles t p.parent
    have hdevice := FileTree.shortage?_makeDirectories t p.parent
    split at h
    · next habove =>
      rw [habove] at hsame
      cases h
      exact .directories hsame (congrArg Prod.snd habove)
    · next above habove =>
      rw [habove] at hsame hdevice
      split at h
      · next hwrite =>
        cases h
        exact .write hrender hsame hdevice (FileTree.writeText_eq_error hwrite)
      · cases h

/-- The file of a path keeps the beginning of what was to be written there, and no other file has
changed. -/
structure LeavesPart (t : FileTree) (p : Path) (part : List UInt8) (t' : FileTree) : Prop where
  file : t'.find p = .ok (.file part)
  others : t.SameFilesButAt p t'

theorem leavesPart_of_write {above : FileTree} {part : List UInt8} (same : t.SameFiles above)
    (h : above.write p part = .ok t') : LeavesPart t p part t' := by
  obtain ⟨-, l, hlocate, hfile, hbut⟩ := FileTree.of_write_eq_ok h
  exact ⟨FileTree.find_of_locate hlocate hfile, l, hlocate, same.but hbut⟩

/-- How a store that has been spelled out is left to a file in part: its text holds a surrogate and
nothing is written, or the device takes a part of the content. -/
inductive IsCutOff (t : FileTree) (p : Path) (text : Text) : FileTree → SaveError → Prop
  | emptied {t' : FileTree} {e : Utf8.EncodeError} (encoded : Utf8.encodeText text = .error e)
      (leaves : LeavesPart t p [] t') : IsCutOff t p text t' (.unexpected (.surrogate e))
  | cutShort {t' : FileTree} {content : List UInt8} {taken : Nat} {reason : FileError.Reason}
      (encoded : Utf8.encodeText text = .ok content)
      (shortage : t.shortage? p content = some (taken, reason))
      (leaves : LeavesPart t p (content.take taken) t') :
      IsCutOff t p text t' (.unwritable p (.cutShort reason))

/-- A store that could not be saved has changed no file, or its file keeps a part of the text. -/
theorem save_eq_error {e : SaveError} (h : save stack t p s ranked = (t', .error e)) :
    t.SameFiles t' ∨ ∃ text, render stack p s ranked = .ok text ∧ IsCutOff t p text t' e := by
  cases failsAt_of_save h with
  | render => exact .inl (.refl _)
  | directories hsame => exact .inl hsame
  | @write text _ _ _ hrender hsame hdevice hfails =>
    cases hfails with
    | unwritten => exact .inl hsame
    | emptied hencode hwrite =>
      exact .inr ⟨text, hrender, .emptied hencode (leavesPart_of_write hsame hwrite)⟩
    | cutShort hencode hshortage hwrite =>
      rw [hdevice] at hshortage
      exact .inr ⟨text, hrender, .cutShort hencode hshortage (leavesPart_of_write hsame hwrite)⟩

end Document

end SiteRules
