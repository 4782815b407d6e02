import SiteRules.Config.File
import SiteRules.Proofs.Config.Placeholder
import SiteRules.Proofs.Yaml.Reading

/-!
# How loading a configuration fails

Loading gives a configuration, or a failure that tells what is wrong with the file, or a fault that
is not reported as one of the file (`Config.load_isDeclared_unless_strays`). The last has one of
three reasons (`Config.Strays`): a path that the system refuses to look for, as with a name that is
too long, a path that the system cannot be asked for, and a text that is well-formed and has no
value.
-/

namespace SiteRules

namespace FileTree

/-- The reasons that are in the tree why a path leads to nothing. -/
theorem find_spec (t : FileTree) (p : Path) :
    EndsIn (fun reason => reason.meansAbsent = true ∨ reason = .nameTooLong) (fun _ => True)
      (t.find p) := by
  have hfollow (here : Location) (part : Text) :
      EndsIn (fun reason => reason.meansAbsent = true ∨ reason = .nameTooLong) (fun _ => True)
        (t.follow here part) := by
    unfold follow
    split
    · exact .inl rfl
    · exact .inl rfl
    · exact .ite (fun _ => trivial) fun _ => .ite (fun _ => .inr rfl) fun _ => trivial
  have hlocate : EndsIn (fun reason => reason.meansAbsent = true ∨ reason = .nameTooLong)
      (fun _ => True) (t.locate p) :=
    .ite (fun _ => .inr rfl) fun _ =>
      EndsIn.foldlM (W := fun _ => True) (fun here part _ => hfollow here part) trivial _
  unfold find
  refine hlocate.bind fun l _ => ?_
  split
  · exact trivial
  · exact .inl rfl

/-- Whether something is at a path is not told because its name is too long, or because the system
refuses to look there. -/
theorem has_eq_error {t : FileTree} {p : Path} {e : FileError} (h : t.has p = .error e) :
    e = .refused .nameTooLong p ∨
      ∃ reason, t.refusal? t.nodes .look p = some reason ∧ e = .refused reason p := by
  unfold has ask at h
  split at h
  · cases h
  · split at h
    · cases h
    · next reason hlook =>
      split at h
      · cases h
      · next hpresent =>
        cases h
        unfold look permit at hlook
        cases hrefusal : t.refusal? t.nodes .look p with
        | some own =>
          rw [hrefusal] at hlook
          cases hlook
          exact .inr ⟨_, rfl, rfl⟩
        | none =>
          rw [hrefusal] at hlook
          rcases (find_spec t p).of_error hlook with habsent | rfl
          · exact absurd habsent hpresent
          · exact .inl rfl

/-- A file is not read because its path cannot be asked for, or because the system refuses it. -/
theorem read_spec (t : FileTree) (p : Path) :
    EndsIn (fun e => checkPath .nullByte p = .error e ∨ e.isRefusal = true) (fun _ => True)
      (t.read p) := by
  rw [read]
  refine EndsIn.bind (V := fun _ => True) (EndsIn.of_cases (fun e h => .inl h) fun _ _ => trivial)
    fun _ _ => ?_
  split
  · exact .inr rfl
  · exact trivial
  · exact .inr rfl
  · exact .inr rfl

end FileTree

namespace Config

variable {env : Environment} {t : FileTree} {asked : Option Path}

/-- A path at which a configuration is looked for if none is asked for: the one that the variable
names, or else one of the usual places. -/
def LooksFor (env : Environment) (p : Path) : Prop :=
  if (env.valueOf? (Text.ofString variableName)).getD [] = [] then p ∈ usualPaths env
  else p = Path.ofText ((env.valueOf? (Text.ofString variableName)).getD [])

/-- The path from which a configuration is read. -/
def IsSource (env : Environment) (t : FileTree) (asked : Option Path) (p : Path) : Prop :=
  asked = some p ∨ asked = none ∧ LooksFor env p ∧ t.has p = .ok true

/-- A fault that is not reported as one of the file: a path cannot be looked for, since its name is
too long or the system refuses that, or the path that is asked for holds a zero or a surrogate that
stands for no byte, or the text, with its placeholders filled in, is well-formed and has no value.
-/
inductive Strays (env : Environment) (t : FileTree) (asked : Option Path) : ContentFault → Prop
  | untold {p : Path} {reason : FileError.Reason} (hasked : asked = none) (hlooks : LooksFor env p)
      (h : t.has p = .error (.refused reason p))
      (cause : reason = .nameTooLong ∨ t.refusal? t.nodes .look p = some reason) :
      Strays env t asked (.file (.refused reason p))
  | unnamed {p : Path} {e : FileError} (hasked : asked = some p)
      (h : FileTree.checkPath .nullByte p = .error e) : Strays env t asked (.file e)
  | unread {p : Path} {cs : List Char} {fault : Yaml.Fault} (hsource : IsSource env t asked p)
      (hread : t.readText p = .ok cs)
      (h : Yaml.Unread ((env.interpolate (Text.ofChars cs)).map CodePoint.toChar) fault)
      (hendless : fault ≠ .endless) : Strays env t asked (.yaml fault)

/-- A load goes as it is declared: it gives a configuration, or it tells that there is no file or
what is wrong with it. An exhausted stack is a fault of the declared kind too, and a document that
contains itself exhausts every stack. -/
def IsDeclared : Except LoadError Config → Prop
  | .error (.unexpected fault) => fault = .yaml .endless ∨ fault = .exhausted .readingYaml
  | _ => True

/-- A path that is not looked for, and the failure that comes of it. -/
def IsUntold (t : FileTree) (p : Path) (e : LoadError) : Prop :=
  ∃ reason, t.has p = .error (.refused reason p) ∧
    (reason = .nameTooLong ∨ t.refusal? t.nodes .look p = some reason) ∧
    e = .unexpected (.file (.refused reason p))

theorem isUntold_of_has {p : Path} {e : FileError} (h : t.has p = .error e) :
    IsUntold t p (.unexpected (.file e)) := by
  rcases FileTree.has_eq_error h with rfl | ⟨reason, hrefusal, rfl⟩
  · exact ⟨_, h, .inl rfl, rfl⟩
  · exact ⟨_, h, .inr hrefusal, rfl⟩

/-! ## The file -/

theorem firstOf_spec (t : FileTree) (paths : List Path) :
    EndsIn (fun e => e = .noneFound ∨ ∃ p ∈ paths, IsUntold t p e)
      (fun p => p ∈ paths ∧ t.has p = .ok true) (firstOf t paths) := by
  induction paths with
  | nil => exact .inl rfl
  | cons p rest ih =>
    rw [firstOf]
    split
    · next hhas => exact ⟨List.mem_cons_self, hhas⟩
    · refine ih.mono (fun e he => ?_) fun q hq => ⟨List.mem_cons_of_mem _ hq.1, hq.2⟩
      refine he.imp_right fun ⟨q, hq, heq⟩ => ⟨q, List.mem_cons_of_mem _ hq, heq⟩
    · next e hhas => exact .inr ⟨p, List.mem_cons_self, isUntold_of_has hhas⟩

/-- A path that is found is there, and one that is not found is declared to be absent, unless a path
cannot be looked for. -/
theorem findPath_spec (env : Environment) (t : FileTree) :
    EndsIn (fun e => IsDeclared (.error e) ∨ ∃ p, LooksFor env p ∧ IsUntold t p e)
      (fun p => LooksFor env p ∧ t.has p = .ok true) (findPath env t) := by
  unfold findPath
  split
  · next hname =>
    have hlooks : ∀ p ∈ usualPaths env, LooksFor env p := by
      intro p hp
      rwa [LooksFor, if_pos hname]
    refine (firstOf_spec t (usualPaths env)).mono ?_ fun p hp => ⟨hlooks p hp.1, hp.2⟩
    rintro _ (rfl | ⟨p, hp, huntold⟩)
    · exact .inl trivial
    · exact .inr ⟨p, hlooks p hp, huntold⟩
  · next name hname =>
    have hlooks :
        LooksFor env (Path.ofText ((env.valueOf? (Text.ofString variableName)).getD [])) := by
      rw [LooksFor, if_neg hname]
    dsimp only
    split
    · next hhas => exact ⟨hlooks, hhas⟩
    · exact .inl trivial
    · next e hhas => exact .inr ⟨_, hlooks, isUntold_of_has hhas⟩

/-! ## The text -/

theorem valueAt_of_readText {p : Path} {cs : List Char} (h : t.readText p = .ok cs) :
    valueAt env t p = Yaml.content env.stack 0 (env.interpolate (Text.ofChars cs)) := by
  rw [valueAt, h]
  rfl

/-- The text of a file has a value, or there is a reported fault, or the stack is exhausted, or the
path cannot be asked for, or the text is well-formed and has no value. -/
theorem valueAt_spec (env : Environment) (t : FileTree) (p : Path) :
    EndsIn (fun fault => (isReported fault = true ∨ fault = .exhausted .readingYaml) ∨
        (∃ e, FileTree.checkPath .nullByte p = .error e ∧ fault = .file e) ∨
        ∃ cs stray, t.readText p = .ok cs ∧
          Yaml.Unread ((env.interpolate (Text.ofChars cs)).map CodePoint.toChar) stray ∧
          fault = .yaml stray)
      (fun _ => True) (valueAt env t p) := by
  cases htext : t.readText p with
  | error fault =>
    rw [valueAt, htext]
    unfold FileTree.readText at htext
    split at htext
    · next e hread =>
      cases htext
      rcases (FileTree.read_spec t p).of_error hread with hpath | hrefused
      · exact .inr (.inl ⟨e, hpath, rfl⟩)
      · exact .inl (.inl hrefused)
    · -- a text that is not decoded is told as a fault of the file
      split at htext
      · cases htext
        exact .inl (.inl rfl)
      · cases htext
  | ok cs =>
    have hspec := Yaml.readText_fault 0 (env.interpolate (Text.ofChars cs))
    rw [valueAt_of_readText htext, Yaml.content]
    refine EndsIn.ite (fun _ => ?_) fun _ => .inl (.inr rfl)
    cases hread : Yaml.readText 0 (env.interpolate (Text.ofChars cs)) with
    | ok v => exact trivial
    | error stray =>
      rcases hspec.of_error hread with rfl | hunread
      · exact .inl (.inl rfl)
      · exact .inr (.inr ⟨cs, stray, rfl, hunread, rfl⟩)

/-! ## Loading -/

theorem isDeclared_ofFault {fault : ContentFault} (h : isReported fault = true) :
    IsDeclared (.error (.ofFault fault)) := by
  rw [LoadError.ofFault, if_pos h]
  exact trivial

theorem load_some (env : Environment) (t : FileTree) (p : Path) :
    load env t (some p) = match valueAt env t p with
      | .error fault => throw (.ofFault fault)
      | .ok v => match read env v with
        | .ok config => return config
        | .error reason => throw (.invalid reason) :=
  rfl

/-- What is wrong with the file at a path is told, or the fault is one of a few. -/
theorem strays_or_of_valueAt {p : Path} (hsource : IsSource env t asked p) {fault : ContentFault}
    (h : valueAt env t p = .error fault) :
    IsDeclared (.error (.ofFault fault)) ∨
      Strays env t asked fault ∧ LoadError.ofFault fault = .unexpected fault := by
  by_cases hreported : isReported fault = true
  · exact .inl (isDeclared_ofFault hreported)
  · have hunexpected : LoadError.ofFault fault = .unexpected fault := by
      rw [LoadError.ofFault, if_neg hreported]
    rw [hunexpected]
    rcases (valueAt_spec env t p).of_error h with
      (hyes | hexhausted) | ⟨e, hpath, rfl⟩ | ⟨cs, stray, hread, hunread, rfl⟩
    · exact absurd hyes hreported
    · exact .inl (.inr hexhausted)
    · rcases hsource with hasked | ⟨-, -, hhas⟩
      · exact .inr ⟨.unnamed hasked hpath, rfl⟩
      · -- a path that is found can be asked for
        rw [FileTree.has, hpath] at hhas
        cases hhas
    · by_cases hendless : stray = .endless
      · exact .inl (.inl (congrArg _ hendless))
      · exact .inr ⟨.unread hsource hread hunread hendless, rfl⟩

theorem load_at {p : Path} (hsource : IsSource env t asked p) :
    EndsIn (fun e => IsDeclared (.error e) ∨
        ∃ fault, Strays env t asked fault ∧ e = .unexpected fault) (fun _ => True)
      (match valueAt env t p with
        | .error fault => throw (.ofFault fault)
        | .ok v => match read env v with
          | .ok config => return config
          | .error reason => throw (.invalid reason) : Except LoadError Config) := by
  split
  · next fault hvalue =>
    exact (strays_or_of_valueAt hsource hvalue).imp_right fun h => ⟨fault, h⟩
  · split
    · exact trivial
    · exact .inl trivial

/-- Loading a configuration goes as it is declared, or the fault that it ends in is one of a few
that are not reported as faults of the file. -/
theorem load_isDeclared_unless_strays (env : Environment) (t : FileTree) (asked : Option Path) :
    IsDeclared (load env t asked) ∨
      ∃ fault, Strays env t asked fault ∧ load env t asked = .error (.unexpected fault) := by
  have hspec : EndsIn (fun e => IsDeclared (.error e) ∨
      ∃ fault, Strays env t asked fault ∧ e = .unexpected fault) (fun _ => True)
      (load env t asked) := by
    cases asked with
    | some p => exact load_at (.inl rfl)
    | none =>
      refine EndsIn.bind ((findPath_spec env t).weaken fun e he => ?_) fun p hp =>
        load_at (.inr ⟨rfl, hp⟩)
      exact he.imp_right fun ⟨p, hlooks, reason, hhas, hcause, heq⟩ =>
        ⟨_, .untold rfl hlooks hhas hcause, heq⟩
  cases hload : load env t asked with
  | ok config => exact .inl trivial
  | error e =>
    refine (hspec.of_error hload).imp_right fun ⟨fault, hstrays, heq⟩ => ⟨fault, hstrays, ?_⟩
    rw [heq]

/-- The path of a configuration. -/
def configFile : Path := ⟨0, [Text.ofString "c.yaml"]⟩

/-- The tree with one file, which holds a scalar that has the form of a date and a month that there
is not. -/
def oneMonth : FileTree where
  nodes := OrderedMap.ofList [([Text.ofString "c.yaml"], .file (Utf8.encode "2020-13-01".toList))]
  working := []

/-- A configuration that is there is loaded neither as one nor with a failure that is declared. -/
theorem not_isDeclared_oneMonth :
    ¬IsDeclared (load .bare oneMonth (some configFile)) := by
  have htext : oneMonth.readText configFile = .ok "2020-13-01".toList := by
    decide +kernel
  have hfill : Environment.interpolate .bare (Text.ofChars "2020-13-01".toList) =
      Text.ofChars "2020-13-01".toList :=
    Text.fill_eq_self (by decide)
  have hload : load .bare oneMonth (some configFile) =
      .error (.unexpected (.yaml (.calendar .month))) := by
    rw [load_some, valueAt_of_readText htext, hfill]
    decide +kernel
  rw [hload]
  rintro (h | h)
  · cases h
  · cases h

end Config

end SiteRules
