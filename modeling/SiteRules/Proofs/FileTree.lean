import SiteRules.FileTree
import SiteRules.Proofs.Except
import SiteRules.Proofs.OrderedMap

/-!
# What operations change in a file tree

Every operation comes down to putting something at a location, where all other locations stay as
they are (`FileTree.at?_put_of_ne`). Making directories only fills locations that are empty, so that
no file changes (`FileTree.makeDirectories_sameFiles`), and writing a file changes what is at the
location of its path and nothing else (`FileTree.write_eq_ok`). A path leads to the same location
afterwards, since what was a directory still is one (`FileTree.KeepsDirectories.locate`), so that
what has been written is found there (`FileTree.of_write_eq_ok`), and it is read if the system
grants that (`FileTree.read_of_find`).
-/

namespace SiteRules.FileTree

variable {t t' t'' : FileTree}

/-! ## What is at a location -/

@[simp] theorem at?_nil (t : FileTree) : t.at? [] = some .directory := rfl

@[simp] theorem working_put (t : FileTree) (l : Location) (node : Node) :
    (t.put l node).working = t.working := rfl

theorem at?_put_of_ne {l m : Location} (h : m ≠ l) (node : Node) :
    (t.put l node).at? m = t.at? m := by
  unfold at? put
  split
  · rfl
  · rw [OrderedMap.get?_insert, if_neg (by simpa using h.symm)]

theorem at?_put_self {l : Location} (h : l ≠ []) (node : Node) :
    (t.put l node).at? l = some node := by
  unfold at? put
  rw [if_neg (by simpa using h), OrderedMap.get?_insert, if_pos BEq.rfl]

/-! ## Trees with the same files -/

/-- Two trees hold the same files, except perhaps at one location. -/
def SameFilesBut (l : Location) (t t' : FileTree) : Prop :=
  ∀ m, m ≠ l → ∀ content, t'.at? m = some (.file content) ↔ t.at? m = some (.file content)

/-- Two trees hold the same files. -/
def SameFiles (t t' : FileTree) : Prop :=
  ∀ m content, t'.at? m = some (.file content) ↔ t.at? m = some (.file content)

/-- Two trees hold the same files, except perhaps where a path leads in the second one. -/
def SameFilesButAt (p : Path) (t t' : FileTree) : Prop :=
  ∃ l, t'.locate p = .ok l ∧ t.SameFilesBut l t'

theorem SameFiles.refl (t : FileTree) : t.SameFiles t :=
  fun _ _ => Iff.rfl

theorem SameFiles.trans (h : t.SameFiles t') (h' : t'.SameFiles t'') : t.SameFiles t'' :=
  fun m content => (h' m content).trans (h m content)

theorem SameFiles.but (h : t.SameFiles t') {l : Location} (h' : t'.SameFilesBut l t'') :
    t.SameFilesBut l t'' :=
  fun m hm content => (h' m hm content).trans (h m content)

theorem sameFilesBut_put (t : FileTree) (l : Location) (node : Node) :
    t.SameFilesBut l (t.put l node) := by
  intro m hm content
  rw [at?_put_of_ne hm]

/-- A directory at an empty location changes no file. -/
theorem sameFiles_put_directory {l : Location} (h : t.at? l = none) :
    t.SameFiles (t.put l .directory) := by
  intro m content
  by_cases hm : m = l
  · have hne : l ≠ [] := by
      rintro rfl
      cases h
    subst hm
    rw [at?_put_self hne, h]
    constructor
    · intro hfile
      cases hfile
    · intro hfile
      cases hfile
  · rw [at?_put_of_ne hm]

/-! ## Where a path leads -/

/-- What is a directory in one tree is one in the other, and both have the same working
directory. -/
structure KeepsDirectories (t t' : FileTree) : Prop where
  working_eq : t'.working = t.working
  at?_eq : ∀ m, t.at? m = some .directory → t'.at? m = some .directory

theorem keepsDirectories_put {l : Location} (h : t.at? l ≠ some .directory) (node : Node) :
    t.KeepsDirectories (t.put l node) := by
  refine ⟨rfl, fun m hm => ?_⟩
  have hne : m ≠ l := by
    rintro rfl
    exact h hm
  rw [at?_put_of_ne hne, hm]

theorem find_of_locate {p : Path} {l : Location} {node : Node} (hlocate : t.locate p = .ok l)
    (hat : t.at? l = some node) : t.find p = .ok node := by
  unfold find
  refine bind_eq_ok_iff.2 ⟨l, hlocate, ?_⟩
  rw [hat]
  rfl

/-- A component leads on from directories only. -/
theorem follow_eq_ok {here there : Location} {part : Text} (h : t.follow here part = .ok there) :
    t.at? here = some .directory := by
  unfold follow at h
  split at h
  · cases h
  · cases h
  · next hhere => exact hhere

theorem KeepsDirectories.follow (h : t.KeepsDirectories t') {here there : Location} {part : Text}
    (hfollow : t.follow here part = .ok there) : t'.follow here part = .ok there := by
  have hhere := follow_eq_ok hfollow
  rw [← hfollow]
  unfold FileTree.follow
  rw [hhere, h.at?_eq here hhere]

/-- A path leads to the same location where the directories are kept. -/
theorem KeepsDirectories.locate (h : t.KeepsDirectories t') {p : Path} {l : Location}
    (hlocate : t.locate p = .ok l) : t'.locate p = .ok l := by
  have hfold : ∀ (parts : List Text) (here : Location),
      parts.foldlM t.follow here = .ok l → parts.foldlM t'.follow here = .ok l := by
    intro parts
    induction parts with
    | nil => exact fun _ hnil => hnil
    | cons part rest ih =>
      intro here hparts
      rw [List.foldlM_cons] at hparts ⊢
      cases hpart : t.follow here part with
      | error reason =>
        rw [hpart] at hparts
        cases hparts
      | ok there =>
        rw [hpart] at hparts
        rw [h.follow hpart]
        exact ih there hparts
  unfold FileTree.locate at hlocate ⊢
  split at hlocate
  · cases hlocate
  · next hlength =>
    rw [if_neg hlength, h.working_eq]
    exact hfold _ _ hlocate

/-! ## Making directories -/

/-- One directory is made where nothing was. -/
theorem makeDirectory_eq_ok {p : Path} (h : t.makeDirectory p = .ok t') :
    ∃ l, t.at? l = none ∧ t' = t.put l .directory := by
  unfold makeDirectory at h
  obtain ⟨-, -, h⟩ := bind_eq_ok_iff.1 h
  split at h
  · cases h
  · cases h
  · next l _ _ =>
    split at h
    · cases h
    · next hnone => exact ⟨l, hnone, (Except.ok.inj h).symm⟩

/-- A directory is there already, or it is made. -/
theorem ensureDirectory_eq_ok {p : Path} (h : t.ensureDirectory p = .ok t') :
    t' = t ∨ ∃ l, t.at? l = none ∧ t' = t.put l .directory := by
  unfold ensureDirectory at h
  split at h
  · next hmade =>
    cases h
    exact .inr (makeDirectory_eq_ok hmade)
  · cases h
  · split at h
    · cases h
    · split at h
      · exact .inl (Except.ok.inj h).symm
      · cases h
      · cases h

/-- What holds of a tree and of what becomes of it when an empty location is filled with a directory
holds after directories have been made, whether that succeeds or not. -/
theorem makeDirectories_induction {P : FileTree → Prop}
    (step : ∀ t l, P t → t.at? l = none → P (t.put l .directory)) (h : P t) (p : Path) :
    P (t.makeDirectories p).1 := by
  have hensure : ∀ {t t' : FileTree} {p : Path}, t.ensureDirectory p = .ok t' → P t → P t' := by
    intro t t' p hmade ht
    rcases ensureDirectory_eq_ok hmade with rfl | ⟨l, hnone, rfl⟩
    · exact ht
    · exact step t l ht hnone
  induction p using makeDirectories.induct t with
  | case1 p t' hmade =>
    rw [makeDirectories, hmade]
    exact hensure hmade h
  | case2 p path hroot hmissing =>
    rw [makeDirectories, hmissing]
    simp only [dif_pos hroot]
    exact h
  | case3 p path hroot t' e habove hmissing ih =>
    rw [habove] at ih
    rw [makeDirectories, hmissing]
    simp only [dif_neg hroot, habove]
    exact ih
  | case4 p path hroot t' habove t'' hmade hmissing ih =>
    rw [habove] at ih
    rw [makeDirectories, hmissing]
    simp only [dif_neg hroot, habove, hmade]
    exact hensure hmade ih
  | case5 p path hroot t' habove e hfailed hmissing ih =>
    rw [habove] at ih
    rw [makeDirectories, hmissing]
    simp only [dif_neg hroot, habove, hfailed]
    exact ih
  | case6 p e hfailed hother =>
    rw [makeDirectories, hfailed]
    dsimp only
    split
    · next path => exact absurd rfl (hother path)
    · exact h

/-- Whether it succeeds or not, making directories changes no file. -/
theorem makeDirectories_sameFiles (t : FileTree) (p : Path) :
    t.SameFiles (t.makeDirectories p).1 :=
  makeDirectories_induction (P := t.SameFiles)
    (fun _ _ same hnone => same.trans (sameFiles_put_directory hnone)) (.refl t) p

/-- Making directories changes nothing about what the system refuses. -/
@[simp] theorem refusal?_makeDirectories (t : FileTree) (p : Path) :
    (t.makeDirectories p).1.refusal? = t.refusal? :=
  makeDirectories_induction (P := fun t' => t'.refusal? = t.refusal?)
    (fun _ _ same _ => same) rfl p

/-- Making directories changes nothing about what devices take. -/
@[simp] theorem shortage?_makeDirectories (t : FileTree) (p : Path) :
    (t.makeDirectories p).1.shortage? = t.shortage? :=
  makeDirectories_induction (P := fun t' => t'.shortage? = t.shortage?)
    (fun _ _ same _ => same) rfl p

/-! ## Writing -/

/-- A file is written at the location of its path, where no directory may be. -/
theorem write_eq_ok {p : Path} {content : List UInt8} (h : t.write p content = .ok t') :
    checkPath .nullByte p = .ok () ∧ ∃ l, t.locate p = .ok l ∧ t.at? l ≠ some .directory ∧
      t' = t.put l (.file content) := by
  unfold write at h
  obtain ⟨⟨⟩, hcheck, h⟩ := bind_eq_ok_iff.1 h
  split at h
  · cases h
  · cases h
  · next l _ hlocate =>
    split at h
    · cases h
    · next hnot => exact ⟨hcheck, l, hlocate, hnot, (Except.ok.inj h).symm⟩

/-- Afterwards the content is in the file of the path, and no other file has changed. -/
theorem of_write_eq_ok {p : Path} {content : List UInt8} (h : t.write p content = .ok t') :
    checkPath .nullByte p = .ok () ∧ ∃ l, t'.locate p = .ok l ∧
      t'.at? l = some (.file content) ∧ t.SameFilesBut l t' := by
  obtain ⟨hcheck, l, hlocate, hnot, rfl⟩ := write_eq_ok h
  have hne : l ≠ [] := by
    rintro rfl
    exact hnot rfl
  have hlocate' := (keepsDirectories_put hnot (.file content)).locate hlocate
  have hfile := at?_put_self (t := t) hne (.file content)
  exact ⟨hcheck, l, hlocate', hfile, sameFilesBut_put t l _⟩

/-! ## Reading -/

/-- The system lets a path be looked up and read. -/
structure Grants (t : FileTree) (p : Path) : Prop where
  look : t.refusal? t.nodes .look p = none
  read : t.refusal? t.nodes .read p = none

theorem permit_eq_ok {operation : Operation} {p : Path}
    (h : t.refusal? t.nodes operation p = none) : t.permit operation p = .ok () := by
  rw [permit, h]

/-- A file that the system does not keep back is there. -/
theorem has_of_find {p : Path} {node : Node} (grants : t.Grants p)
    (hcheck : checkPath .nullByte p = .ok ()) (hfind : t.find p = .ok node) :
    t.has p = .ok true := by
  have hlook : t.look p = .ok node := bind_eq_ok_iff.2 ⟨(), permit_eq_ok grants.look, hfind⟩
  rw [has, hcheck]
  show t.ask p _ = _
  rw [ask, hlook]

/-- A file that the system does not keep back is read. -/
theorem read_of_find {p : Path} {content : List UInt8} (grants : t.Grants p)
    (hcheck : checkPath .nullByte p = .ok ()) (hfind : t.find p = .ok (.file content)) :
    t.read p = .ok content := by
  unfold read
  refine bind_eq_ok_iff.2 ⟨(), hcheck, ?_⟩
  rw [permit_eq_ok grants.read, hfind]
  rfl

end SiteRules.FileTree
