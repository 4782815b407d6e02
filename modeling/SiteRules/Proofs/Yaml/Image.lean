import SiteRules.Proofs.Value.Spellable
import SiteRules.Proofs.Yaml.Reread
import SiteRules.Proofs.Yaml.Time
import SiteRules.Proofs.Yaml.Writer
import SiteRules.Value.Entries
import SiteRules.Yaml.Graph.Check

/-!
# What is left of a value that is written

YAML knows lists, sets and mappings, but no tuples. So what is read is not always the value that was
written but its image (`Yaml.image`), in which tuples are lists. A scalar that was written for a
value without parts is read as the image of the value (`Yaml.Loadable.exists_scalar`).
-/

namespace SiteRules.Yaml

mutual

/-- What a value is read as after it has been written. -/
def image : Value → Value
  | .float (.nan _) => .float (.nan Scalar.nanLabel)
  | .float x => .float x.reread
  | .list items => .list (imageAll items)
  | .tuple items => .list (imageAll items)
  | .set items => .ofMembers (imageAll items)
  | .map entries => .ofEntries (imageEntries entries)
  | .shared _ v => image v
  | v => v

/-- The images of the values of a list. -/
def imageAll : List Value → List Value
  | [] => []
  | v :: rest => image v :: imageAll rest

/-- The images of the entries of a mapping. -/
def imageEntries : List (Value × Value) → List (Value × Value)
  | [] => []
  | (k, v) :: rest => (image k, image v) :: imageEntries rest

end

theorem imageAll_eq_map (vs : List Value) : imageAll vs = vs.map image := by
  induction vs with
  | nil => rfl
  | cons v rest ih => rw [imageAll, ih, List.map_cons]

theorem imageEntries_eq_map (entries : List (Value × Value)) :
    imageEntries entries = entries.map (Prod.map image image) := by
  induction entries with
  | nil => rfl
  | cons e rest ih =>
    rw [imageEntries, ih]
    rfl

/-! ## Values that can be loaded -/

/-- Whether a value is a scalar. -/
def isScalar (v : Value) : Bool :=
  match v.content with
  | .list _ | .tuple _ | .set _ | .map _ | .cycle _ => false
  | _ => true

/-- What a scalar is read as is a scalar. -/
theorem isScalar_image (v : Value) : isScalar (image v) = isScalar v := by
  induction v using Value.content.induct with
  | case1 mark v ih => exact ih
  | case2 v h =>
    cases v with
    | shared mark v => exact absurd rfl (h mark v)
    | float x => cases x <;> rfl
    | _ => rfl

/-- A value as a document may give it, apart from collections that stand inside themselves: keys and
members of sets are scalars, the fields of times are in range, and parts with the same mark are one
and the same, the one that `owner` tells. -/
inductive Loadable (owner : Mark → Value) : Value → Prop
  | null : Loadable owner .null
  | bool (b : Bool) : Loadable owner (.bool b)
  | int (n : Int) : Loadable owner (.int n)
  | float (x : Binary64) : Loadable owner (.float x)
  | text (t : Text) : Loadable owner (.text t)
  | bytes (bs : List UInt8) : Loadable owner (.bytes bs)
  | date {d : Date} (valid : d.IsValid) : Loadable owner (.date d)
  | moment {m : Moment} (valid : m.IsValid) : Loadable owner (.moment m)
  | list {items : List Value} (parts : ∀ v ∈ items, Loadable owner v) :
      Loadable owner (.list items)
  | tuple {items : List Value} (parts : ∀ v ∈ items, Loadable owner v) :
      Loadable owner (.tuple items)
  | set {items : List Value} (scalars : ∀ v ∈ items, isScalar v = true)
      (parts : ∀ v ∈ items, Loadable owner v) : Loadable owner (.set items)
  | map {entries : List (Value × Value)} (scalars : ∀ e ∈ entries, isScalar e.1 = true)
      (keys : ∀ e ∈ entries, Loadable owner e.1) (values : ∀ e ∈ entries, Loadable owner e.2) :
      Loadable owner (.map entries)
  | shared {mark : Mark} {v : Value} (one : owner mark = v) (unshared : v.content = v)
      (part : Loadable owner v) : Loadable owner (.shared mark v)

/-- What holds of scalars without marks, and of values whenever it holds of their parts, holds of
every value that can be loaded. -/
theorem Loadable.induct {owner : Mark → Value} {P : Value → Prop}
    (scalar : ∀ {v : Value}, Loadable owner v → isScalar v = true → v.content = v → P v)
    (list : ∀ {items : List Value}, (∀ v ∈ items, P v) → P (.list items))
    (tuple : ∀ {items : List Value}, (∀ v ∈ items, P v) → P (.tuple items))
    (set : ∀ {items : List Value}, (∀ v ∈ items, isScalar v = true) → (∀ v ∈ items, P v) →
      P (.set items))
    (map : ∀ {entries : List (Value × Value)}, (∀ e ∈ entries, isScalar e.1 = true) →
      (∀ e ∈ entries, P e.1) → (∀ e ∈ entries, P e.2) → P (.map entries))
    (shared : ∀ {mark : Mark} {v : Value}, owner mark = v → v.content = v → P v →
      P (.shared mark v)) {v : Value} (h : Loadable owner v) : P v := by
  induction h with
  | null => exact scalar .null rfl rfl
  | bool b => exact scalar (.bool b) rfl rfl
  | int n => exact scalar (.int n) rfl rfl
  | float x => exact scalar (.float x) rfl rfl
  | text t => exact scalar (.text t) rfl rfl
  | bytes bs => exact scalar (.bytes bs) rfl rfl
  | date valid => exact scalar (.date valid) rfl rfl
  | moment valid => exact scalar (.moment valid) rfl rfl
  | list _ ih => exact list ih
  | tuple _ ih => exact tuple ih
  | set scalars _ ih => exact set scalars ih
  | map scalars _ _ ihk ihv => exact map scalars ihk ihv
  | shared one unshared _ ih => exact shared one unshared ih

/-! ## Rebuilding -/

/-- No place stands for a collection around it. -/
theorem Loadable.fill_eq_self {owner : Mark → Value} {v : Value} (h : Loadable owner v)
    (around : Mark → Value) (inside : List Mark) : Value.fill around inside v = v := by
  induction h generalizing inside with
  | list _ ih | tuple _ ih =>
    rw [Value.fill, Value.fillAll_eq_map, List.map_congr_left fun v hv => ih v hv inside,
      List.map_id']
  | map _ _ _ _ ih =>
    rw [Value.fill, Value.fillEntries_eq_map,
      List.map_congr_left fun e he => congrArg (Prod.mk e.1) (ih e he inside), List.map_id']
  | @shared mark _ _ _ _ ih => exact congrArg (Value.shared mark) (ih _)
  | _ => rfl

/-- Containers that are made anew can be loaded as well. -/
theorem Loadable.rebuildIn {owner : Mark → Value} {v : Value} (h : Loadable owner v)
    (around : List (Mark × Value)) (depth : Nat) :
    Loadable owner (v.rebuildIn around depth) ∧
      (isScalar v = true → isScalar (v.rebuildIn around depth) = true) := by
  induction h generalizing around depth with
  | list parts ih =>
    rw [Value.rebuildIn, Value.rebuildAll_eq_map, (Loadable.list parts).fill_eq_self]
    refine ⟨?_, by rintro ⟨⟩⟩
    split
    · exact .list parts
    · exact .list (List.forall_mem_map.2 fun v hv => (ih v hv around _).1)
  | tuple parts ih =>
    rw [Value.rebuildIn, Value.rebuildAll_eq_map, (Loadable.tuple parts).fill_eq_self]
    refine ⟨?_, by rintro ⟨⟩⟩
    split
    · exact .tuple parts
    · exact .tuple (List.forall_mem_map.2 fun v hv => (ih v hv around _).1)
  | set scalars parts ih =>
    rw [Value.rebuildIn, Value.rebuildAll_eq_map]
    refine ⟨?_, by rintro ⟨⟩⟩
    split
    · exact .set scalars parts
    · exact .set (List.forall_mem_map.2 fun v hv => (ih v hv around _).2 (scalars v hv))
        (List.forall_mem_map.2 fun v hv => (ih v hv around _).1)
  | map scalars keys values _ ihv =>
    rw [Value.rebuildIn, Value.rebuildEntries_eq_map,
      (Loadable.map scalars keys values).fill_eq_self]
    refine ⟨?_, by rintro ⟨⟩⟩
    split
    · exact .map scalars keys values
    · exact .map (List.forall_mem_map.2 scalars) (List.forall_mem_map.2 keys)
        (List.forall_mem_map.2 fun e he => (ihv e he around _).1)
  | shared one unshared part ih =>
    rw [Value.rebuildIn, (Loadable.shared one unshared part).fill_eq_self]
    split
    · exact ⟨.shared one unshared part, id⟩
    · exact ih _ depth
  | null => exact ⟨.null, id⟩
  | bool b => exact ⟨.bool b, id⟩
  | int n => exact ⟨.int n, id⟩
  | float x => exact ⟨.float x, id⟩
  | text t => exact ⟨.text t, id⟩
  | bytes bs => exact ⟨.bytes bs, id⟩
  | date valid => exact ⟨.date valid, id⟩
  | moment valid => exact ⟨.moment valid, id⟩

theorem Loadable.rebuild {owner : Mark → Value} {v : Value} (h : Loadable owner v) :
    Loadable owner v.rebuild :=
  (h.rebuildIn [] Value.maxRebuilt).1

/-! ## Scalars -/

/-- A scalar that is drawn is read as a value, whatever its number. -/
structure Gives (tag : Tag) (content : Text) (asLines : Bool) (v : Value) : Prop where
  drawn : Draft.IsDrawn tag content asLines
  isScalar : Checker.isCollection tag = false
  read : ∀ n, Scalar.read tag n content = .ok v

theorem gives_line {tag : Tag} {content : Text} {v : Value} (hknown : ∀ uri, tag ≠ .unknown uri)
    (htag : Checker.isCollection tag = false) (hcontent : tag = .null → content ≠ [])
    (hread : ∀ n, Scalar.read tag n content = .ok v) : Gives tag content false v :=
  ⟨⟨hknown, hcontent, fun h => by cases h⟩, htag, hread⟩

theorem gives_null : Gives .null (Text.ofString "null") false .null :=
  gives_line (by rintro _ ⟨⟩) rfl (fun _ => by decide) fun _ => rfl

theorem gives_bool (b : Bool) :
    Gives .bool (Text.ofString (if b then "true" else "false")) false (.bool b) := by
  refine gives_line (by rintro _ ⟨⟩) rfl (by rintro ⟨⟩) fun _ => ?_
  cases b <;> rfl

theorem gives_int {n : Int} (h : Literal.isSpellable n = true) :
    Gives .int (Text.ofString (toString n)) false (.int n) :=
  gives_line (by rintro _ ⟨⟩) rfl (by rintro ⟨⟩) (Scalar.read_integer h)

theorem gives_text (t : Text) : Gives .str t false (.text t) :=
  gives_line (by rintro _ ⟨⟩) rfl (by rintro ⟨⟩) fun _ => rfl

theorem gives_float (x : Binary64) :
    Gives .float (Draft.floatText x) false (image (.float x)) := by
  refine gives_line (by rintro _ ⟨⟩) rfl (by rintro ⟨⟩) fun n => ?_
  cases x with
  | nan label => exact Scalar.readFloat_nan _ label
  | infinite negative => exact Scalar.readFloat_infinite _ negative
  | finite negative significand power =>
    exact Scalar.readFloat_finite _ negative significand power

theorem gives_time {content : Text} {v : Value} (h : Scalar.readTime content = .ok v) :
    Gives .timestamp content false v :=
  gives_line (by rintro _ ⟨⟩) rfl (by rintro ⟨⟩) fun _ => h

theorem gives_bytes (bs : List UInt8) :
    Gives .binary (Text.ofChars (Base64.encodeLines bs)) true (.bytes bs) := by
  refine ⟨⟨by rintro _ ⟨⟩, by rintro ⟨⟩, fun _ hne => ?_⟩, rfl,
    fun _ => Scalar.readBytes_encodeLines bs⟩
  obtain ⟨ls, hls, hlines⟩ := Scalar.encodeLines_eq bs
  rw [hls] at hne ⊢
  cases ls with
  | nil => exact absurd rfl hne
  | cons l ls =>
    obtain ⟨hl, hls⟩ := List.forall_mem_cons.1 hlines
    exact ⟨l, ls, rfl, hl, hls⟩

/-- A value without parts is written as a scalar that is read as its image. -/
theorem Loadable.exists_scalar {owner : Mark → Value} {v : Value} (h : Loadable owner v)
    (hscalar : isScalar v = true) (hunshared : v.content = v) (hspellable : v.isSpellable = true) :
    ∃ tag content asLines, (∀ names name met, Draft.ofValueNamed names name v met =
      (.scalar name tag content asLines, met)) ∧ Gives tag content asLines (image v) := by
  cases h with
  | null => exact ⟨_, _, _, fun _ _ _ => rfl, gives_null⟩
  | bool b => exact ⟨_, _, _, fun _ _ _ => rfl, gives_bool b⟩
  | int n => exact ⟨_, _, _, fun _ _ _ => rfl, gives_int hspellable⟩
  | float x => exact ⟨_, _, _, fun _ _ _ => rfl, gives_float x⟩
  | text t => exact ⟨_, _, _, fun _ _ _ => rfl, gives_text t⟩
  | bytes bs => exact ⟨_, _, _, fun _ _ _ => rfl, gives_bytes bs⟩
  | date valid => exact ⟨_, _, _, fun _ _ _ => rfl, gives_time (SpelledTime.readTime_date valid)⟩
  | moment valid =>
    exact ⟨_, _, _, fun _ _ _ => rfl, gives_time (SpelledTime.readTime_moment valid)⟩
  | list | tuple | set | map => cases hscalar
  | @shared mark v _ hcontent _ =>
    have hsame : v = .shared mark v := hcontent.symm.trans hunshared
    have hsize := congrArg sizeOf hsame
    simp at hsize

end SiteRules.Yaml
