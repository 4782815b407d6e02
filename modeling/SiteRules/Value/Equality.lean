import SiteRules.Value.Basic

/-!
# Equality of values

Values are compared by what they hold: numbers by their size whatever their kind (true counts as
one), mappings and sets without regard to order, marked values by what is under the mark. Mappings
and sets are compared both ways, so that the comparison is symmetric for every list of members.
-/

namespace SiteRules.Value

/-- Whether two numbers, true and false counting as such, are equal. -/
def sameNumber : Value → Value → Bool
  | .float x, .float y => x.same y
  | .float x, .int n => x.units? = some (n * Binary64.one)
  | .int n, .float x => x.units? = some (n * Binary64.one)
  | .int m, .int n => m = n
  | _, _ => false

/-- A truth value as the number it counts as. -/
def numeric : Value → Value
  | bool b => int b.toNat
  | v => v

mutual

/-- Whether two values are equal. -/
def same : Value → Value → Bool
  | .shared _ a, b => same a b
  | .null, b => match b.content with
    | .null => true
    | _ => false
  | .text t, b => match b.content with
    | .text u => t = u
    | _ => false
  | .bytes bs, b => match b.content with
    | .bytes cs => bs = cs
    | _ => false
  | .date d, b => match b.content with
    | .date e => d = e
    | _ => false
  | .moment m, b => match b.content with
    | .moment n => m.same n
    | _ => false
  | .list as, b => match b.content with
    | .list bs => sameAll as bs
    | _ => false
  | .tuple as, b => match b.content with
    | .tuple bs => sameAll as bs
    | _ => false
  | .set as, b => match b.content with
    | .set bs => as.length = bs.length && allAmong as bs && bs.all fun b => among as b
    | _ => false
  | .map as, b => match b.content with
    | .map bs =>
      as.length = bs.length && allEntriesAmong as bs && bs.all fun entry => entryAmong as entry
    | _ => false
  | .cycle m, b => match b.content with
    | .cycle n => m = n
    | _ => false
  | .bool x, b => sameNumber (.int x.toNat) b.content.numeric
  | .int n, b => sameNumber (.int n) b.content.numeric
  | .float x, b => sameNumber (.float x) b.content.numeric
termination_by structural a => a

/-- Whether two lists hold equal values in the same order. -/
def sameAll : List Value → List Value → Bool
  | [], [] => true
  | a :: as, b :: bs => same a b && sameAll as bs
  | _, _ => false
termination_by structural as => as

/-- Whether each of the values is equal to one of the others. -/
def allAmong : List Value → List Value → Bool
  | [], _ => true
  | a :: as, bs => bs.any (fun b => same a b) && allAmong as bs
termination_by structural as => as

/-- Whether one of the values is equal to a given one. -/
def among : List Value → Value → Bool
  | [], _ => false
  | a :: as, b => same a b || among as b
termination_by structural as => as

/-- Whether each of the entries has an equal one among the others. -/
def allEntriesAmong : List (Value × Value) → List (Value × Value) → Bool
  | [], _ => true
  | (k, v) :: as, bs =>
    bs.any (fun entry => same k entry.1 && same v entry.2) && allEntriesAmong as bs
termination_by structural as => as

/-- Whether one of the entries is equal to a given one. -/
def entryAmong : List (Value × Value) → Value × Value → Bool
  | [], _ => false
  | (k, v) :: as, entry => same k entry.1 && same v entry.2 || entryAmong as entry
termination_by structural as => as

end

instance : BEq Value := ⟨same⟩

end SiteRules.Value
