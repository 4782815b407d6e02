import SiteRules.Number.Literal
import SiteRules.Number.Shortest
import SiteRules.Text.Quoted
import SiteRules.Value.Basic

/-!
# Shown values

The forms in which messages show values: `shown` spells every kind out, and `plain?` is the same but
for a text or a point in time, which it gives as they are. Integers with too many digits are not
spelled: `show?` and `plain?` give the error.
-/

namespace SiteRules

/-- The offset of a moment as messages spell it. -/
def offsetShown (minutes : Int) : String :=
  if minutes = 0 then "datetime.timezone.utc" else "datetime.timezone(" ++ spanText minutes ++ ")"

/-- A moment by its fields; seconds and microseconds are shown where there are any. -/
def Moment.shown (m : Moment) : String :=
  let seconds := if m.microsecond ≠ 0 then s!", {m.second}, {m.microsecond}"
    else if m.second ≠ 0 then s!", {m.second}" else ""
  let zone := match m.offset with
    | some minutes => ", tzinfo=" ++ offsetShown minutes
    | none => ""
  s!"datetime.datetime({m.date.year}, {m.date.month}, {m.date.day}, {m.hour}, {m.minute}"
    ++ seconds ++ zone ++ ")"

/-- A byte between quotes of the kind `quote`. -/
def byteShown (quote : Char) (b : UInt8) : String :=
  let c := Char.ofNat b.toNat
  if c = quote || c = '\\' then String.ofList ['\\', c]
  else if c = '\t' then "\\t"
  else if c = '\n' then "\\n"
  else if c = '\r' then "\\r"
  else if 0x20 ≤ b.toNat && b.toNat < 0x7f then String.singleton c
  else "\\x" ++ hexDigits 2 b.toNat

/-- Bytes between quotes. -/
def bytesShown (bs : List UInt8) : String :=
  let quote := if bs.contains 0x27 && !bs.contains 0x22 then '"' else '\''
  "b" ++ String.singleton quote ++ String.join (bs.map (byteShown quote)) ++ String.singleton quote

namespace Value

/-- What stands for a collection at a place inside itself. -/
def ellipsis : Value → String
  | list _ => "[...]"
  | tuple _ => "(...)"
  | map _ => "\x7b...\x7d"
  | _ => "..."

mutual

/-- A value as messages spell it out; `around` are the marks of the collections that it is in, each
with what stands for it. -/
def shownIn (around : List (Mark × String)) : Value → String
  | null => "None"
  | bool b => if b then "True" else "False"
  | int n => toString n
  | float x => x.text
  | text t => t.quoted
  | bytes bs => bytesShown bs
  | date d => s!"datetime.date({d.year}, {d.month}, {d.day})"
  | moment m => m.shown
  | list items => "[" ++ ", ".intercalate (allShown around items) ++ "]"
  | tuple [item] => "(" ++ shownIn around item ++ ",)"
  | tuple items => "(" ++ ", ".intercalate (allShown around items) ++ ")"
  | set [] => "set()"
  | set items => "\x7b" ++ ", ".intercalate (allShown around items) ++ "\x7d"
  | map entries => "\x7b" ++ ", ".intercalate (entriesShown around entries) ++ "\x7d"
  | shared mark v => match around.lookup mark with
    | some short => short
    | none => shownIn ((mark, v.ellipsis) :: around) v
  | cycle mark => (around.lookup mark).getD "..."

/-- Each of the values as messages spell it out. -/
def allShown (around : List (Mark × String)) : List Value → List String
  | [] => []
  | v :: rest => shownIn around v :: allShown around rest

/-- Each of the entries as messages spell it out. -/
def entriesShown (around : List (Mark × String)) : List (Value × Value) → List String
  | [] => []
  | (k, v) :: rest => (shownIn around k ++ ": " ++ shownIn around v) :: entriesShown around rest

end

/-- A value as messages spell it out. -/
def shown (v : Value) : String :=
  v.shownIn []

mutual

/-- Whether the integers of a value have few enough digits to be written. -/
def isSpellable : Value → Bool
  | int n => Literal.isSpellable n
  | list items => areSpellable items
  | tuple items => areSpellable items
  | set items => areSpellable items
  | map entries => areSpellableEntries entries
  | shared _ v => v.isSpellable
  | _ => true

/-- Whether the integers of several values have few enough digits. -/
def areSpellable : List Value → Bool
  | [] => true
  | v :: rest => v.isSpellable && areSpellable rest

/-- Whether the integers of several entries have few enough digits. -/
def areSpellableEntries : List (Value × Value) → Bool
  | [] => true
  | (k, v) :: rest => k.isSpellable && v.isSpellable && areSpellableEntries rest

end

/-- A value as messages spell it out, unless it has an integer with too many digits. -/
def show? (v : Value) : Except Literal.Error String :=
  if v.isSpellable then .ok v.shown else .error .tooLong

/-- A value as plain text, unless it has an integer with too many digits. -/
def plain? (v : Value) : Except Literal.Error Text :=
  match v.content with
  | text t => .ok t
  | date d => .ok (Text.ofString d.text)
  | moment m => .ok (Text.ofString (m.text " "))
  | v => v.show?.map Text.ofString

/-- The plain text of a value that has one. -/
def plain (v : Value) : Text :=
  v.plain?.toOption.getD []

end Value

end SiteRules
