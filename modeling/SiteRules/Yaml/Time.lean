import SiteRules.Calendar
import SiteRules.Text.Digit

/-!
# Points in time

The scalars that spell a date or a moment, as `2020-01-02` or `2020-01-02 3:04:05.6 +07:00`.
-/

namespace SiteRules.Yaml

/-- The offset of a moment as it is spelled. -/
inductive SpelledZone where
  | universal
  | offset (negative : Bool) (hours minutes : Text)
deriving Repr

/-- The time of day of a moment as it is spelled. -/
structure SpelledClock where
  hour : Text
  minute : Text
  second : Text
  fraction : Text
  zone : Option SpelledZone
deriving Repr

/-- A point in time as it is spelled. -/
structure SpelledTime where
  year : Text
  month : Text
  day : Text
  clock : Option SpelledClock
deriving Repr

namespace SpelledTime

/-- Cuts off between `least` and `most` digits, as many as there are. -/
def cutDigits? (least most : Nat) (t : Text) : Option (Text × Text) :=
  let digits := (t.take most).takeWhile CodePoint.isBasicDigit
  if digits.length < least then none else some (digits, t.drop digits.length)

/-- Cuts off a given character. -/
def cutChar? (c : Char) : Text → Option Text
  | d :: rest => if d = c then some rest else none
  | [] => none

/-- Whether a code point is a blank or a tab. -/
def isGap (c : CodePoint) : Bool := c = ' ' || c = '\t'

/-- Cuts off what stands between the date and the time: a letter T, or blanks. -/
def cutGap? (t : Text) : Option Text :=
  match t with
  | [] => none
  | c :: rest =>
    if c = 'T' || c = 't' then some rest
    else if isGap c then some (rest.dropWhile isGap)
    else none

/-- Reads the zone to the end of the text, after blanks; there may be none. -/
def readZone? (t : Text) : Option (Option SpelledZone) :=
  if t.isEmpty then some none
  else match t.dropWhile isGap with
    | [] => none
    | c :: rest =>
      if c = 'Z' then if rest.isEmpty then some (some .universal) else none
      else if c = '+' || c = '-' then do
        let (hours, rest) ← cutDigits? 1 2 rest
        if rest.isEmpty then some (some (.offset (c = '-') hours []))
        else do
          let rest ← cutChar? ':' rest
          let (minutes, rest) ← cutDigits? 2 2 rest
          if rest.isEmpty then some (some (.offset (c = '-') hours minutes)) else none
      else none

/-- Reads the time of day to the end of the text. -/
def readClock? (t : Text) : Option SpelledClock := do
  let (hour, t) ← cutDigits? 1 2 t
  let t ← cutChar? ':' t
  let (minute, t) ← cutDigits? 2 2 t
  let t ← cutChar? ':' t
  let (second, t) ← cutDigits? 2 2 t
  let (fraction, t) := match cutChar? '.' t with
    | some t => (t.takeWhile CodePoint.isBasicDigit, t.dropWhile CodePoint.isBasicDigit)
    | none => ([], t)
  let zone ← readZone? t
  return ⟨hour, minute, second, fraction, zone⟩

/-- Reads a point in time to the end of the text. -/
def read? (t : Text) : Option SpelledTime := do
  let (year, t) ← cutDigits? 4 4 t
  let t ← cutChar? '-' t
  let (month, t) ← cutDigits? 1 2 t
  let t ← cutChar? '-' t
  let (day, t) ← cutDigits? 1 2 t
  if t.isEmpty then return ⟨year, month, day, none⟩
  let t ← cutGap? t
  let clock ← readClock? t
  return ⟨year, month, day, some clock⟩

/-- Whether the spelling is one that needs no tag: a date alone has two digits for the month and
for the day. -/
def isPlain (s : SpelledTime) : Bool :=
  s.clock.isSome || (s.month.length = 2 && s.day.length = 2)

/-- The microseconds of a fraction: its first six digits. -/
def microseconds (fraction : Text) : Nat :=
  Text.decimal ((fraction ++ List.replicate 6 (CodePoint.ofChar '0')).take 6)

/-- The offset in minutes that a zone spells. -/
def SpelledZone.minutes : SpelledZone → Int
  | .universal => 0
  | .offset negative hours minutes =>
    let n : Int := hours.decimal * 60 + minutes.decimal
    if negative then -n else n

end SpelledTime

/-- A date or a moment. -/
inductive Time where
  | date (d : Date)
  | moment (m : Moment)

/-- The point in time that is spelled, if all its fields are in range. -/
def SpelledTime.toTime (s : SpelledTime) : Except CalendarError Time :=
  let year := s.year.decimal
  let month := s.month.decimal
  let day := s.day.decimal
  match s.clock with
  | none => (Date.ofFields year month day).map Time.date
  | some clock =>
    (Moment.ofFields year month day clock.hour.decimal clock.minute.decimal clock.second.decimal
      (microseconds clock.fraction) (clock.zone.map SpelledTime.SpelledZone.minutes)).map
      Time.moment

end SiteRules.Yaml
