namespace Duel

structure TimeOfDay where
  hour : Nat
  minute : Nat
  second : Nat
  micro : Nat
  /-- Minutes ahead of universal time, where that is known. -/
  offset : Option Int
  deriving DecidableEq, Repr

/-- A day of the calendar, or a point in time on it. -/
structure Timestamp where
  year : Nat
  month : Nat
  day : Nat
  time : Option TimeOfDay := none
  deriving DecidableEq, Repr

namespace Timestamp

def isLeap (year : Nat) : Bool := year % 4 == 0 && (year % 100 != 0 || year % 400 == 0)

def monthLength (year month : Nat) : Nat :=
  if month = 2 then (if isLeap year then 29 else 28)
  else if [4, 6, 9, 11].contains month then 30
  else 31

def isValid (t : Timestamp) : Bool :=
  1 ≤ t.year && 1 ≤ t.month && t.month ≤ 12 && 1 ≤ t.day && t.day ≤ monthLength t.year t.month &&
    t.time.all fun c =>
      c.hour < 24 && c.minute < 60 && c.second < 60 && c.offset.all (·.natAbs < 1440)

def dayNumber (t : Timestamp) : Nat :=
  let past := t.year - 1
  past * 365 + past / 4 - past / 100 + past / 400 + t.day +
    (List.range (t.month - 1)).foldr (fun m n => monthLength t.year (m + 1) + n) 0

/-- The microseconds since the start of the calendar, in universal time if that is known. -/
def instant (t : Timestamp) (c : TimeOfDay) : Int :=
  let minutes : Int := (t.dayNumber * 24 + c.hour : Nat) * 60 + c.minute - c.offset.getD 0
  (minutes * 60 + c.second) * 1000000 + c.micro

/-- Whether two timestamps mean the same; a day is no point in time, and points in time can be
compared only if universal time is known of both or of none. -/
def same (a b : Timestamp) : Bool :=
  match a.time, b.time with
  | none, none => a == b
  | some c, some d =>
    c.offset.isSome == d.offset.isSome && a.instant c == b.instant d
  | _, _ => false

def offsetText (minutes : Int) : String :=
  let seconds := minutes * 60
  if seconds = 0 then "datetime.timezone.utc"
  else
    let parts :=
      if seconds < 0 then "days=-1, seconds=" ++ toString (seconds + 86400)
      else "seconds=" ++ toString seconds
    "datetime.timezone(datetime.timedelta(" ++ parts ++ "))"

def text (t : Timestamp) : String :=
  let numbers (ns : List Nat) : List String := ns.map toString
  match t.time with
  | none => "datetime.date(" ++ ", ".intercalate (numbers [t.year, t.month, t.day]) ++ ")"
  | some c =>
    let fine :=
      if c.micro ≠ 0 then [c.second, c.micro] else if c.second ≠ 0 then [c.second] else []
    let parts := numbers ([t.year, t.month, t.day, c.hour, c.minute] ++ fine) ++
      (c.offset.map fun m => "tzinfo=" ++ offsetText m).toList
    "datetime.datetime(" ++ ", ".intercalate parts ++ ")"

end Timestamp

end Duel
