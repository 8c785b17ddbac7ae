import Typings.Data.Reader
import Typings.Yaml.Cursor

/-! # Dates and times

A plain text may write a day, or a day with a time and perhaps a distance from universal time.
Whether such a day and time exist is a question of its own.
-/

namespace Typings.Yaml

structure TimeOfDay where
  hour : Nat
  minute : Nat
  second : Nat
  microsecond : Nat
  /-- The distance from universal time in minutes, if it is given. -/
  offset : Option Int
  deriving DecidableEq, Repr

structure Moment where
  year : Nat
  month : Nat
  day : Nat
  time : Option TimeOfDay
  deriving DecidableEq, Repr

namespace Moment

/-! ## Reading -/

def shortNumber : List Char → Option (Nat × List Char)
  | a :: b :: rest =>
    if !a.isDigit then none
    else if b.isDigit then some (Data.Reader.digitsValue [a, b], rest)
    else some (Data.Reader.digitsValue [a], b :: rest)
  | [a] => if a.isDigit then some (Data.Reader.digitsValue [a], []) else none
  | [] => none

def fixedNumber (width : Nat) (cs : List Char) : Option (Nat × List Char) :=
  let ds := cs.take width
  if ds.length = width && ds.all Char.isDigit then some (Data.Reader.digitsValue ds, cs.drop width) else none

def sign (c : Char) : List Char → Option (List Char)
  | d :: rest => if c = d then some rest else none
  | [] => none

def millionths (ds : List Char) : Nat :=
  Data.Reader.digitsValue (ds.take 6 ++ List.replicate (6 - ds.length) '0')

/-- The distance from universal time at the end of a text, in minutes. -/
def zone? (cs : List Char) : Option (Option Int) :=
  match cs.dropWhile isBlank with
  | [] => if cs.isEmpty then some none else none
  | ['Z'] => some (some 0)
  | c :: rest =>
    if c = '+' || c = '-' then do
      let (hours, rest) ← shortNumber rest
      let minutes ← match rest with
        | [] => some 0
        | ':' :: rest =>
          match fixedNumber 2 rest with
          | some (minutes, []) => some minutes
          | _ => none
        | _ => none
      let total : Int := hours * 60 + minutes
      return some (if c = '-' then -total else total)
    else none

def timeOfDay? (cs : List Char) : Option TimeOfDay := do
  let (hour, cs) ← shortNumber cs
  let (minute, cs) ← fixedNumber 2 (← sign ':' cs)
  let (second, cs) ← fixedNumber 2 (← sign ':' cs)
  let (fraction, cs) := match cs with
    | '.' :: rest => rest.span Char.isDigit
    | rest => ([], rest)
  return ⟨hour, minute, second, millionths fraction, ← zone? cs⟩

/-- What separates a day from a time: a letter, or blanks. -/
def separator? : List Char → Option (List Char)
  | c :: rest =>
    if c = 'T' || c = 't' then some rest
    else if isBlank c then some (rest.dropWhile isBlank)
    else none
  | [] => none

def day? (cs : List Char) : Option ((Nat × Nat × Nat) × List Char) := do
  let (year, cs) ← fixedNumber 4 cs
  let (month, cs) ← shortNumber (← sign '-' cs)
  let (day, cs) ← shortNumber (← sign '-' cs)
  return ((year, month, day), cs)

def ofText? (cs : List Char) : Option Moment := do
  let ((year, month, day), rest) ← day? cs
  if rest.isEmpty then return ⟨year, month, day, none⟩
  let time ← timeOfDay? (← separator? rest)
  return ⟨year, month, day, some time⟩

/-- Whether a plain text is taken for a moment: a day without a time needs all its ten characters.
-/
def isPlainMoment (cs : List Char) : Bool :=
  match ofText? cs with
  | some m => m.time.isSome || cs.length == 10
  | none => false

/-! ## Existence -/

def isLeap (year : Nat) : Bool := year % 4 == 0 && (year % 100 != 0 || year % 400 == 0)

def daysIn (year month : Nat) : Nat :=
  match month with
  | 2 => if isLeap year then 29 else 28
  | 4 | 6 | 9 | 11 => 30
  | _ => 31

/-! ## Showing -/

/-- Days and seconds of a distance in minutes; the seconds are not negative. -/
def daysAndSeconds (offset : Int) : Int × Int := (offset / 1440, offset % 1440 * 60)

def shownDistance (offset : Int) : String :=
  let (days, seconds) := daysAndSeconds offset
  let parts := (if days ≠ 0 then ["days=" ++ toString days] else []) ++
    (if seconds ≠ 0 then ["seconds=" ++ toString seconds] else [])
  "datetime.timedelta(" ++ (if parts.isEmpty then "0" else ", ".intercalate parts) ++ ")"

def shownZone (offset : Int) : String :=
  if offset = 0 then "datetime.timezone.utc" else "datetime.timezone(" ++ shownDistance offset ++ ")"

/-- A moment as messages show it; seconds and smaller parts are left out if they are zero. -/
def shown (m : Moment) : String :=
  let numbers (ns : List Nat) : String := ", ".intercalate (ns.map toString)
  match m.time with
  | none => "datetime.date(" ++ numbers [m.year, m.month, m.day] ++ ")"
  | some t =>
    let small := if t.microsecond ≠ 0 then [t.second, t.microsecond]
      else if t.second ≠ 0 then [t.second] else []
    let zone := match t.offset with
      | some offset => ", tzinfo=" ++ shownZone offset
      | none => ""
    "datetime.datetime(" ++ numbers ([m.year, m.month, m.day, t.hour, t.minute] ++ small) ++ zone ++ ")"

/-- The first part of a moment that cannot be, in the order in which parts are looked at. -/
def flaw? (m : Moment) : Option String :=
  let zoneFlaw := m.time.bind fun t => t.offset.bind fun offset =>
    if offset.natAbs < 1440 then none
    else some ("offset must be a timedelta strictly between -timedelta(hours=24) and timedelta(hours=24), not " ++
      shownDistance offset ++ ".")
  let dayFlaw :=
    if m.year = 0 then some "year 0 is out of range"
    else if m.month = 0 || 12 < m.month then some "month must be in 1..12"
    else if m.day = 0 || daysIn m.year m.month < m.day then some "day is out of range for month"
    else none
  let timeFlaw := m.time.bind fun t =>
    if 23 < t.hour then some "hour must be in 0..23"
    else if 59 < t.minute then some "minute must be in 0..59"
    else if 59 < t.second then some "second must be in 0..59"
    else none
  zoneFlaw <|> dayFlaw <|> timeFlaw

def check (m : Moment) : Except Fault Moment :=
  match m.flaw? with
  | some text => .error (.crashed ⟨.value, text⟩)
  | none => .ok m

end Moment

end Typings.Yaml
