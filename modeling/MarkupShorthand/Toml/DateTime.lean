import MarkupShorthand.Text.Decimal

/-!
# TOML dates and times

A date, a time of day, or both with or without an offset, read and written in the one normal form.
One is read from the start of a text (`dateTime?`), or a whole text stands for it
(`DateTime.ofText?`).
-/

namespace MarkupShorthand.Toml

open Text

/-- A day of a calendar year. -/
structure Date where
  year : Nat
  month : Nat
  day : Nat
deriving DecidableEq

/-- A time of day. -/
structure Time where
  hour : Nat
  minute : Nat
  second : Nat
  nanosecond : Nat
deriving DecidableEq

/-- How far local time is ahead of universal time. -/
inductive TimeOffset where
  | utc
  | minutes (ahead : Int)
deriving DecidableEq

/-- A date, a time, or both; only both together have an offset. -/
inductive DateTime where
  | date (date : Date)
  | time (time : Time)
  | dateTime (date : Date) (time : Time) (offset : Option TimeOffset)
deriving DecidableEq

/-! ## Reading -/

/-- Exactly `n` digits, as a number, and what follows them. -/
def fixed? (n : Nat) (chars : List Char) : Option (Nat × List Char) :=
  let digits := chars.take n
  if digits.length = n ∧ digits.all Char.isDigit then some (ofDecimal digits, chars.drop n)
  else none

/-- What follows a character that must stand first. -/
def expect? (c : Char) : List Char → Option (List Char)
  | d :: rest => if d = c then some rest else none
  | [] => none

/-- Whether a year has a 29th of February. -/
def isLeapYear (year : Nat) : Bool :=
  year % 4 == 0 && (year % 100 != 0 || year % 400 == 0)

/-- The number of days of a month. -/
def daysInMonth (year month : Nat) : Nat :=
  if month = 2 then if isLeapYear year then 29 else 28
  else if month ∈ [4, 6, 9, 11] then 30
  else 31

/-- A date at the start of a text, and what follows it. -/
def date? (chars : List Char) : Option (Date × List Char) := do
  let (year, rest) ← fixed? 4 chars
  let (month, rest) ← fixed? 2 (← expect? '-' rest)
  let (day, rest) ← fixed? 2 (← expect? '-' rest)
  if 1 ≤ month ∧ month ≤ 12 ∧ 1 ≤ day ∧ day ≤ daysInMonth year month then
    return (⟨year, month, day⟩, rest)
  else none

/-- Decimals of a second in nanoseconds, if there are any; what is finer is cut off. -/
def nanoseconds? : List Char → Option (Nat × List Char)
  | '.' :: rest =>
    match rest.takeWhile Char.isDigit with
    | [] => none
    | digits =>
      let nine := (digits ++ List.replicate 9 '0').take 9
      some (ofDecimal nine, rest.dropWhile Char.isDigit)
  | chars => some (0, chars)

/-- A time at the start of a text, and what follows it. -/
def time? (chars : List Char) : Option (Time × List Char) := do
  let (hour, rest) ← fixed? 2 chars
  let (minute, rest) ← fixed? 2 (← expect? ':' rest)
  let (second, rest) ← fixed? 2 (← expect? ':' rest)
  let (nanosecond, rest) ← nanoseconds? rest
  if hour ≤ 23 ∧ minute ≤ 59 ∧ second ≤ 60 then return (⟨hour, minute, second, nanosecond⟩, rest)
  else none

/-- The hours and minutes of an offset, in minutes. -/
def offsetMinutes? (chars : List Char) : Option (Nat × List Char) := do
  let (hour, rest) ← fixed? 2 chars
  let (minute, rest) ← fixed? 2 (← expect? ':' rest)
  if hour ≤ 23 ∧ minute ≤ 59 then return (60 * hour + minute, rest) else none

/-- An offset, if there is one. -/
def offset? : List Char → Option (Option TimeOffset × List Char)
  | 'Z' :: rest => some (some .utc, rest)
  | 'z' :: rest => some (some .utc, rest)
  | '+' :: rest => (offsetMinutes? rest).map fun (n, after) => (some (.minutes n), after)
  | '-' :: rest => (offsetMinutes? rest).map fun (n, after) => (some (.minutes (-n)), after)
  | chars => some (none, chars)

/-- The time behind a date, if there is one, with its offset. -/
def timeBehind? : List Char → Option (Time × Option TimeOffset × List Char)
  | c :: rest =>
    if c = 'T' ∨ c = 't' ∨ c = ' ' then do
      let (time, rest) ← time? rest
      let (offset, after) ← offset? rest
      return (time, offset, after)
    else none
  | [] => none

/-- The date or time at the start of a text, and what follows it. -/
def dateTime? (chars : List Char) : Option (DateTime × List Char) :=
  match date? chars with
  | some (date, rest) =>
    match timeBehind? rest with
    | some (time, offset, after) => some (.dateTime date time offset, after)
    | none => some (.date date, rest)
  | none => (time? chars).map fun (time, after) => (.time time, after)

/-- The date or time that a whole text stands for. -/
def DateTime.ofText? (text : String) : Option DateTime :=
  match dateTime? text.toList with
  | some (d, []) => some d
  | _ => none

/-! ## Writing -/

/-- A date as it is written. -/
def Date.text (d : Date) : List Char :=
  padded 4 d.year ++ '-' :: padded 2 d.month ++ '-' :: padded 2 d.day

/-- A time as it is written: decimals of a second without zeros at the end. -/
def Time.text (t : Time) : List Char :=
  let decimals := ((padded 9 t.nanosecond).reverse.dropWhile (· == '0')).reverse
  padded 2 t.hour ++ ':' :: padded 2 t.minute ++ ':' :: padded 2 t.second ++
    if decimals.isEmpty then [] else '.' :: decimals

/-- An offset as it is written. -/
def TimeOffset.text : TimeOffset → List Char
  | utc => ['Z']
  | minutes ahead =>
    let n := ahead.natAbs
    (if ahead < 0 then '-' else '+') :: padded 2 (n / 60) ++ ':' :: padded 2 (n % 60)

/-- A date or time as it is written. -/
def DateTime.text : DateTime → String
  | date d => String.ofList d.text
  | time t => String.ofList t.text
  | dateTime d t offset =>
    String.ofList (d.text ++ 'T' :: t.text ++ (offset.map TimeOffset.text).getD [])

end MarkupShorthand.Toml
