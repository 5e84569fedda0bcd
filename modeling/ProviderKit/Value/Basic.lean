import ProviderKit.Text.Basic
import ProviderKit.Number.Binary64

/-!
# Data values

What a schema file holds before its shape is checked: the values that JSON and YAML documents
describe. Mappings keep the order of their entries. Two keys that are equal as values are the same
key, whatever their kinds: `1`, `1.0` and `true` are one key.
-/

namespace ProviderKit

/-- A day of the calendar. -/
structure Date where
  year : Nat
  month : Nat
  day : Nat
deriving DecidableEq

/-- A point in time on a given day, to the microsecond; `offset` is in minutes east of Greenwich,
and absent for a local time. -/
structure Timestamp where
  date : Date
  hour : Nat
  minute : Nat
  second : Nat
  microsecond : Nat
  offset : Option Int
deriving DecidableEq

/-- A data value. -/
inductive Value where
  | null
  | bool (b : Bool)
  | int (n : Int)
  | float (x : Binary64)
  | text (t : Text)
  | bytes (b : Bytes)
  | date (d : Date)
  | timestamp (t : Timestamp)
  | list (items : List Value)
  | set (items : List Value)
  | pair (first second : Value)
  | mapping (entries : List (Value × Value))
deriving Inhabited

namespace Date

/-- A leap year of the Gregorian calendar. -/
def isLeap (year : Nat) : Bool := year % 4 == 0 && (year % 100 != 0 || year % 400 == 0)

/-- The number of days of a month. -/
def monthLength (year month : Nat) : Nat :=
  if month = 2 then (if isLeap year then 29 else 28)
  else if month = 4 ∨ month = 6 ∨ month = 9 ∨ month = 11 then 30
  else 31

/-- The date exists, in one of the years 1 to 9999. -/
def isValid (d : Date) : Bool :=
  1 ≤ d.year && d.year ≤ 9999 && 1 ≤ d.month && d.month ≤ 12 && 1 ≤ d.day &&
    d.day ≤ monthLength d.year d.month

/-- The number of days from the first day of year 1. -/
def dayNumber (d : Date) : Nat :=
  let y := d.year - 1
  let months := (List.range (d.month - 1)).map fun m => monthLength d.year (m + 1)
  y * 365 + y / 4 - y / 100 + y / 400 + months.foldl (· + ·) 0 + (d.day - 1)

end Date

namespace Timestamp

/-- The time of day and the offset are in range. -/
def isValid (t : Timestamp) : Bool :=
  t.date.isValid && t.hour < 24 && t.minute < 60 && t.second < 60 &&
    (match t.offset with
      | none => true
      | some m => -1440 < m && m < 1440)

/-- Microseconds from the first day of year 1, in the zone of the offset. -/
def instant (t : Timestamp) : Int :=
  let seconds : Int :=
    ((t.date.dayNumber * 24 + t.hour) * 60 + t.minute) * 60 + t.second - t.offset.getD 0 * 60
  seconds * 1000000 + t.microsecond

end Timestamp

namespace Value

/-- The number that a value is, for comparison with other numbers: truth values count as one and
zero, and a float counts if it is an integer. -/
def wholeNumber? : Value → Option Int
  | bool b => some (if b then 1 else 0)
  | int n => some n
  | float x => x.toInt?
  | _ => none

/-- Two values are the same key of a mapping. -/
def sameKey (a b : Value) : Bool :=
  match a.wholeNumber?, b.wholeNumber? with
  | some m, some n => m == n
  | _, _ =>
    match a, b with
    | null, null => true
    | float x, float y => x.eqValue y || x == y
    | text s, text t => s == t
    | bytes s, bytes t => s == t
    | date d, date e => d == e
    | timestamp s, timestamp t => s.offset.isSome == t.offset.isSome && s.instant == t.instant
    | _, _ => false

/-- The entries with one more: a new key goes to the end, and a key already there keeps its place
and spelling and gets the new value. -/
def insertEntry (key value : Value) : List (Value × Value) → List (Value × Value)
  | [] => [(key, value)]
  | (k, v) :: rest =>
    if sameKey k key then (k, value) :: rest else (k, v) :: insertEntry key value rest

/-- The value at a text key. -/
def lookup (key : Text) : List (Value × Value) → Option Value
  | [] => none
  | (text k, v) :: rest => if k = key then some v else lookup key rest
  | _ :: rest => lookup key rest

/-- The word for the kind of a value. -/
def kindName : Value → String
  | null => "NoneType"
  | bool _ => "bool"
  | int _ => "int"
  | float _ => "float"
  | text _ => "str"
  | bytes _ => "bytes"
  | date _ => "date"
  | timestamp _ => "datetime"
  | list _ => "list"
  | set _ => "set"
  | pair .. => "tuple"
  | mapping _ => "dict"

end Value

end ProviderKit
