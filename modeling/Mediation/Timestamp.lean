import Mediation.Calendar
import Mediation.Decimal
import Mediation.Text.Blank

/-!
# Points in time

UTC with nanoseconds. A leap second is the second before it with a nanosecond
count of 10^9 or more, as in RFC 3339 it is written `:60`. Years run from
-262143 to 262142; years outside of 0 to 9999 are written with a sign.
-/

namespace Mediation

namespace Timestamp

def minSecond : Int := -8334601228800

def maxSecond : Int := 8210266876799

/-- Whether seconds from 1970 and nanoseconds name a point in time; more than
10^9 nanoseconds are a leap second, which only the last second of a minute has. -/
def isTimestamp (seconds : Int) (nanos : Nat) : Bool :=
  minSecond ≤ seconds && seconds ≤ maxSecond
    && (nanos < 1000000000 || (seconds % 60 = 59 && nanos < 2000000000))

end Timestamp

/-- A point in time: seconds since 1970 without leap seconds, and nanoseconds. -/
structure Timestamp where
  seconds : Int
  nanos : Nat
  valid : Timestamp.isTimestamp seconds nanos = true
  deriving DecidableEq

namespace Timestamp

/-- 1970-01-01T00:00:00Z. -/
def epoch : Timestamp := ⟨0, 0, by decide⟩

instance : Inhabited Timestamp := ⟨epoch⟩

def make? (seconds : Int) (nanos : Nat) : Option Timestamp :=
  if h : isTimestamp seconds nanos = true then some ⟨seconds, nanos, h⟩ else none

/-- The point in time that lies a number of milliseconds after the epoch, and
the epoch itself when that is outside of the range. -/
def ofMillis (millis : Int) : Timestamp :=
  (make? (millis / 1000) ((millis % 1000).toNat * 1000000)).getD epoch

/-- Milliseconds since the epoch; a leap second counts on into the next second. -/
def millis (t : Timestamp) : Int := t.seconds * 1000 + (t.nanos / 1000000 : Nat)

def compare (a b : Timestamp) : Ordering :=
  (Ord.compare a.seconds b.seconds).then (Ord.compare a.nanos b.nanos)

/-! ### Writing -/

/-- The digits of a year: four, with a sign outside of 0 to 9999. -/
def yearChars (y : Int) : List Char :=
  if 0 ≤ y ∧ y ≤ 9999 then Decimal.padded 4 y.toNat
  else (if y < 0 then '-' else '+') :: Decimal.padded 4 y.natAbs

def twoDigits (n : Int) : List Char := Decimal.padded 2 n.toNat

def secondChars (t : Timestamp) : List Char :=
  let date := Calendar.dateOf (t.seconds / 86400)
  let ofDay := t.seconds % 86400
  let second := ofDay % 60 + (t.nanos / 1000000000 : Nat)
  yearChars date.year ++ '-' :: twoDigits date.month ++ '-' :: twoDigits date.day
    ++ 'T' :: twoDigits (ofDay / 3600) ++ ':' :: twoDigits (ofDay / 60 % 60)
    ++ ':' :: twoDigits second

/-- The fraction of a second with 0, 3, 6 or 9 digits, the fewest that lose nothing. -/
def fractionChars (nanos : Nat) : List Char :=
  if nanos = 0 then []
  else if nanos % 1000000 = 0 then '.' :: Decimal.padded 3 (nanos / 1000000)
  else if nanos % 1000 = 0 then '.' :: Decimal.padded 6 (nanos / 1000)
  else '.' :: Decimal.padded 9 nanos

def chars (t : Timestamp) : List Char :=
  t.secondChars ++ fractionChars (t.nanos % 1000000000) ++ ['Z']

def text (t : Timestamp) : String := String.ofList t.chars

def canonicalText (t : Timestamp) : String := String.ofList (t.secondChars ++ ['Z'])

/-! ### Reading -/

/-- The longest run of digits in front, but at most `max` of them; none without a digit. -/
def number? (max : Nat) (cs : List Char) : Option (Nat × List Char) :=
  let ds := (cs.take max).takeWhile Decimal.isDigit
  if ds = [] then none else some (Decimal.value ds, cs.drop ds.length)

/-- A field of at most two digits, blanks in front allowed. -/
def field? (cs : List Char) : Option (Int × List Char) :=
  (number? 2 (Text.trimStart cs)).map fun p => (p.1, p.2)

/-- A year: up to four digits, or any number of them behind a sign. -/
def year? (cs : List Char) : Option (Int × List Char) :=
  match Text.trimStart cs with
  | '-' :: r => (number? r.length r).map fun p => (-(p.1 : Int), p.2)
  | '+' :: r => (number? r.length r).map fun p => (p.1, p.2)
  | r => (number? 4 r).map fun p => (p.1, p.2)

def separator? (c : Char) (cs : List Char) : Option (List Char) :=
  match Text.trimStart cs with
  | d :: r => if d = c then some r else none
  | [] => none

/-- A fraction of a second in nanoseconds, further digits dropped; zero without a point. -/
def fraction? : List Char → Option (Nat × List Char)
  | '.' :: r =>
    let ds := r.takeWhile Decimal.isDigit
    if ds = [] then none
    else
      let kept := ds.take 9
      some (Decimal.value kept * 10 ^ (9 - kept.length), r.drop ds.length)
  | r => some (0, r)

/-- An offset from UTC in seconds: `Z`, the letters `UTC`, or a sign, two digits of
hours, colons or blanks, and two digits of minutes. -/
def offset? (cs : List Char) : Option (Int × List Char) :=
  match cs with
  | 'Z' :: r | 'z' :: r => some (0, r)
  | a :: b :: c :: r =>
    if (a = 'U' || a = 'u') && (b = 'T' || b = 't') && (c = 'C' || c = 'c') then some (0, r)
    else if (a = '+' || a = '-' || a = '\u2212') && Decimal.isDigit b && Decimal.isDigit c then
      match r.dropWhile fun d => d = ':' || Text.isBlank d with
      | m :: n :: rest =>
        if Decimal.isDigit m && Decimal.isDigit n then
          let hours := Decimal.value [b, c]
          let minutes := Decimal.value [m, n]
          let seconds : Int := hours * 3600 + minutes * 60
          if minutes < 60 && hours < 24 then some (if a = '+' then seconds else -seconds, rest)
          else none
        else none
      | _ => none
    else none
  | _ => none

def localSecond? (date : Date) (hour minute second : Int) : Option Int :=
  if Calendar.isDate date && -262143 ≤ date.year && date.year ≤ 262142
      && hour ≤ 23 && minute ≤ 59 && second ≤ 60 then
    some (Calendar.dayOf date * 86400 + hour * 3600 + minute * 60 + min second 59)
  else none

/-- The point in time that a text names: date, `T` or a blank, time of day, offset. -/
def ofChars? (cs : List Char) : Option Timestamp := do
  let (year, cs) ← year? cs
  let (month, cs) ← field? (← separator? '-' cs)
  let (day, cs) ← field? (← separator? '-' cs)
  let cs ← match cs with
    | c :: r => if c = 'T' || c = 't' || c = ' ' then some r else none
    | [] => none
  let (hour, cs) ← field? cs
  let (minute, cs) ← field? (← separator? ':' cs)
  let (second, cs) ← field? (← separator? ':' cs)
  let (nanos, cs) ← fraction? cs
  let (offset, cs) ← offset? (Text.trimStart cs)
  if Text.trimStart cs ≠ [] then none
  else
    let seconds ← localSecond? ⟨year, month, day⟩ hour minute second
    make? (seconds - offset) (nanos + if second = 60 then 1000000000 else 0)

def ofString? (s : String) : Option Timestamp := ofChars? s.toList

end Timestamp

end Mediation
