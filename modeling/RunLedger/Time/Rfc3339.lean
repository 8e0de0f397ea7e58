import RunLedger.Decimal.Digits
import RunLedger.Text.Characters
import RunLedger.Time.Calendar
import RunLedger.Time.Instant

/-!
Instants as text in the form of RFC 3339. Written in UTC, with the fewest of 0, 3, 6 or 9 digits of
a second that are exact, and with a sign for years outside four digits. Reading is more liberal: a
space or a lower-case `t` may stand between date and time, fields may be short or have blanks
before them, and any offset below a day is taken off.
-/

set_option autoImplicit false

namespace RunLedger.Time

open RunLedger.Text (trimStart)

private def yearText (y : Int) : List Char :=
  if 0 ≤ y ∧ y ≤ 9999 then Decimal.ofNatPadded 4 y.natAbs
  else (if y < 0 then '-' else '+') :: Decimal.ofNatPadded 4 y.natAbs

private def fractionText (nanos : Nat) : List Char :=
  if nanos = 0 then []
  else if nanos % 1000000 = 0 then '.' :: Decimal.ofNatPadded 3 (nanos / 1000000)
  else if nanos % 1000 = 0 then '.' :: Decimal.ofNatPadded 6 (nanos / 1000)
  else '.' :: Decimal.ofNatPadded 9 nanos

def Instant.toString (t : Instant) : String :=
  let date := Date.ofDays (t.seconds / 86400)
  let clock := (t.seconds % 86400).toNat
  let secondOfMinute := clock % 60 + t.nanos / second
  let two := Decimal.ofNatPadded 2
  String.ofList <|
    yearText date.year ++ '-' :: two date.month ++ '-' :: two date.day ++
    'T' :: two (clock / 3600) ++ ':' :: two (clock / 60 % 60) ++ ':' :: two secondOfMinute ++
    fractionText (t.nanos % second) ++ ['Z']

/-- Reads up to `width` digits, at least one. -/
private def digits? (width : Nat) (cs : List Char) : Option (Nat × List Char) :=
  let digits := (cs.take width).takeWhile Decimal.isDigit
  if digits.isEmpty then none else some (Decimal.value digits, cs.drop digits.length)

private def pair? (cs : List Char) : Option (Nat × List Char) := digits? 2 (trimStart cs)

/-- Reads a year: four digits at most, or a sign and any number of digits. -/
private def year? (cs : List Char) : Option (Int × List Char) :=
  match trimStart cs with
  | '-' :: r => (digits? r.length r).map fun (n, r) => (-(n : Int), r)
  | '+' :: r => (digits? r.length r).map fun (n, r) => ((n : Int), r)
  | r => (digits? 4 r).map fun (n, r) => ((n : Int), r)

private def mark? (c : Char) (cs : List Char) : Option (List Char) :=
  match trimStart cs with
  | d :: r => if d = c then some r else none
  | [] => none

/-- Reads the fraction of a second in nanoseconds. Digits after the ninth are passed over. -/
private def fraction? : List Char → Option (Nat × List Char)
  | '.' :: r =>
    let digits := r.takeWhile Decimal.isDigit
    if digits.isEmpty then none
    else some (Decimal.value ((digits ++ List.replicate 9 '0').take 9), r.drop digits.length)
  | r => some (0, r)

/-- Reads hours and minutes of an offset, with colons or blanks between them, as seconds. -/
private def offsetSize? : List Char → Option (Nat × List Char)
  | h₁ :: h₂ :: r =>
    match r.dropWhile fun c => c = ':' || Text.isBlank c with
    | m₁ :: m₂ :: rest =>
      match [h₁, h₂, m₁, m₂].mapM Decimal.digitValue? with
      | some [h₁, h₂, m₁, m₂] =>
        let seconds := (10 * h₁ + h₂) * 3600 + (10 * m₁ + m₂) * 60
        if m₁ < 6 ∧ seconds < 86400 then some (seconds, rest) else none
      | _ => none
    | _ => none
  | _ => none

private def offset? (cs : List Char) : Option (Int × List Char) :=
  if (cs.take 3).map Char.toUpper = ['U', 'T', 'C'] then some (0, cs.drop 3)
  else
    match cs with
    | 'Z' :: r => some (0, r)
    | 'z' :: r => some (0, r)
    | '+' :: r => (offsetSize? r).map fun (n, r) => ((n : Int), r)
    | '-' :: r => (offsetSize? r).map fun (n, r) => (-(n : Int), r)
    | '\u2212' :: r => (offsetSize? r).map fun (n, r) => (-(n : Int), r)
    | _ => none

private def separator? : List Char → Option (List Char)
  | c :: r => if c = 'T' ∨ c = 't' ∨ c = ' ' then some r else none
  | [] => none

def Instant.parse? (s : String) : Option Instant := do
  let (year, r) ← year? s.toList
  let (month, r) ← pair? (← mark? '-' r)
  let (day, r) ← pair? (← mark? '-' r)
  let (hour, r) ← pair? (← separator? r)
  let (minute, r) ← pair? (← mark? ':' r)
  let (sec, r) ← pair? (← mark? ':' r)
  let (nanos, r) ← fraction? r
  let (offset, r) ← offset? (trimStart r)
  let date : Date := ⟨year, month, day⟩
  guard ((trimStart r).isEmpty && date.isValid && hour < 24 && minute < 60 && sec ≤ 60)
  let clock := hour * 3600 + minute * 60 + min sec 59
  let local_ ← Instant.ofSeconds? (date.toDays * 86400 + clock)
    (if sec = 60 then nanos + second else nanos)
  Instant.ofSeconds? (local_.seconds - offset) local_.nanos

end RunLedger.Time
