import RunLedger.Decimal.Digits
import RunLedger.Text.Hex
import RunLedger.Time.Calendar
import RunLedger.Toml.Tables
import RunLedger.Toml.Text

/-!
Numbers, dates and times of TOML. Integers have 64 bits with sign; a floating number that is too
large is refused. Days have to occur in the calendar.
-/

set_option autoImplicit false

namespace RunLedger.Toml

private def takeSign : List Char → Option Char × List Char
  | '+' :: r => (some '+', r)
  | '-' :: r => (some '-', r)
  | r => (none, r)

/-- Digits of a kind, with single underscores between them. -/
private def grouped? (isDigit : Char → Bool) : List Char → Option (List Char × List Char)
  | c :: '_' :: r =>
    if isDigit c then (grouped? isDigit r).map fun (ds, rest) => (c :: ds, rest) else none
  | c :: r =>
    if isDigit c then
      match grouped? isDigit r with
      | some (ds, rest) => some (c :: ds, rest)
      | none => if r.head?.any isDigit then none else some ([c], r)
    else none
  | [] => none

private def isHexDigit (c : Char) : Bool := (Text.Hex.value? c).isSome

private def isOctalDigit (c : Char) : Bool := '0' ≤ c && c ≤ '7'

private def isBinaryDigit (c : Char) : Bool := c = '0' || c = '1'

private def valueIn (base : Nat) (ds : List Char) : Nat :=
  ds.foldl (fun acc c => base * acc + (Text.Hex.value? c).getD 0) 0

/-- Whole digits of a decimal number: one digit, or more that do not begin with zero. -/
private def decimalDigits? : List Char → Option (List Char × List Char)
  | '0' :: r => some (['0'], r)
  | r => grouped? Decimal.isDigit r

private def integerOf? (i : Int) (rest : List Char) : Option (Value × List Char) :=
  if Decimal.inInt64 i then some (.integer i, rest) else none

/-- Reads an integer, in one of four bases. Only a decimal one has a sign. -/
def integer? : List Char → Option (Value × List Char)
  | '0' :: 'x' :: r => do
    let (ds, rest) ← grouped? isHexDigit r
    integerOf? (valueIn 16 ds) rest
  | '0' :: 'o' :: r => do
    let (ds, rest) ← grouped? isOctalDigit r
    integerOf? (valueIn 8 ds) rest
  | '0' :: 'b' :: r => do
    let (ds, rest) ← grouped? isBinaryDigit r
    integerOf? (valueIn 2 ds) rest
  | cs => do
    let (sign, r) := takeSign cs
    let (ds, rest) ← decimalDigits? r
    let n : Int := Decimal.value ds
    integerOf? (if sign = some '-' then -n else n) rest

/-- Whether digits before and after a point, times a power of ten, exceed every floating number. -/
private def isTooLarge (whole fraction : List Char) (exponent : Int) : Bool :=
  let digits := Decimal.value (whole ++ fraction)
  let scale := exponent - fraction.length
  let lead := ((Decimal.ofNat digits).length : Int) + scale
  if digits = 0 ∨ lead < 309 then false
  else if 309 < lead then true
  else 0x3FFFFFFFFFFFFF <<< 970 * Nat.pow 10 (-scale).toNat ≤ digits * Nat.pow 10 scale.toNat

private def fraction? : List Char → Option (Option (List Char) × List Char)
  | '.' :: r => (grouped? Decimal.isDigit r).map fun (ds, rest) => (some ds, rest)
  | r => some (none, r)

private def exponent? : List Char → Option (Option Int × List Char)
  | c :: r =>
    if c = 'e' ∨ c = 'E' then do
      let (sign, r) := takeSign r
      let (ds, rest) ← grouped? Decimal.isDigit r
      let n : Int := Decimal.value ds
      return (some (if sign = some '-' then -n else n), rest)
    else some (none, c :: r)
  | [] => some (none, [])

/-- Reads a floating number with a point or an exponent, or one of the words for infinity and no
number. -/
def float? (cs : List Char) : Option (Value × List Char) :=
  let (sign, r) := takeSign cs
  match after? ['i', 'n', 'f'] r, after? ['n', 'a', 'n'] r with
  | some rest, _ => some (.float, rest)
  | _, some rest => some (.float, rest)
  | none, none => do
    let (whole, r) ← decimalDigits? r
    let (fraction, r) ← fraction? r
    let (exponent, rest) ← exponent? r
    guard (fraction.isSome || exponent.isSome)
    let large := isTooLarge whole (fraction.getD []) (exponent.getD 0)
    if large && sign ≠ some '-' then none else some (.float, rest)

private def digits? (count : Nat) (cs : List Char) : Option (Nat × List Char) :=
  let ds := cs.take count
  if ds.length = count ∧ ds.all Decimal.isDigit then some (Decimal.value ds, cs.drop count)
  else none

private def numberIn? (low high : Nat) (cs : List Char) : Option (Nat × List Char) :=
  (digits? 2 cs).filter fun (n, _) => low ≤ n && n ≤ high

private def afterMark? (c : Char) : List Char → Option (List Char)
  | d :: r => if d = c then some r else none
  | [] => none

private def date? (cs : List Char) : Option (List Char) := do
  let (year, r) ← digits? 4 cs
  let (month, r) ← numberIn? 1 12 (← afterMark? '-' r)
  let (day, r) ← numberIn? 1 31 (← afterMark? '-' r)
  if (⟨year, month, day⟩ : Time.Date).isValid then some r else none

private def clock? (cs : List Char) : Option (List Char) := do
  let (_, r) ← numberIn? 0 23 cs
  let (_, r) ← numberIn? 0 59 (← afterMark? ':' r)
  let (_, r) ← numberIn? 0 60 (← afterMark? ':' r)
  match r with
  | '.' :: f => if f.head?.any Decimal.isDigit then some (f.dropWhile Decimal.isDigit) else none
  | _ => some r

private def offset? : List Char → Option (List Char)
  | c :: r =>
    if c = 'Z' ∨ c = 'z' then some r
    else if c = '+' ∨ c = '-' then do
      let (_, r) ← numberIn? 0 23 r
      let (_, r) ← numberIn? 0 59 (← afterMark? ':' r)
      some r
    else some (c :: r)
  | [] => some []

/-- Whether an hour stands here: two digits and a colon. -/
private def beginsClock (cs : List Char) : Bool :=
  match numberIn? 0 23 cs with
  | some (_, ':' :: _) => true
  | _ => false

def moment? (cs : List Char) : Option (Value × List Char) := do
  let rest ← match digits? 4 cs with
    | some (_, '-' :: _) =>
      let afterDate ← date? cs
      match afterDate with
      | c :: r =>
        if (c = 'T' || c = 't' || c = ' ') && beginsClock r then (clock? r).bind offset?
        else some afterDate
      | [] => some []
    | _ => if beginsClock cs then clock? cs else none
  return (.moment, rest)

def bool? (cs : List Char) : Option (Value × List Char) :=
  match after? ['t', 'r', 'u', 'e'] cs with
  | some rest => some (.bool true, rest)
  | none => (after? ['f', 'a', 'l', 's', 'e'] cs).map (.bool false, ·)

/-- Reads a value that is no text, array or table. -/
def scalar (cs : List Char) : Option (Value × List Char) :=
  moment? cs <|> float? cs <|> integer? cs <|> bool? cs

end RunLedger.Toml
