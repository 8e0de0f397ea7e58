/-!
Points in time, to the nanosecond, counted from the beginning of 1970 in UTC. The range is that of
the years -262143 to 262142. A leap second is the second after `:59` of a minute and is kept as such
a second with a thousand million nanoseconds more. Main statements: milliseconds are rounded down,
and the instants of whole milliseconds are kept by that.
-/

set_option autoImplicit false

namespace RunLedger.Time

/-- The first second of the year -262143. -/
def firstSecond : Int := -8334601228800

/-- The last second of the year 262142. -/
def lastSecond : Int := 8210266876799

def second : Nat := 1000000000

/-- The seconds and nanoseconds of an instant are in range, and only the last second of a minute may
be followed by a leap second. -/
def InRange (seconds : Int) (nanos : Nat) : Prop :=
  firstSecond ≤ seconds ∧ seconds ≤ lastSecond ∧ nanos < 2 * second ∧
    (second ≤ nanos → seconds % 60 = 59)

instance (seconds : Int) (nanos : Nat) : Decidable (InRange seconds nanos) :=
  inferInstanceAs (Decidable (_ ∧ _))

structure Instant where
  seconds : Int
  nanos : Nat
  inRange : InRange seconds nanos
  deriving DecidableEq

namespace Instant

/-- The instant of a second and nanoseconds, when there is one. -/
def ofSeconds? (seconds : Int) (nanos : Nat) : Option Instant :=
  if h : InRange seconds nanos then some ⟨seconds, nanos, h⟩ else none

/-- Whether an instant lies in a leap second. -/
def isLeap (t : Instant) : Bool := second ≤ t.nanos

/-- Milliseconds, rounded down; a leap second counts as the second after it. -/
def toMillis (t : Instant) : Int := t.seconds * 1000 + (t.nanos / 1000000 : Nat)

/-- The instant of a number of milliseconds, when it is in range. -/
def ofMillis? (ms : Int) : Option Instant :=
  ofSeconds? (ms / 1000) ((ms % 1000).toNat * 1000000)

/-- The instant of a number of nanoseconds, when it is in range. -/
def ofNanos? (ns : Int) : Option Instant :=
  ofSeconds? (ns / 1000000000) (ns % 1000000000).toNat

def epoch : Instant := ⟨0, 0, by decide⟩

instance : Inhabited Instant := ⟨epoch⟩

def floorMillis (t : Instant) : Instant :=
  (ofMillis? t.toMillis).getD t

private theorem inRange_of_toMillis {t : Instant} (h : t.nanos < second) :
    InRange (t.toMillis / 1000) ((t.toMillis % 1000).toNat * 1000000) := by
  have hr := t.inRange
  simp only [InRange, toMillis, second, firstSecond, lastSecond] at h hr ⊢
  omega

/-- Outside a leap second an instant in milliseconds is an instant again. -/
theorem ofMillis?_toMillis {t : Instant} (h : t.nanos < second) :
    ofMillis? t.toMillis = some t.floorMillis := by
  simp [ofMillis?, ofSeconds?, inRange_of_toMillis h, floorMillis]

end Instant

end RunLedger.Time
