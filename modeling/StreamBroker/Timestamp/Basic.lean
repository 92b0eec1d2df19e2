import StreamBroker.Duration.Basic

/-!
# Timestamps

A point in time as whole seconds since the beginning of 1970 in universal time and nanoseconds
within the second.  Within a leap second the nanoseconds run on from one billion to two.

## Main definitions

* `Timestamp`: a point in time.
* `Timestamp.micros`, `Timestamp.ofMicros`: the whole microseconds since the beginning of 1970.
* `Timestamp.firstMicros`, `Timestamp.lastMicros`: the range of points that a calendar date exists
  for.

## Main results

* `Timestamp.micros_ofMicros`: microseconds are kept exactly.
* `Timestamp.ofMicros_micros`: so is a timestamp of whole microseconds outside a leap second.
-/

namespace StreamBroker

/-- A point in time. -/
structure Timestamp where
  /-- Whole seconds since the beginning of 1970, negative before it. -/
  seconds : Int
  /-- Nanoseconds within the second, from one billion up within a leap second. -/
  nanos : Nat
  deriving DecidableEq, Repr, Inhabited

namespace Timestamp

/-- The whole microseconds since the beginning of 1970, rounded down. -/
def micros (t : Timestamp) : Int := t.seconds * 1000000 + (t.nanos / 1000 : Nat)

/-- The nanoseconds since the beginning of 1970. -/
def sinceEpoch (t : Timestamp) : Int := t.seconds * 1000000000 + t.nanos

/-- The point a number of microseconds after the beginning of 1970. -/
def ofMicros (n : Int) : Timestamp := ⟨n / 1000000, (n % 1000000).toNat * 1000⟩

/-- The point a number of nanoseconds after the beginning of 1970. -/
def ofNanos (n : Int) : Timestamp := ⟨n / 1000000000, (n % 1000000000).toNat⟩

/-- The timestamp without what is shorter than a microsecond. -/
def toMicro (t : Timestamp) : Timestamp := ofMicros t.micros

/-- The first microsecond of the calendar, in the year -262143. -/
def firstMicros : Int := -8334601228800000000

/-- The last microsecond of the calendar, in the year 262142. -/
def lastMicros : Int := 8210266876799999999

/-- Whether the calendar has a date for a number of microseconds. -/
def inCalendar (n : Int) : Bool := decide (firstMicros ≤ n) && decide (n ≤ lastMicros)

theorem micros_ofMicros (n : Int) : (ofMicros n).micros = n := by
  simp only [micros, ofMicros]
  omega

theorem ofMicros_micros {t : Timestamp} (hlt : t.nanos < 1000000000)
    (hwhole : t.nanos % 1000 = 0) : ofMicros t.micros = t := by
  obtain ⟨s, n⟩ := t
  simp only [micros, ofMicros, Timestamp.mk.injEq] at *
  omega

end Timestamp

end StreamBroker
