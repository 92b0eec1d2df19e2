import StreamBroker.Timestamp.Basic

/-!
# Clocks

A clock tells how long a broker has been running, and what the calendar says.  Waits are measured
on the first, which never goes back; messages carry the second.

## Main definitions

* `Instant`: nanoseconds since a broker began.
* `Clock`: an instant, with the time at which the broker began.
* `Clock.wall`: what the calendar says.
* `Instant.after`: the end of a wait.
-/

namespace StreamBroker

/-- Nanoseconds since a broker began. -/
abbrev Instant := Nat

namespace Instant

/-- The longest wait: thirty years. -/
def longestWait : Duration := Duration.ofSeconds (86400 * 365 * 30)

/-- The end of a wait.  A wait that is too long is cut off, so that every wait ends. -/
def after (now : Instant) (wait : Duration) : Instant := now + (wait.min longestWait).nanos

/-- The first whole millisecond that is not before an instant; timers go off on these. -/
def nextMilli (i : Instant) : Instant :=
  (i + (Duration.nanosPerMilli - 1)) / Duration.nanosPerMilli * Duration.nanosPerMilli

theorem le_nextMilli (i : Nat) : i ≤ nextMilli i := by
  have h : nextMilli i = (i + (1000000 - 1)) / 1000000 * 1000000 := rfl
  rw [h]
  omega

end Instant

/-- The time of a broker. -/
structure Clock where
  /-- When the broker began, in nanoseconds since the beginning of 1970. -/
  origin : Int
  /-- How long ago that is. -/
  elapsed : Instant
  deriving DecidableEq, Repr, Inhabited

namespace Clock

/-- What the calendar says. -/
def wall (c : Clock) : Timestamp := Timestamp.ofNanos (c.origin + c.elapsed)

/-- The whole milliseconds since the broker began. -/
def millis (c : Clock) : Nat := c.elapsed / Duration.nanosPerMilli

def atInstant (c : Clock) (i : Instant) : Clock := { c with elapsed := i }

end Clock

end StreamBroker
