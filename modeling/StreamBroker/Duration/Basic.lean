/-!
# Durations

A span of time in whole nanoseconds, never negative.  A duration holds whole seconds up to
`2 ^ 64 - 1` and the nanoseconds of one more second; `Duration.max` is the longest.

## Main definitions

* `Duration`: a span of time.
* `Duration.ofMillis`, `Duration.ofSeconds`: spans in coarser units.
* `Duration.max`: the longest span.
-/

namespace StreamBroker

/-- One more than the largest number of sixty-four bits. -/
def wordLimit : Nat := 18446744073709551616

/-- A span of time in nanoseconds. -/
structure Duration where
  nanos : Nat
  deriving DecidableEq, Repr, Inhabited

namespace Duration

def nanosPerSecond : Nat := 1000000000

def nanosPerMilli : Nat := 1000000

def zero : Duration := ⟨0⟩

/-- The longest span. -/
def max : Duration := ⟨wordLimit * nanosPerSecond - 1⟩

def ofSeconds (n : Nat) : Duration := ⟨n * nanosPerSecond⟩

def ofMillis (n : Nat) : Duration := ⟨n * nanosPerMilli⟩

def seconds (d : Duration) : Nat := d.nanos / nanosPerSecond

def subsecond (d : Duration) : Nat := d.nanos % nanosPerSecond

def millis (d : Duration) : Nat := d.nanos / nanosPerMilli

def min (a b : Duration) : Duration := if b.nanos < a.nanos then b else a

end Duration

end StreamBroker
