import RtspControl.Number.Binary64

/-!
# Durations

A span of time in seconds and nanoseconds, the seconds being a 64-bit number. Turning a
double precision number of seconds into a duration rounds its exact value to whole
nanoseconds, ties to even, and keeps to the longest duration where the result would
not fit.
-/

namespace RtspControl

def nanosPerSecond : Nat := 1000000000

structure Duration where
  seconds : UInt64
  nanos : Nat
  nanos_lt : nanos < nanosPerSecond := by decide
  deriving DecidableEq, Repr

namespace Duration

def zero : Duration := ⟨0, 0, by decide⟩

def longest : Duration := ⟨18446744073709551615, 999999999, by decide⟩

instance : Inhabited Duration := ⟨zero⟩

def toNanos (d : Duration) : Nat := d.seconds.toNat * nanosPerSecond + d.nanos

/-- The duration of so many nanoseconds, or the longest one. -/
def ofNanos (n : Nat) : Duration :=
  if n / nanosPerSecond < UInt64.size then
    ⟨UInt64.ofNat (n / nanosPerSecond), n % nanosPerSecond, Nat.mod_lt _ (by decide)⟩
  else longest

/-- The duration of so many seconds; zero where that is no positive number. -/
def ofSeconds (x : Binary64) : Duration :=
  match x.meaning with
  | .finite false units => ofNanos (Number.roundDiv (units * nanosPerSecond) Binary64.one)
  | .infinite false => longest
  | _ => zero

end Duration

end RtspControl
