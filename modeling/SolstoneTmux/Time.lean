import Mathlib.Data.Int.Basic
import Mathlib.Tactic.NormNum

/-!
# Instants, offsets and durations

The parts of the `time` crate that the capture store uses: a wall-clock instant is its Unix time in
nanoseconds within the years −9999 to 9999, a UTC offset is a number of seconds below 26 hours, and
a duration is a number of nanoseconds.
-/

namespace SolstoneTmux

/-- Nanoseconds in a second. -/
def nanosPerSecond : ℕ := 1000000000

/-- `u64::MAX`. -/
def u64Max : ℕ := 2 ^ 64 - 1

/-- `Duration::MAX`. -/
def durationMax : ℕ := u64Max * nanosPerSecond + 999999999

/-- `Duration::as_secs`. -/
def asSecs (duration : ℕ) : ℕ := duration / nanosPerSecond

theorem asSecs_le {duration : ℕ} (h : duration ≤ durationMax) : asSecs duration ≤ u64Max :=
  (Nat.div_le_div_right h).trans (by decide)

/-- The offsets that `UtcOffset::from_whole_seconds` accepts. -/
def validOffsetSeconds (seconds : ℤ) : Bool := -93599 ≤ seconds && seconds ≤ 93599

/-- The instants that `OffsetDateTime::from_unix_timestamp_nanos` accepts. -/
def validUnixNanos (nanos : ℤ) : Bool :=
  -377705116800 ≤ nanos / nanosPerSecond && nanos / nanosPerSecond ≤ 253402300799

/-- `UtcOffset`. -/
structure UtcOffset where
  wholeSeconds : ℤ
  valid : validOffsetSeconds wholeSeconds = true
  deriving DecidableEq

/-- `UtcOffset::UTC`. -/
def UtcOffset.utc : UtcOffset := ⟨0, rfl⟩

/-- `OffsetDateTime`, as the instant it denotes. -/
structure OffsetDateTime where
  unixTimestampNanos : ℤ
  valid : validUnixNanos unixTimestampNanos = true
  deriving DecidableEq

end SolstoneTmux
