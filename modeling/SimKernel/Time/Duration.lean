import SimKernel.Time.Text

/-!
# Durations

Spans of time without a sign, in seconds of 64 bits and nanoseconds. A duration is always a time. A time becomes a
duration by dropping its sign check and its sub-nanosecond part; seconds beyond 64 bits are taken modulo `2 ^ 64`.
-/

namespace SimKernel

/-- Seconds and the nanoseconds of a further one. -/
structure Duration where
  seconds : UInt64
  nanos : Nat
  nanos_lt : nanos < 1_000_000_000
deriving DecidableEq

namespace Duration

/-- The duration of so many seconds and nanoseconds, where whole seconds among the nanoseconds carry over. -/
def ofParts (seconds : UInt64) (nanos : Nat) : Except Fault Duration :=
  let total := seconds.toNat + nanos / 1_000_000_000
  if total < UInt64.size then .ok ⟨UInt64.ofNat total, nanos % 1_000_000_000, Nat.mod_lt _ (by decide)⟩
  else .error .durationOverflow

/-- The duration in nanoseconds. -/
def totalNanos (d : Duration) : Nat :=
  d.seconds.toNat * 1_000_000_000 + d.nanos

end Duration

namespace Time

/-- The duration as a time. -/
def ofDuration (d : Duration) : Time :=
  ⟨d.totalNanos * 1_000_000,
    by omega,
    by
      have h1 := d.seconds.toNat_lt
      have h2 := d.nanos_lt
      simp only [Duration.totalNanos]
      omega⟩

/-- The time as a duration, without what is finer than a nanosecond. -/
def toDuration (t : Time) : Except TimeError Duration :=
  if t.isNegative then .error (.negative t)
  else
    let nanos := t.femtos.toNat / 1_000_000
    .ok ⟨UInt64.ofNat (nanos / 1_000_000_000), nanos % 1_000_000_000, Nat.mod_lt _ (by decide)⟩

end Time

end SimKernel
