import Mathlib.Algebra.Group.Int.Defs
import Mathlib.Algebra.Group.Nat.Defs
import SimKernel.Time.Duration

/-!
# Times as durations

A duration counts its seconds in 64 bits, and what does not fit is dropped without a word: a time that is not negative
becomes the duration of its whole nanoseconds modulo `2 ^ 64` seconds (`exists_toDuration`). So the conversion is right for
times below that many seconds and for no others, while every duration is read back from its time (`ofDuration_toDuration`).
-/

namespace SimKernel

namespace Duration

theorem totalNanos_lt (d : Duration) : d.totalNanos < 2 ^ 64 * 1_000_000_000 := by
  have hseconds := d.seconds.toNat_lt
  have hnanos := d.nanos_lt
  unfold totalNanos
  omega

theorem totalNanos_injective {a b : Duration} (h : a.totalNanos = b.totalNanos) : a = b := by
  obtain ⟨seconds, nanos, hnanos⟩ := a
  obtain ⟨seconds', nanos', hnanos'⟩ := b
  simp only [totalNanos] at h
  obtain rfl : nanos = nanos' := by omega
  obtain rfl : seconds = seconds' := UInt64.toNat_inj.1 (by omega)
  rfl

end Duration

namespace Time

/-- The femtoseconds after which the seconds of a duration begin again at zero. -/
def durationWrap : Int := 2 ^ 64 * TimeUnit.second.femtos

theorem femtos_ofDuration (d : Duration) : (ofDuration d).femtos = d.totalNanos * 1_000_000 := rfl

/-- The whole nanoseconds of a time that is not negative. -/
theorem truncateTo_nanosecond {t : Time} (h : 0 ≤ t.femtos) :
    (t.truncateTo .nanosecond).femtos = (t.femtos.toNat / 1_000_000 : Nat) * 1_000_000 := by
  have hunit : ((TimeUnit.nanosecond.femtos : Nat) : Int) = 1_000_000 := rfl
  simp only [truncateTo, hunit, Int.tdiv_eq_ediv_of_nonneg h]
  omega

theorem toDuration_of_neg {t : Time} (h : t.femtos < 0) : t.toDuration = .error (.negative t) :=
  if_pos (decide_eq_true h)

/-- The nanoseconds of the duration that a time becomes. -/
theorem exists_toDuration {t : Time} (h : 0 ≤ t.femtos) : ∃ d, t.toDuration = .ok d ∧
    d.totalNanos = t.femtos.toNat / 1_000_000 % (2 ^ 64 * 1_000_000_000) := by
  have hsign : ¬ t.isNegative = true := by simpa [isNegative] using h
  refine ⟨_, if_neg hsign, ?_⟩
  -- the seconds lose their high bits, the nanoseconds of the last one are kept
  simp only [Duration.totalNanos, UInt64.toNat_ofNat']
  omega

theorem toDuration_ofDuration (d : Duration) : (ofDuration d).toDuration = .ok d := by
  have hlt := d.totalNanos_lt
  have hnonneg : 0 ≤ (ofDuration d).femtos := by
    rw [femtos_ofDuration]
    omega
  obtain ⟨d', hd', hnanos⟩ := exists_toDuration hnonneg
  rw [femtos_ofDuration] at hnanos
  rw [hd', Duration.totalNanos_injective (a := d') (b := d) (by omega)]

/-- **Times become durations modulo `2 ^ 64` seconds.** A negative time has no duration. Every other time becomes one, and
what comes back from it are the whole nanoseconds of the time modulo `2 ^ 64` seconds; these are the whole nanoseconds of
the time exactly if it is shorter than that. The way from a duration to a time and back loses nothing and stays inside the
range. -/
theorem ofDuration_toDuration (t : Time) (d : Duration) :
    (t.femtos < 0 → t.toDuration = .error (.negative t)) ∧
    (0 ≤ t.femtos → ∃ d', t.toDuration = .ok d' ∧
      (ofDuration d').femtos = (t.truncateTo .nanosecond).femtos % durationWrap ∧
      (ofDuration d' = t.truncateTo .nanosecond ↔ t.femtos < durationWrap)) ∧
    d.totalNanos * TimeUnit.nanosecond.femtos ≤ greatest ∧ (ofDuration d).toDuration = .ok d := by
  have hwrap : durationWrap = 2 ^ 64 * 1_000_000_000 * 1_000_000 := rfl
  refine ⟨toDuration_of_neg, ?_, ?_, toDuration_ofDuration d⟩
  · intro h
    obtain ⟨d', hd', hnanos⟩ := exists_toDuration h
    have hback : (ofDuration d').femtos = (t.truncateTo .nanosecond).femtos % durationWrap := by
      rw [femtos_ofDuration, truncateTo_nanosecond h, hwrap, hnanos]
      omega
    refine ⟨d', hd', hback, ?_⟩
    rw [Time.ext_iff, hback, truncateTo_nanosecond h, hwrap]
    omega
  · have hlt := d.totalNanos_lt
    have hunit : TimeUnit.nanosecond.femtos = 1_000_000 := rfl
    rw [hunit, greatest]
    omega

/-- The first time that is too long becomes the duration of nothing. -/
theorem toDuration_of_durationWrap :
    let t : Time := ⟨18_446_744_073_709_551_616_000_000_000_000_000, by decide, by decide⟩
    let d : Duration := ⟨0, 0, by decide⟩
    0 ≤ t.femtos ∧ t.toDuration = .ok d ∧ ofDuration d ≠ t.truncateTo .nanosecond :=
  ⟨by decide, rfl, by decide⟩

end Time

end SimKernel
