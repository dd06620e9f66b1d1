import RangePorter.UdpSession.Table

/-!
# Idle sessions and the two clocks

A cleanup tick compares whole seconds: those of the timeout, of its own clock reading
and of the last touch, each rounded down by itself. The time that has really passed is
a number of nanoseconds. `selects_cleanup_iff` says when the test of a tick holds,
`StaleEarly` at which phases of the clock it holds too soon.
-/

namespace RangePorter

namespace Duration

/-- The nanoseconds that `asSecs` drops. -/
def subsecNanos (d : Duration) : Nat := d % 1000000000

theorem asSecs_mul_add_subsecNanos (d : Nat) :
    asSecs d * 1000000000 + subsecNanos d = d := Nat.div_add_mod' d 1000000000

theorem subsecNanos_lt (d : Duration) : d.subsecNanos < 1000000000 :=
  Nat.mod_lt d (by decide)

/-- The difference of two readings in whole seconds is off by less than one second. -/
theorem asSecs_sub_asSecs (t n : Nat) :
    (asSecs n - asSecs t) * 1000000000 < n - t + 1000000000 ∧
      n - t < (asSecs n - asSecs t + 1) * 1000000000 := by
  have early := asSecs_mul_add_subsecNanos t
  have late := asSecs_mul_add_subsecNanos n
  have early_lt := subsecNanos_lt t
  have late_lt := subsecNanos_lt n
  omega

end Duration

/-- `unix_timestamp_now` when this much time has passed since the epoch. -/
def unixTimestampNow (sinceEpoch : Duration) : Nat := sinceEpoch.asSecs

namespace UdpSessionTable

variable {tab : UdpSessionTable} {s : UdpSession} {t n : Nat}

/-- What the test of a tick at time `n` asks of a session last touched at time `t`. -/
theorem selects_cleanup_iff (touched : s.lastActiveEpoch = unixTimestampNow t) :
    tab.selects (.cleanup (unixTimestampNow n)) s = true ↔
      max 1 tab.idleTimeout.asSecs ≤ Duration.asSecs n - Duration.asSecs t := by
  rw [selects, touched, decide_eq_true_iff, timeoutSeconds, unixTimestampNow, unixTimestampNow]

/-- The tick reads as many more seconds than the touch as the timeout has, or one more,
and the fractions that were dropped do not make up for the rest. -/
def StaleEarly (timeout t n : Duration) : Prop :=
  (1 ≤ timeout.asSecs ∧ n.asSecs = t.asSecs + timeout.asSecs ∧
    n.subsecNanos < t.subsecNanos + timeout.subsecNanos) ∨
  (n.asSecs = t.asSecs + timeout.asSecs + 1 ∧
    n.subsecNanos + 1000000000 < t.subsecNanos + timeout.subsecNanos)

instance (timeout t n : Duration) : Decidable (StaleEarly timeout t n) :=
  inferInstanceAs (Decidable (_ ∨ _))

/-- Whole seconds make up a timeout too soon exactly at these phases. -/
theorem staleEarly_iff (timeout t n : Nat) :
    (max 1 (Duration.asSecs timeout) ≤ Duration.asSecs n - Duration.asSecs t ∧ n - t < timeout) ↔
      StaleEarly timeout t n := by
  have timeout_eq := Duration.asSecs_mul_add_subsecNanos timeout
  have touch_eq := Duration.asSecs_mul_add_subsecNanos t
  have tick_eq := Duration.asSecs_mul_add_subsecNanos n
  have timeout_lt := Duration.subsecNanos_lt timeout
  have touch_lt := Duration.subsecNanos_lt t
  have tick_lt := Duration.subsecNanos_lt n
  rw [StaleEarly]
  omega

/-- A tick spares every session that has not been idle for the timeout, except at the
phases of the clock where the dropped fractions add up. -/
theorem evicted_after_timeout_iff (touched : s.lastActiveEpoch = unixTimestampNow t) :
    (tab.selects (.cleanup (unixTimestampNow n)) s = true → tab.idleTimeout ≤ n - t) ↔
      ¬ StaleEarly tab.idleTimeout t n := by
  rw [selects_cleanup_iff touched, ← staleEarly_iff, not_and, Nat.not_lt]

/-- A session that a tick selects is short of its timeout by less than one second and
the fraction that the timeout itself has. -/
theorem timeout_lt_of_selected (touched : s.lastActiveEpoch = unixTimestampNow t)
    (selected : tab.selects (.cleanup (unixTimestampNow n)) s = true) :
    tab.idleTimeout < n - t + Duration.fromSecs 1 + tab.idleTimeout.subsecNanos := by
  have seconds := (Nat.le_max_right ..).trans ((selects_cleanup_iff touched).mp selected)
  calc
    tab.idleTimeout = tab.idleTimeout.asSecs * 1000000000 + tab.idleTimeout.subsecNanos :=
      (Duration.asSecs_mul_add_subsecNanos _).symm
    _ ≤ (Duration.asSecs n - Duration.asSecs t) * 1000000000 + tab.idleTimeout.subsecNanos :=
      Nat.add_le_add_right (Nat.mul_le_mul_right _ seconds) _
    _ < n - t + Duration.fromSecs 1 + tab.idleTimeout.subsecNanos :=
      Nat.add_lt_add_right (Duration.asSecs_sub_asSecs t n).1 _

/-- A session that has been idle for the whole seconds of the timeout is selected. -/
theorem selected_of_idle (touched : s.lastActiveEpoch = unixTimestampNow t)
    (idle : Duration.fromSecs tab.timeoutSeconds ≤ n - t) :
    tab.selects (.cleanup (unixTimestampNow n)) s = true := by
  have short := Nat.lt_of_le_of_lt idle (Duration.asSecs_sub_asSecs t n).2
  have seconds := Nat.lt_of_mul_lt_mul_right short
  exact (selects_cleanup_iff touched).mpr (Nat.lt_succ_iff.mp seconds)

/-- A table with a timeout of one second. -/
def briefTable : UdpSessionTable := .new (.fromSecs 1) 9000 100

/-- A session created one nanosecond before the clock turns to second 101. -/
def turnSession : UdpSession := .new 1 (.v4 0x7f000001 4000) 0 (unixTimestampNow 100999999999)

/-- Idle for a nanosecond, selected for a second. -/
theorem turnSession_selected :
    ¬ (briefTable.selects (.cleanup (unixTimestampNow 101000000000)) turnSession = true →
      briefTable.idleTimeout ≤ 101000000000 - 100999999999) := by
  decide

/-- A tick that reads the clock at second 102 finds the same session idle for long enough. -/
theorem turnSession_after_timeout :
    (briefTable.selects (.cleanup (unixTimestampNow 102000000000)) turnSession = true →
        briefTable.idleTimeout ≤ 102000000000 - 100999999999) ↔
      ¬ StaleEarly briefTable.idleTimeout 100999999999 102000000000 :=
  evicted_after_timeout_iff rfl

end UdpSessionTable

end RangePorter
