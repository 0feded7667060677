import Mathlib.Algebra.Order.Ring.Int

/-!
# A clock of 64 bits

Times and durations in nanoseconds, as signed integers of 64 bits. A duration in seconds is
multiplied before it is added to a time, and both operations wrap around. The sum is what it
should be exactly when it fits (`after_eq_iff`).
-/

namespace SteadyClock

/-- A value in 64 bits, signed. -/
def wrap (value : Int) : Int := Int.bmod value (2 ^ 64)

/-- Nanoseconds in a second. -/
def second : Int := 10 ^ 9

/-- A duration in seconds as one in nanoseconds. -/
def ofSeconds (seconds : Int) : Int := wrap (seconds * second)

/-- The time that is this many seconds after `now`. -/
def after (now seconds : Int) : Int := wrap (now + ofSeconds seconds)

/-- The duration until the deadline. -/
def remaining (deadline now : Int) : Int := wrap (deadline - now)

/-- A duration cut down to whole seconds. -/
def wholeSeconds (duration : Int) : Int := Int.tdiv duration second

/-- A value that the clock can show. -/
def Shown (now : Int) : Prop := 0 ≤ now ∧ now < 2 ^ 63

section Wrap

variable {value other now seconds : Int}

theorem wrap_of_fits (hlow : -2 ^ 63 ≤ value) (hhigh : value < 2 ^ 63) : wrap value = value := by
  rw [wrap]
  exact Int.bmod_eq_of_le (by omega) (by omega)

theorem wrap_lt (value : Int) : wrap value < 2 ^ 63 := by
  have h := @Int.bmod_lt value (2 ^ 64) (by decide)
  rw [wrap]
  omega

/-- A sum that is too large comes out below zero. -/
theorem wrap_of_overflow (hlow : 2 ^ 63 ≤ value) (hhigh : value < 2 ^ 64 + 2 ^ 63) :
    wrap value = value - 2 ^ 64 := by
  have h : wrap value = wrap (value - 2 ^ 64) := by
    rw [wrap, wrap]
    exact (Int.sub_bmod_right value (2 ^ 64)).symm
  rw [h, wrap_of_fits (by omega) (by omega)]

theorem wrap_add_wrap : wrap (value + wrap other) = wrap (value + other) := by
  rw [wrap, wrap, wrap, Int.add_bmod_bmod]

theorem ofSeconds_wrap : ofSeconds (wrap value) = wrap (value * second) := by
  rw [ofSeconds, wrap, wrap, wrap, Int.bmod_mul_bmod]

/-- Only the last of the three conversions is left. -/
theorem after_wrap : after now (wrap value) = wrap (now + value * second) := by
  rw [after, ofSeconds_wrap, wrap_add_wrap]

end Wrap

/-! ## Deadlines -/

section Deadlines

variable {start now seconds duration : Int}

/-- The deadline is as far ahead as it should be exactly when it fits. -/
theorem after_eq_iff (hstart : Shown start) (hseconds : 0 < seconds) :
    after start (wrap seconds) = start + seconds * second ↔
      start + seconds * second < 2 ^ 63 := by
  obtain ⟨hlow, _⟩ := hstart
  rw [after_wrap]
  constructor
  · intro h
    rw [← h]
    exact wrap_lt _
  · intro h
    rw [second] at h ⊢
    exact wrap_of_fits (by omega) h

/-- The time that is left until a deadline that fits. -/
theorem remaining_eq (hnow : Shown now) (hlow : 0 ≤ start) (hhigh : start < 2 ^ 63) :
    remaining start now = start - now := by
  obtain ⟨hfirst, hlast⟩ := hnow
  rw [remaining, wrap_of_fits (by omega) (by omega)]

/-- Rounded up by one, whole seconds are longer than the duration. -/
theorem lt_wholeSeconds (hlow : 0 ≤ duration) (hhigh : duration + second < 2 ^ 63) :
    duration < wholeSeconds (wrap (duration + ofSeconds 1)) * second ∧
      1 ≤ wholeSeconds (wrap (duration + ofSeconds 1)) := by
  have hone : ofSeconds 1 = second := by decide
  rw [hone, wrap_of_fits (by rw [second] at *; omega) hhigh, wholeSeconds,
    Int.tdiv_eq_ediv_of_nonneg (by rw [second] at *; omega)]
  rw [second] at *
  omega

/-- Whole seconds below zero are rounded up. -/
theorem wholeSeconds_of_neg (duration : Int) (hneg : duration ≤ -second) :
    duration ≤ wholeSeconds duration * second ∧ wholeSeconds duration < 0 := by
  have hcut : wholeSeconds duration = -(-duration / second) := by
    rw [wholeSeconds, ← Int.neg_neg duration, Int.neg_tdiv, Int.neg_neg,
      Int.tdiv_eq_ediv_of_nonneg (by rw [second] at *; omega)]
  rw [hcut]
  rw [second] at *
  omega

end Deadlines

end SteadyClock
