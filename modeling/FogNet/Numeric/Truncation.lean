import Mathlib.Algebra.Order.Floor.Ring
import Mathlib.Data.Rat.Floor
import Mathlib.Tactic.Linarith
import Mathlib.Tactic.NormNum

namespace Numeric

/-- Conversion of a number to an integer that drops the fraction, towards zero on both sides. -/
def truncate (q : ℚ) : ℤ := q.num.tdiv q.den

/-- What the conversion drops; it has the sign of the number. -/
def dropped (q : ℚ) : ℚ := q - truncate q

/-- How far the dropped fractions push two numbers apart, beyond their whole parts. -/
def widening (p q : ℚ) : ℚ := (truncate p - truncate q).sign * (dropped p - dropped q)

theorem truncate_of_nonneg {q : ℚ} (nonneg : 0 ≤ q) : truncate q = ⌊q⌋ := by
  rw [truncate, Rat.floor_def', Int.tdiv_eq_ediv_of_nonneg (Rat.num_nonneg.mpr nonneg)]

theorem truncate_neg (q : ℚ) : truncate (-q) = -truncate q := by
  simp [truncate, Int.neg_tdiv]

theorem truncate_of_nonpos {q : ℚ} (nonpos : q ≤ 0) : truncate q = ⌈q⌉ := by
  have mirrored := truncate_of_nonneg (q := -q) (by linarith)
  rw [truncate_neg, Int.floor_neg] at mirrored
  omega

theorem dropped_of_nonneg {q : ℚ} (nonneg : 0 ≤ q) : 0 ≤ dropped q ∧ dropped q < 1 := by
  have below := Int.floor_le q
  have above := Int.lt_floor_add_one q
  rw [dropped, truncate_of_nonneg nonneg]
  constructor <;> linarith

theorem dropped_of_nonpos {q : ℚ} (nonpos : q ≤ 0) : -1 < dropped q ∧ dropped q ≤ 0 := by
  have above := Int.le_ceil q
  have below := Int.ceil_lt_add_one q
  rw [dropped, truncate_of_nonpos nonpos]
  constructor <;> linarith

theorem dropped_bounds (q : ℚ) : -1 < dropped q ∧ dropped q < 1 := by
  rcases le_total 0 q with nonneg | nonpos
  · have := dropped_of_nonneg nonneg
    constructor <;> linarith
  · have := dropped_of_nonpos nonpos
    constructor <;> linarith

theorem truncate_mono {p q : ℚ} (below : p ≤ q) : truncate p ≤ truncate q := by
  rcases le_total 0 p with pNonneg | pNonpos
  · rw [truncate_of_nonneg pNonneg, truncate_of_nonneg (le_trans pNonneg below)]
    exact Int.floor_le_floor below
  · rw [truncate_of_nonpos pNonpos]
    rcases le_total 0 q with qNonneg | qNonpos
    · rw [truncate_of_nonneg qNonneg]
      exact le_trans (Int.ceil_le.mpr (by simpa using pNonpos)) (Int.floor_nonneg.mpr qNonneg)
    · rw [truncate_of_nonpos qNonpos]
      exact Int.ceil_le_ceil below

theorem truncate_add_natCast_le (q : ℚ) (n : ℕ) : truncate (q + n) ≤ truncate q + n := by
  rcases le_total 0 q with nonneg | nonpos
  · have wide : (0 : ℚ) ≤ q + n := by positivity
    rw [truncate_of_nonneg nonneg, truncate_of_nonneg wide, Int.floor_add_natCast]
  · rw [truncate_of_nonpos nonpos]
    rcases le_total 0 (q + n) with crossing | below
    · rw [truncate_of_nonneg crossing, Int.floor_add_natCast]
      exact Int.add_le_add_right (Int.floor_le_ceil q) _
    · rw [truncate_of_nonpos below, Int.ceil_add_natCast]

/-- Truncation never widens a distance past a whole number. -/
theorem truncate_close {p q : ℚ} {n : ℕ} (close : |p - q| ≤ n) : |truncate p - truncate q| ≤ n := by
  obtain ⟨lower, upper⟩ := abs_le.mp close
  have forward := truncate_mono (show p ≤ q + n by linarith)
  have backward := truncate_mono (show q ≤ p + n by linarith)
  have forwardStep := truncate_add_natCast_le q n
  have backwardStep := truncate_add_natCast_le p n
  rw [abs_le]
  constructor <;> omega

theorem sub_eq_truncate_sub (p q : ℚ) :
    p - q = ((truncate p - truncate q : ℤ) : ℚ) + (dropped p - dropped q) := by
  simp only [dropped]
  push_cast
  ring

/-- Truncation hides less than two units of a distance. -/
theorem close_of_truncate_close {p q : ℚ} {n : ℕ} (whole : |truncate p - truncate q| ≤ n) :
    |p - q| < n + 2 := by
  obtain ⟨lower, upper⟩ := abs_le.mp whole
  have below : (-(n : ℤ) : ℚ) ≤ ((truncate p - truncate q : ℤ) : ℚ) := by exact_mod_cast lower
  have above : ((truncate p - truncate q : ℤ) : ℚ) ≤ n := by exact_mod_cast upper
  obtain ⟨pBelow, pAbove⟩ := dropped_bounds p
  obtain ⟨qBelow, qAbove⟩ := dropped_bounds q
  rw [sub_eq_truncate_sub, abs_lt]
  push_cast at below above ⊢
  constructor <;> linarith

theorem widening_comm (p q : ℚ) : widening p q = widening q p := by
  rw [widening, widening, ← neg_sub (truncate q), Int.sign_neg]
  push_cast
  ring

theorem close_iff_of_truncate_lt {p q : ℚ} {n : ℕ} (below : truncate q < truncate p)
    (whole : truncate p - truncate q ≤ n + 2) :
    |p - q| ≤ n + 2 ↔ truncate p - truncate q ≤ n ∨
      (truncate p - truncate q = n + 1 ∧ widening p q ≤ 1) ∨
      (truncate p - truncate q = n + 2 ∧ widening p q ≤ 0) := by
  have pBounds := dropped_bounds p
  have qBounds := dropped_bounds q
  have positive : 0 < truncate p - truncate q := by omega
  rw [widening, Int.sign_eq_one_of_pos positive, sub_eq_truncate_sub, abs_le]
  generalize truncate p - truncate q = apart at *
  have atLeast : (1 : ℚ) ≤ apart := by exact_mod_cast positive
  obtain few | rfl | rfl : apart ≤ n ∨ apart = n + 1 ∨ apart = n + 2 := by omega
  · have atMost : (apart : ℚ) ≤ n := by exact_mod_cast few
    refine iff_of_true ⟨?_, ?_⟩ (Or.inl few) <;> linarith
  · push_cast at atLeast ⊢
    constructor
    · exact fun close => Or.inr (Or.inl ⟨rfl, by linarith⟩)
    · rintro (few | ⟨_, narrow⟩ | ⟨other, _⟩)
      · omega
      · constructor <;> linarith
      · omega
  · push_cast at atLeast ⊢
    constructor
    · exact fun close => Or.inr (Or.inr ⟨rfl, by linarith⟩)
    · rintro (few | ⟨other, _⟩ | ⟨_, narrow⟩)
      · omega
      · omega
      · constructor <;> linarith

/-- Numbers whose whole parts are close are close themselves unless the fractions push them apart. -/
theorem close_iff_of_truncate_close {p q : ℚ} {n : ℕ} (whole : |truncate p - truncate q| ≤ n + 2) :
    |p - q| ≤ n + 2 ↔ |truncate p - truncate q| ≤ n ∨
      (|truncate p - truncate q| = n + 1 ∧ widening p q ≤ 1) ∨
      (|truncate p - truncate q| = n + 2 ∧ widening p q ≤ 0) := by
  rcases lt_trichotomy (truncate q) (truncate p) with below | same | above
  · rw [abs_of_pos (sub_pos.mpr below)] at whole ⊢
    exact close_iff_of_truncate_lt below whole
  · have pBounds := dropped_bounds p
    have qBounds := dropped_bounds q
    rw [same, sub_self, abs_zero]
    refine iff_of_true ?_ (Or.inl (by positivity))
    rw [sub_eq_truncate_sub, same, sub_self, Int.cast_zero, zero_add, abs_le]
    constructor <;> linarith [Nat.cast_nonneg (α := ℚ) n]
  · rw [abs_sub_comm (truncate p)] at whole ⊢
    rw [abs_of_pos (sub_pos.mpr above)] at whole ⊢
    rw [abs_sub_comm p, widening_comm]
    exact close_iff_of_truncate_lt above whole

end Numeric
