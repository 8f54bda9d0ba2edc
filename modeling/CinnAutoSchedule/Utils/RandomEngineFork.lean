import CinnAutoSchedule.Utils.RandomEnginePeriod

/-!
Contract: the child seeds that consecutive `ForkState` calls on one engine hand out.

Both children are the parent's successive cells times `32767`, reduced modulo `1999999973`
(`forkState_child_eq`). Since `1999999973` is prime to `32767`, equal children put the two
cells `1999999973 * k` apart, and two legal cells lie less than `2 * 1999999973` apart, so
`k ∈ {-1, 0, 1}`. Read in `ZMod 2147483647`, one step of `next` moves a cell by `48270` times
the cell. `k = 0` would make that product zero. For `k = ±1` the product is `±1999999973`, and
cancelling `48270` leaves one cell for each sign; from either one the next step lands outside
`[1, modulus - 1]`.

Owns: that two consecutive forks from a legal cell hand out different children, each different
from the parent's cell right after the fork that produced it.

Does not own: the range of a child and its one absorbing value (`RandomEngine`).
-/

set_option autoImplicit false

namespace CinnAutoSchedule.Utils.LinearRandomEngine

/-- One step of `next` moves a cell by `48270` times the cell, modulo the modulus. -/
theorem next_sub_cast (state : Int) :
    ((next state - state : Int) : ZMod 2147483647) = (state : ZMod 2147483647) * 48270 := by
  push_cast
  rw [next_cast]
  ring

/-- Two consecutive forks from a legal cell hand out different children. -/
theorem forkState_consecutive_ne {state : Int} (legal : Legal state) :
    (forkState state).2 ≠ (forkState (forkState state).1).2 := by
  have firstLegal := next_legal legal
  have secondLegal := next_legal firstLegal
  rw [forkState_fst, forkState_child_eq legal, forkState_child_eq firstLegal]
  intro same
  obtain ⟨offset, moved⟩ : (1999999973 : Int) ∣ next (next state) - next state := by
    have := Int.ModEq.dvd same
    rw [← Int.sub_mul] at this
    exact Int.dvd_of_dvd_mul_left_of_gcd_one this (by decide)
  have stepCast := next_sub_cast (next state)
  rw [moved] at stepCast
  have nonzero : (48270 : ZMod 2147483647) ≠ 0 := by decide
  have pinned (candidate : Int) (candidateLegal : Legal candidate)
      (multiple : (candidate : ZMod 2147483647) * 48270 = ((1999999973 * offset : Int) : ZMod 2147483647)) :
      next state = candidate :=
    eq_of_cast_eq firstLegal candidateLegal (mul_right_cancel₀ nonzero (stepCast.symm.trans multiple.symm))
  clear same
  obtain ⟨firstLow, firstHigh⟩ := firstLegal
  obtain ⟨secondLow, secondHigh⟩ := secondLegal
  unfold modulus at firstHigh secondHigh
  generalize next (next state) = second at moved secondLow secondHigh
  rcases (by omega : offset = 0 ∨ offset = 1 ∨ offset = -1) with rfl | rfl | rfl
  · simp only [mul_zero, Int.cast_zero] at stepCast
    exact cast_ne_zero_of_legal (next_legal legal) ((mul_eq_zero.mp stepCast.symm).resolve_right nonzero)
  · have atCandidate := pinned 1635056381 (by decide) (by decide)
    omega
  · have atCandidate := pinned 512427266 (by decide) (by decide)
    omega

/-- **Forked children.** From every legal parent cell, two consecutive `ForkState` calls on the
same engine hand out different child seeds, and each child differs from the parent's cell right
after the fork that produced it. -/
theorem forkState_children_distinct {state : Int} (legal : Legal state) :
    (forkState state).2 ≠ (forkState (forkState state).1).2 ∧
      (forkState state).2 ≠ (forkState state).1 ∧
      (forkState (forkState state).1).2 ≠ (forkState (forkState state).1).1 :=
  ⟨forkState_consecutive_ne legal, forkState_child_ne_cell legal, forkState_child_ne_cell (next_legal legal)⟩

theorem forkState_children_distinct_from_one :
    Legal 1 ∧ (forkState 1).2 ≠ (forkState (forkState 1).1).2 ∧
      (forkState 1).2 ≠ (forkState 1).1 ∧
      (forkState (forkState 1).1).2 ≠ (forkState (forkState 1).1).1 :=
  ⟨by decide, forkState_children_distinct (by decide)⟩

end CinnAutoSchedule.Utils.LinearRandomEngine
