import CinnAutoSchedule.Utils.RandomEngine
import Mathlib

/-!
Contract: the period of `LinearRandomEngine::Next` on legal cells.

`Next` multiplies the cell by `48271` modulo `2^31 - 1`. Read in `ZMod 2147483647`, `k` steps
multiply by `48271 ^ k`. Lucas's test with the witness `48271` proves the modulus prime, and the
same two facts (`48271 ^ (p - 1) = 1` and `48271 ^ ((p - 1) / q) ≠ 1` for every prime `q ∣ p - 1`)
give `48271` the multiplicative order `p - 1`: it is a primitive root. So every legal cell
returns to itself after exactly `2147483646` steps, and on the way it visits every legal cell.

Owns: the primality of `2147483647`, the order of `48271`, and the minimal period and the single
cycle of `next` on legal cells.
-/

set_option autoImplicit false

namespace CinnAutoSchedule.Utils.LinearRandomEngine

open Function

/-! ## The multiplier is a primitive root -/

/-- `2147483646 = 2 * 3^2 * 7 * 11 * 31 * 151 * 331`: its prime divisors. -/
private theorem prime_dvd_period {q : Nat} (prime : q.Prime) (divides : q ∣ 2147483646) :
    q = 2 ∨ q = 3 ∨ q = 7 ∨ q = 11 ∨ q = 31 ∨ q = 151 ∨ q = 331 := by
  have factored : (2147483646 : Nat) = 2 * 3 ^ 2 * 7 * 11 * 31 * 151 * 331 := by norm_num
  have equalOf (r : Nat) (primeR : r.Prime) : q ∣ r → q = r := (Nat.prime_dvd_prime_iff_eq prime primeR).mp
  rw [factored] at divides
  simp only [prime.dvd_mul] at divides
  rcases divides with ((((((two | three) | seven) | eleven) | thirtyOne) | oneFiftyOne) | threeThirtyOne)
  · exact .inl (equalOf 2 (by norm_num) two)
  · exact .inr (.inl (equalOf 3 (by norm_num) (prime.dvd_of_dvd_pow three)))
  · exact .inr (.inr (.inl (equalOf 7 (by norm_num) seven)))
  · exact .inr (.inr (.inr (.inl (equalOf 11 (by norm_num) eleven))))
  · exact .inr (.inr (.inr (.inr (.inl (equalOf 31 (by norm_num) thirtyOne)))))
  · exact .inr (.inr (.inr (.inr (.inr (.inl (equalOf 151 (by norm_num) oneFiftyOne))))))
  · exact .inr (.inr (.inr (.inr (.inr (.inr (equalOf 331 (by norm_num) threeThirtyOne))))))

private theorem multiplier_pow_period : (48271 : ZMod 2147483647) ^ 2147483646 = 1 := by
  reduce_mod_char

private theorem multiplier_pow_period_div {q : Nat} (prime : q.Prime) (divides : q ∣ 2147483647 - 1) :
    (48271 : ZMod 2147483647) ^ ((2147483647 - 1) / q) ≠ 1 := by
  rcases prime_dvd_period prime divides with rfl | rfl | rfl | rfl | rfl | rfl | rfl <;>
    (simp only [Nat.reduceSub, Nat.reduceDiv]; reduce_mod_char; decide)

/-- The modulus `2^31 - 1` is prime, by Lucas's test with the witness `48271`. -/
theorem modulus_prime : Nat.Prime 2147483647 :=
  lucas_primality 2147483647 48271 multiplier_pow_period fun _ => multiplier_pow_period_div

instance modulusPrimeFact : Fact (Nat.Prime 2147483647) := ⟨modulus_prime⟩

/-- `48271` has order `2147483646` modulo the modulus. -/
theorem orderOf_multiplier : orderOf (48271 : ZMod 2147483647) = 2147483646 :=
  orderOf_eq_of_pow_and_pow_div_prime (by norm_num) multiplier_pow_period
    fun _ => multiplier_pow_period_div

/-! ## `next` read modulo the modulus -/

/-- `next` multiplies by `48271` in `ZMod 2147483647`, for every cell. -/
theorem next_cast (state : Int) :
    ((next state : Int) : ZMod 2147483647) = (state : ZMod 2147483647) * 48271 := by
  have truncated := Int.tmod_add_tdiv (increment + state * multiplier) modulus
  have castBack := congrArg (fun value : Int => (value : ZMod 2147483647)) truncated
  simp only [Int.cast_add, Int.cast_mul, increment, multiplier, modulus, Int.cast_zero, zero_add] at castBack
  rw [show ((2147483647 : Int) : ZMod 2147483647) = 0 from by decide, zero_mul, add_zero] at castBack
  rw [next, increment, multiplier, modulus, zero_add, castBack]
  push_cast
  rfl

theorem iterate_next_cast (state : Int) (steps : Nat) :
    ((next^[steps] state : Int) : ZMod 2147483647) = (state : ZMod 2147483647) * 48271 ^ steps := by
  induction steps with
  | zero => simp
  | succ steps inductionHypothesis =>
      rw [iterate_succ_apply', next_cast, inductionHypothesis, pow_succ, mul_assoc]

theorem iterate_next_legal {state : Int} (legal : Legal state) (steps : Nat) : Legal (next^[steps] state) := by
  induction steps with
  | zero => exact legal
  | succ steps inductionHypothesis =>
      rw [iterate_succ_apply']
      exact next_legal inductionHypothesis

/-- Legal cells are determined by their residue. -/
theorem eq_of_cast_eq {first second : Int} (firstLegal : Legal first) (secondLegal : Legal second)
    (same : (first : ZMod 2147483647) = (second : ZMod 2147483647)) : first = second := by
  rw [ZMod.intCast_eq_intCast_iff'] at same
  obtain ⟨firstLow, firstHigh⟩ := firstLegal
  obtain ⟨secondLow, secondHigh⟩ := secondLegal
  unfold modulus at firstHigh secondHigh
  push_cast at same
  rwa [Int.emod_eq_of_lt (by omega) (by omega), Int.emod_eq_of_lt (by omega) (by omega)] at same

theorem cast_ne_zero_of_legal {state : Int} (legal : Legal state) : (state : ZMod 2147483647) ≠ 0 := by
  rw [Ne, ZMod.intCast_zmod_eq_zero_iff_dvd]
  intro divides
  obtain ⟨low, high⟩ := legal
  unfold modulus at high
  have := Int.le_of_dvd (by omega) divides
  push_cast at this
  omega

/-! ## The period -/

/-- `steps` steps from a legal cell come back to it exactly when `2147483646` divides `steps`. -/
theorem isPeriodicPt_next_iff {state : Int} (legal : Legal state) (steps : Nat) :
    IsPeriodicPt next steps state ↔ 2147483646 ∣ steps := by
  rw [← orderOf_multiplier, orderOf_dvd_iff_pow_eq_one]
  constructor
  · intro periodic
    have castEq := iterate_next_cast state steps
    rw [periodic.eq] at castEq
    exact (mul_right_eq_self₀.mp castEq.symm).resolve_right (cast_ne_zero_of_legal legal)
  · intro power
    apply eq_of_cast_eq (iterate_next_legal legal steps) legal
    rw [iterate_next_cast, power, mul_one]

theorem minimalPeriod_next {state : Int} (legal : Legal state) : minimalPeriod next state = 2147483646 :=
  Nat.dvd_antisymm ((isPeriodicPt_next_iff legal _).mpr dvd_rfl).minimalPeriod_dvd
    ((isPeriodicPt_next_iff legal _).mp (isPeriodicPt_minimalPeriod next state))

/-- The first `2147483646` iterates from a legal cell are distinct legal cells, so they are all
of them. -/
theorem exists_iterate_next_eq {state target : Int} (legal : Legal state) (targetLegal : Legal target) :
    ∃ steps < 2147483646, next^[steps] state = target := by
  classical
  have injective : Set.InjOn (fun steps => next^[steps] state) (Finset.range 2147483646 : Set Nat) := by
    intro first firstMember second secondMember
    have distinct := iterate_injOn_Iio_minimalPeriod (f := next) (x := state)
    rw [minimalPeriod_next legal] at distinct
    exact distinct (by simpa using firstMember) (by simpa using secondMember)
  have insideLegal : (Finset.range 2147483646).image (fun steps => next^[steps] state) ⊆
      Finset.Icc 1 2147483646 := by
    intro cell member
    obtain ⟨steps, _, rfl⟩ := Finset.mem_image.mp member
    exact Finset.mem_Icc.mpr (iterate_next_legal legal steps)
  have orbit := Finset.eq_of_subset_of_card_le insideLegal
    (by rw [Finset.card_image_of_injOn injective, Finset.card_range, Int.card_Icc]; rfl)
  obtain ⟨steps, inRange, reached⟩ :=
    Finset.mem_image.mp (orbit ▸ Finset.mem_Icc.mpr targetLegal : target ∈ _)
  exact ⟨steps, Finset.mem_range.mp inRange, reached⟩

/-- **The period of `Next`.** From every legal cell `next` comes back after exactly
`modulus - 1 = 2147483646` steps and not before, and it passes through every legal cell. -/
theorem next_single_cycle {state : Int} (legal : Legal state) :
    minimalPeriod next state = 2147483646 ∧
      ∀ target, Legal target → ∃ steps < 2147483646, next^[steps] state = target :=
  ⟨minimalPeriod_next legal, fun _ targetLegal => exists_iterate_next_eq legal targetLegal⟩

theorem next_single_cycle_from_one :
    Legal 1 ∧ minimalPeriod next 1 = 2147483646 ∧
      ∀ target, Legal target → ∃ steps < 2147483646, next^[steps] 1 = target :=
  ⟨by decide, next_single_cycle (by decide)⟩

end CinnAutoSchedule.Utils.LinearRandomEngine
