import Mathlib.Data.Int.GCD

/-!
Contract: the `LinearRandomEngine` of `cinn::utils`, as functions on the value of the state
cell the engine is bound to.

`StateType` is `int64_t` and is modelled by `Int`; C++'s `%` on it truncates toward zero, so it
is `Int.tmod`. `result_type` is `uint64_t`: a state returned through it is taken modulo `2^64`
(`toResultType`). The entropy source behind `GetDeviceRandomValue` is an argument of type
`UInt32`, the type `std::random_device` returns. A `CHECK` that fails is an `Except.error`
carrying the message the source logs.

Owns: the constants; `Next`, `operator()`, `GetDeviceRandomValue`, `NormalizeState`,
`InitState`, `ForkState` and `ForkRandomState`; the legal cells `[1, modulus - 1]` as the
subtype `RandomState`; that every admissible call keeps a legal cell legal, over whole runs,
with no overflow in the two products; which seeds `NormalizeState` accepts, and that it is
idempotent; the range of a forked child, and that `InitState` on it always binds a legal cell; the
legal parent whose fork is the absorbing state `0`.

Does not own: the period of `Next` (`RandomEnginePeriod`), and `SampleUniformInt` and
`SampleUniformDouble`, which the source only declares.
-/

set_option autoImplicit false

namespace CinnAutoSchedule.Utils.LinearRandomEngine

/-! ## The engine -/

/-- The multiplier. -/
def multiplier : Int := 48271

/-- The increment. -/
def increment : Int := 0

/-- The modulus. -/
def modulus : Int := 2147483647

/-- `min()`: the least value the engine declares it returns. -/
protected def min : Nat := 0

/-- `max()`: `modulus - 1`, returned as `result_type`. -/
protected def max : Nat := (modulus - 1).toNat

/-- A `StateType` value returned as `result_type` (`uint64_t`). -/
def toResultType (value : Int) : Nat := (value % 2 ^ 64).toNat

/-- `Next`: the new value of the cell, `(increment + state * multiplier) % modulus`. -/
def next (state : Int) : Int := (increment + state * multiplier).tmod modulus

/-- `operator()`: the value `Next` returns, as `result_type`. The cell becomes `next state`. -/
def call (state : Int) : Nat := toResultType (next state)

/-- `GetDeviceRandomValue`: one draw of `std::random_device` reduced modulo `modulus`. -/
def getDeviceRandomValue (device : UInt32) : Int := (device.toNat : Int).tmod modulus

/-- `NormalizeState`: `-1` asks for a device value, any other seed is reduced modulo `modulus`,
`0` becomes `1`, and a negative result fails the `CHECK_GE`. -/
def normalizeState (device : UInt32) (state : Int) : Except String Int :=
  let state := if state = -1 then getDeviceRandomValue device else state.tmod modulus
  let state := if state = 0 then 1 else state
  if 0 ≤ state then .ok state else .error "Random seed must be greater than 0"

/-- `InitState`: the cell after `*state_ = NormalizeState(state)`. -/
def initState (device : UInt32) (state : Int) : Except String Int :=
  normalizeState device state

/-- `ForkState`: the cell after one `Next`, and the child `(Next() * 32767) % 1999999973`
computed in `uint64_t`. -/
def forkState (state : Int) : Int × Int :=
  (next state, ((toResultType (next state) * 32767 % 2 ^ 64 % 1999999973 : Nat) : Int))

/-- The parent's cell after a fork is its `Next`. -/
@[simp] theorem forkState_fst (state : Int) : (forkState state).1 = next state := rfl

/-- `ForkRandomState`: `ForkState` of an engine bound to `rand_seed`. -/
def forkRandomState (randSeed : Int) : Int × Int := forkState randSeed

/-! ## Runs of calls -/

/-- A call a caller makes on an engine bound to the cell. -/
inductive EngineCall where
  | call
  | forkState
  | forkRandomState
  | initState (seed : Int) (device : UInt32)
deriving DecidableEq, Repr

/-- The cell after the call, or the failed `CHECK`. -/
def EngineCall.exec : EngineCall → Int → Except String Int
  | .call, cell => .ok (next cell)
  | .forkState, cell => .ok (LinearRandomEngine.forkState cell).1
  | .forkRandomState, cell => .ok (LinearRandomEngine.forkRandomState cell).1
  | .initState seed device, _ => LinearRandomEngine.initState device seed

/-- `InitState` with a seed that `NormalizeState` accepts; the other calls always. -/
def EngineCall.Admissible : EngineCall → Prop
  | .initState seed device => (normalizeState device seed).toBool = true
  | _ => True

instance (engineCall : EngineCall) : Decidable engineCall.Admissible :=
  match engineCall with
  | .initState seed device => inferInstanceAs (Decidable ((normalizeState device seed).toBool = true))
  | .call => isTrue trivial
  | .forkState => isTrue trivial
  | .forkRandomState => isTrue trivial

/-- The cell after a sequence of calls, or the first failed `CHECK`. -/
def runCalls : List EngineCall → Int → Except String Int
  | [], cell => .ok cell
  | engineCall :: rest, cell => (engineCall.exec cell).bind (runCalls rest)

/-! ## Legal cells -/

/-- A legal cell: `[1, modulus - 1]`. -/
def Legal (cell : Int) : Prop := 1 ≤ cell ∧ cell ≤ modulus - 1

instance (cell : Int) : Decidable (Legal cell) :=
  inferInstanceAs (Decidable (1 ≤ cell ∧ cell ≤ modulus - 1))

/-- The data model's `RandomState`: a seed in `[1, modulus - 1]`. -/
def RandomState := { cell : Int // Legal cell }

/-- `Next` on a nonnegative cell is the Euclidean remainder of `state * 48271`. -/
theorem next_eq_emod {state : Int} (nonnegative : 0 ≤ state) :
    next state = state * 48271 % 2147483647 := by
  unfold next increment multiplier modulus
  rw [Int.zero_add, Int.tmod_eq_emod (by omega) (by decide)]

/-- `0` is absorbing: from it `Next` returns `0` forever. -/
theorem next_zero : next 0 = 0 := by decide

/-- A legal cell stays legal under `Next`: the modulus is coprime to the multiplier, so the
product of a cell in `(0, modulus)` is never a multiple of it. -/
theorem next_legal {state : Int} (legal : Legal state) : Legal (next state) := by
  obtain ⟨low, high⟩ := legal
  have positive : 0 < state := low
  have belowModulus : state < 2147483647 := by unfold modulus at high; omega
  rw [next_eq_emod (Int.le_of_lt positive)]
  have notDivisible : ¬ (2147483647 : Int) ∣ state * 48271 := fun divisible =>
    Int.not_le.mpr belowModulus <| Int.le_of_dvd positive <|
      Int.dvd_of_dvd_mul_right_of_gcd_one (Int.mul_comm state 48271 ▸ divisible) (by decide)
  have nonzero : state * 48271 % 2147483647 ≠ 0 := fun zero => notDivisible (Int.dvd_of_emod_eq_zero zero)
  have nonnegative := Int.emod_nonneg (state * 48271) (b := 2147483647) (by decide)
  have below := Int.emod_lt_of_pos (state * 48271) (b := 2147483647) (by decide)
  generalize state * 48271 % 2147483647 = remainder at nonzero nonnegative below ⊢
  unfold Legal modulus
  omega

/-- `toResultType` leaves a legal cell unchanged. -/
theorem toResultType_of_legal {cell : Int} (legal : Legal cell) : (toResultType cell : Int) = cell := by
  obtain ⟨low, high⟩ := legal
  unfold modulus at high
  unfold toResultType
  rw [Int.emod_eq_of_lt (by omega) (by omega), Int.toNat_of_nonneg (by omega)]

/-- Every successful `NormalizeState` is a legal cell. -/
theorem normalizeState_legal {device : UInt32} {seed state : Int}
    (accepted : normalizeState device seed = .ok state) : Legal state := by
  dsimp only [normalizeState] at accepted
  generalize reducedEq : (if seed = -1 then getDeviceRandomValue device else seed.tmod modulus) = reduced
    at accepted
  have below : reduced < modulus := by
    rw [← reducedEq]
    split <;> exact Int.tmod_lt_of_pos _ (by decide)
  by_cases nonnegative : 0 ≤ (if reduced = 0 then 1 else reduced)
  · rw [if_pos nonnegative] at accepted
    cases accepted
    unfold Legal
    by_cases zero : reduced = 0
    · rw [if_pos zero]
      decide
    · rw [if_neg zero] at nonnegative ⊢
      omega
  · rw [if_neg nonnegative] at accepted
    cases accepted

/-! ## The invariant over runs -/

/-- What a legal cell guarantees to the next call: `Next`'s `int64_t` product and `ForkState`'s
`uint64_t` product fit, and `operator()` returns a value in `[1, max()]`. -/
structure CallBounds (cell : Int) : Prop where
  nextProduct : 0 ≤ increment + cell * multiplier ∧ increment + cell * multiplier < 2 ^ 63
  callRange : 1 ≤ call cell ∧ call cell ≤ LinearRandomEngine.max
  forkProduct : call cell * 32767 < 2 ^ 64

theorem callBounds_of_legal {cell : Int} (legal : Legal cell) : CallBounds cell := by
  have value := toResultType_of_legal (next_legal legal)
  obtain ⟨nextLow, nextHigh⟩ := next_legal legal
  obtain ⟨low, high⟩ := legal
  unfold modulus at high nextHigh
  have callLow : 1 ≤ call cell := by unfold call; omega
  have callHigh : call cell ≤ 2147483646 := by unfold call; omega
  refine ⟨⟨?_, ?_⟩, ⟨callLow, callHigh⟩, by omega⟩ <;> simp only [increment, multiplier] <;> omega

/-- One admissible call from a legal cell succeeds and leaves a legal cell. -/
theorem exec_legal {cell : Int} (legal : Legal cell) :
    ∀ {engineCall : EngineCall}, engineCall.Admissible →
      ∃ after, engineCall.exec cell = .ok after ∧ Legal after
  | .call, _ => ⟨_, rfl, next_legal legal⟩
  | .forkState, _ => ⟨_, rfl, next_legal legal⟩
  | .forkRandomState, _ => ⟨_, rfl, next_legal legal⟩
  | .initState seed device, admissible => by
      simp only [EngineCall.Admissible] at admissible
      simp only [EngineCall.exec, initState]
      cases accepted : normalizeState device seed with
      | error message => rw [accepted] at admissible; cases admissible
      | ok state => exact ⟨state, rfl, normalizeState_legal accepted⟩

/-- **Legal cells over whole runs.** From a legal cell, every prefix of a sequence of admissible
calls succeeds and leaves a legal cell, at which the next call stays within its bounds. -/
theorem runCalls_legal (calls : List EngineCall) (admissible : ∀ engineCall ∈ calls, engineCall.Admissible)
    (start : Int) (legal : Legal start) :
    ∀ done, done <+: calls → ∃ cell, runCalls done start = .ok cell ∧ Legal cell ∧ CallBounds cell := by
  induction calls generalizing start with
  | nil =>
      intro done prefixOf
      rw [List.prefix_nil.mp prefixOf]
      exact ⟨start, rfl, legal, callBounds_of_legal legal⟩
  | cons first rest inductionHypothesis =>
      intro done prefixOf
      rcases List.prefix_cons_iff.mp prefixOf with empty | ⟨tail, rfl, tailPrefix⟩
      · subst empty
        exact ⟨start, rfl, legal, callBounds_of_legal legal⟩
      · obtain ⟨after, executed, afterLegal⟩ := exec_legal legal (admissible first (by simp))
        obtain ⟨cell, ran, cellLegal, bounds⟩ :=
          inductionHypothesis (fun engineCall member => admissible engineCall (by simp [member]))
            after afterLegal tail tailPrefix
        exact ⟨cell, by simp only [runCalls, executed, Except.bind, ran], cellLegal, bounds⟩

theorem runCalls_legal_from_one :
    (∀ engineCall ∈ [EngineCall.call, .forkState, .forkRandomState, .initState (-1) 0],
        engineCall.Admissible) ∧ Legal 1 ∧
      ∃ cell, runCalls [.call, .forkState] 1 = .ok cell ∧ Legal cell ∧ CallBounds cell :=
  ⟨by decide, by decide,
    runCalls_legal [.call, .forkState, .forkRandomState, .initState (-1) 0] (by decide) 1 (by decide)
      [.call, .forkState] ⟨[.forkRandomState, .initState (-1) 0], rfl⟩⟩

/-! ## Seeds `NormalizeState` accepts

C++'s `%` keeps the sign of the dividend, so a negative seed stays negative after the reduction
unless the modulus divides it, and then the `CHECK_GE` fails. -/

/-- The truncated remainder of a seed is nonnegative exactly for nonnegative seeds and multiples
of the modulus. -/
theorem tmod_modulus_nonneg_iff (seed : Int) :
    0 ≤ seed.tmod modulus ↔ 0 ≤ seed ∨ modulus ∣ seed := by
  cases seed with
  | ofNat n => simp only [Int.ofNat_eq_coe, Int.ofNat_nonneg, true_or, iff_true]; exact Int.tmod_nonneg _ (by omega)
  | negSucc m =>
      have remainder : (Int.negSucc m).tmod modulus = -(((m + 1) % 2147483647 : Nat) : Int) := rfl
      rw [remainder, Int.negSucc_eq, modulus, Int.dvd_neg, Int.dvd_iff_emod_eq_zero]
      omega

private theorem normalizeState_ok_iff (device : UInt32) (seed : Int) :
    (∃ state, normalizeState device seed = .ok state) ↔
      0 ≤ (if seed = -1 then getDeviceRandomValue device else seed.tmod modulus) := by
  dsimp only [normalizeState]
  generalize (if seed = -1 then getDeviceRandomValue device else seed.tmod modulus) = reduced
  by_cases zero : reduced = 0
  · subst zero
    simp
  · by_cases nonnegative : 0 ≤ reduced <;> simp [zero, nonnegative]

/-- **Accepted seeds.** `NormalizeState` passes its `CHECK_GE` and returns a legal cell exactly
for `-1` (whatever the device draws), nonnegative seeds and multiples of the modulus. -/
theorem normalizeState_accepts_iff (device : UInt32) (seed : Int) :
    (∃ state, normalizeState device seed = .ok state ∧ Legal state) ↔
      seed = -1 ∨ 0 ≤ seed ∨ modulus ∣ seed := by
  have legalWhenOk : (∃ state, normalizeState device seed = .ok state ∧ Legal state) ↔
      ∃ state, normalizeState device seed = .ok state :=
    ⟨fun ⟨state, ok, _⟩ => ⟨state, ok⟩, fun ⟨state, ok⟩ => ⟨state, ok, normalizeState_legal ok⟩⟩
  rw [legalWhenOk, normalizeState_ok_iff]
  by_cases unset : seed = -1
  · simp only [unset, if_true, true_or, iff_true]
    exact Int.tmod_nonneg _ (by omega)
  · rw [if_neg unset, tmod_modulus_nonneg_iff]
    simp [unset]

/-- **Normalising is idempotent.** A cell that `NormalizeState` returns comes back unchanged from
`NormalizeState` again, whatever the device draws: re-seeding an engine with its own state changes
nothing. -/
theorem normalizeState_idempotent {device : UInt32} {seed state : Int}
    (accepted : normalizeState device seed = .ok state) (again : UInt32) :
    normalizeState again state = .ok state := by
  obtain ⟨low, high⟩ := normalizeState_legal accepted
  unfold modulus at high
  have reduced : state.tmod modulus = state := by
    rw [Int.tmod_eq_emod (by omega) (by decide), Int.emod_eq_of_lt (by omega) (by unfold modulus; omega)]
  simp only [normalizeState, if_neg (show state ≠ -1 by omega), reduced, if_neg (show state ≠ 0 by omega),
    if_pos (show 0 ≤ state by omega)]

theorem normalizeState_idempotent_multiple :
    normalizeState 0 (-2147483647) = .ok 1 ∧ normalizeState 5 1 = .ok 1 :=
  ⟨rfl, normalizeState_idempotent (rfl : normalizeState 0 (-2147483647) = .ok 1) 5⟩

theorem normalizeState_minus_two :
    normalizeState 0 (-2) = .error "Random seed must be greater than 0" := rfl

/-! ## Forked children -/

/-- For a legal parent the `uint64_t` product does not wrap: the child is the parent's `Next`
times `32767`, reduced modulo `1999999973`. -/
theorem forkState_child_eq {state : Int} (legal : Legal state) :
    (forkState state).2 = next state * 32767 % 1999999973 := by
  have value := toResultType_of_legal (next_legal legal)
  have fits := (callBounds_of_legal legal).forkProduct
  unfold call at fits
  simp only [forkState]
  rw [Nat.mod_eq_of_lt fits]
  push_cast
  rw [value]

/-- A child never equals the parent's cell right after the fork: a child equal to a cell below
`1999999973` would make `1999999973`, which is prime to `32766`, divide `32766` times the cell. -/
theorem forkState_child_ne_cell {state : Int} (legal : Legal state) :
    (forkState state).2 ≠ (forkState state).1 := by
  rw [forkState_child_eq legal, forkState_fst]
  obtain ⟨low, high⟩ := next_legal legal
  generalize next state = cell at low high ⊢
  intro same
  have below : cell < 1999999973 := same ▸ Int.emod_lt_of_pos _ (by decide)
  have divides : (1999999973 : Int) ∣ 32766 * cell := by
    have := Int.dvd_sub_of_emod_eq same
    rwa [show cell * 32767 - cell = 32766 * cell by clear this same; omega] at this
  exact Int.not_le.mpr below (Int.le_of_dvd low (Int.dvd_of_dvd_mul_right_of_gcd_one divides (by decide)))

/-- For a legal parent the `uint64_t` product `Next() * 32767` does not wrap, the child lies in
`[0, 1999999973)`, and it is `0` exactly when the parent's `Next` is `1999999973`, which is prime
to `32767`. -/
theorem forkState_child_of_legal {state : Int} (legal : Legal state) :
    call state * 32767 < 2 ^ 64 ∧ 0 ≤ (forkState state).2 ∧ (forkState state).2 < 1999999973 ∧
      ((forkState state).2 = 0 ↔ next state = 1999999973) := by
  refine ⟨(callBounds_of_legal legal).forkProduct, ?_⟩
  rw [forkState_child_eq legal]
  obtain ⟨low, high⟩ := next_legal legal
  unfold modulus at high
  generalize next state = cell at low high ⊢
  refine ⟨Int.emod_nonneg _ (by decide), Int.emod_lt_of_pos _ (by decide), ⟨fun zero => ?_, fun atFork => ?_⟩⟩
  · obtain ⟨factor, rfl⟩ := Int.dvd_of_dvd_mul_left_of_gcd_one (Int.dvd_of_emod_eq_zero zero) (by decide)
    clear zero
    omega
  · subst atFork
    decide

theorem forkState_child_of_legal_from_one :
    Legal 1 ∧ call 1 * 32767 < 2 ^ 64 ∧ 0 ≤ (forkState 1).2 ∧ (forkState 1).2 < 1999999973 ∧
      ((forkState 1).2 = 0 ↔ next 1 = 1999999973) :=
  ⟨by decide, forkState_child_of_legal (by decide)⟩

/-- The legal parent `1305499371` forks the absorbing state `0`. -/
theorem forkState_absorbing_child :
    Legal 1305499371 ∧ forkState 1305499371 = (1999999973, 0) ∧ ¬ Legal 0 ∧ next 0 = 0 := by
  decide

/-- **Seeding an engine from a fork.** From every legal cell, `ForkState` leaves the parent's
cell legal, and `InitState` on the child passes its `CHECK_GE` and binds a legal cell, whatever the
device draws: the child is never `-1`, and the one child `0` becomes `1`. -/
theorem initState_forkState_child {state : Int} (legal : Legal state) (device : UInt32) :
    Legal (forkState state).1 ∧ ∃ cell, initState device (forkState state).2 = .ok cell ∧ Legal cell := by
  have nonnegative : 0 ≤ (forkState state).2 := by
    rw [forkState_child_eq legal]
    exact Int.emod_nonneg _ (by decide)
  obtain ⟨cell, accepted⟩ := (normalizeState_ok_iff device _).mpr (by
    rw [if_neg (show (forkState state).2 ≠ -1 by omega)]
    exact Int.tmod_nonneg _ nonnegative)
  exact ⟨next_legal legal, cell, accepted, normalizeState_legal accepted⟩

theorem initState_forkState_child_from_absorbing :
    Legal 1305499371 ∧ Legal (forkState 1305499371).1 ∧
      ∃ cell, initState 0 (forkState 1305499371).2 = .ok cell ∧ Legal cell :=
  ⟨by decide, initState_forkState_child (by decide) 0⟩

end CinnAutoSchedule.Utils.LinearRandomEngine
