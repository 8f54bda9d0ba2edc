import CinnAutoSchedule.SearchSpace.PrunedSketch
import Mathlib.Algebra.BigOperators.Group.List

/-!
Contract: `SearchSpace::GetInitialSketch`, the entry point that calls a pruned-sketch strategy
until `num` states are collected.

The `while (result.size() < num)` has no bound of its own, so the model runs it on `fuel` rounds
and answers `none` when the rounds run out before the loop exits. Each round calls the strategy
afresh; a `random_prune` round consumes its own `PrunedDraws`. The strategy's sketches are
pushed in reverse order until `num` states are collected. `LOG(FATAL)` and a failed `CHECK` are
`Except.error` with the logged message. `num` is a `Nat`: a negative `int num` would be converted
to a huge `size_t` by `result.size() < num`, a case the model leaves out.

Owns: the model; which errors it raises and when; that every vector it returns holds exactly
`num` states; that the loop collects
them within `num` rounds when every strategy call yields a state; that a strategy call that yields none makes it run forever; and,
under `ExpandsEverywhere`, that both strategies return: `rule_prune` the rule-pruned sketch
reversed, repeated and cut at `num`, and `random_prune` `num` states whenever every round's block
sampler starts with a named block, its samplers being finite.
-/

set_option autoImplicit false

namespace CinnAutoSchedule.AutoSchedule

namespace SearchSpace

variable {Schedule Rule : Type} (space : SearchSpace Schedule Rule)

/-- The inner `for` over the sketches, reversed: push each, and stop once `num` are collected. -/
def pushUntil (num : Nat) :
    List (SearchState Schedule Rule) → List (SearchState Schedule Rule) → List (SearchState Schedule Rule)
  | result, [] => result
  | result, sketch :: rest =>
      if (result ++ [sketch]).length = num then result ++ [sketch] else pushUntil num (result ++ [sketch]) rest

/-- The strategy call of one round. -/
def initialSketchCall (strategy : String) (randomDraws : PrunedDraws Rule) :
    Except String (List (SearchState Schedule Rule)) :=
  if strategy = "rule_prune" then space.getRulePrunedInitialSketch
  else if strategy = "random_prune" then space.getRandomPrunedInitialSketch randomDraws
  else .error "Unimplemented init sketch strategy"

/-- The `while` of `GetInitialSketch`, given `fuel` rounds. -/
def initialSketchLoop (num : Nat) (strategy : String) :
    Nat → List (SearchState Schedule Rule) → Stream' (PrunedDraws Rule) →
      Option (Except String (List (SearchState Schedule Rule)))
  | 0, result, _ => if result.length < num then none else some (.ok result)
  | fuel + 1, result, randomDraws =>
      if result.length < num then
        match space.initialSketchCall strategy randomDraws.head with
        | .error message => some (.error message)
        | .ok sketchs => initialSketchLoop num strategy fuel (pushUntil num result sketchs.reverse) randomDraws.tail
      else some (.ok result)

/-- `GetInitialSketch(num, strategy)` run for at most `fuel` rounds. -/
def getInitialSketch (fuel num : Nat) (strategy : String) (randomDraws : Stream' (PrunedDraws Rule)) :
    Option (Except String (List (SearchState Schedule Rule))) :=
  space.initialSketchLoop num strategy fuel [] randomDraws

/-! ## Progress and its absence -/

/-- Pushing stops at `num` states, or when the sketches run out. -/
theorem pushUntil_length (num : Nat) :
    ∀ (result sketches : List (SearchState Schedule Rule)), result.length < num →
      (pushUntil num result sketches).length = min num (result.length + sketches.length)
  | result, [], below => by simp [pushUntil]; omega
  | result, sketch :: rest, below => by
      have pushed : (result ++ [sketch]).length = result.length + 1 := by simp
      by_cases full : result.length + 1 = num
      · simp only [pushUntil, pushed, if_pos full, List.length_cons]
        omega
      · simp only [pushUntil, pushed, if_neg full, List.length_cons]
        rw [pushUntil_length num _ rest (by omega), pushed]
        omega

/-- When every strategy call along the draws yields at least one state, `num - |result|` rounds
collect exactly `num` states. -/
theorem initialSketchLoop_collects_along (num : Nat) (strategy : String) :
    ∀ (fuel : Nat) (result : List (SearchState Schedule Rule)) (randomDraws : Stream' (PrunedDraws Rule)),
      (∀ round, ∃ sketches, space.initialSketchCall strategy (randomDraws.get round) = .ok sketches ∧
        sketches ≠ []) →
      result.length ≤ num → num - result.length ≤ fuel →
        ∃ collected, space.initialSketchLoop num strategy fuel result randomDraws = some (.ok collected) ∧
          collected.length = num
  | 0, result, _, _, atMost, enough => ⟨result, by simp [initialSketchLoop]; omega, by omega⟩
  | fuel + 1, result, randomDraws, productive, atMost, enough => by
      by_cases below : result.length < num
      · obtain ⟨sketches, call, nonempty⟩ := productive 0
        have grown := pushUntil_length num result sketches.reverse below
        have yielded : 0 < sketches.reverse.length := by
          simpa [List.length_pos] using nonempty
        simp only [initialSketchLoop, if_pos below]
        rw [show randomDraws.head = randomDraws.get 0 from rfl, call]
        exact initialSketchLoop_collects_along num strategy fuel _ _ (fun round => productive (round + 1))
          (by omega) (by omega)
      · exact ⟨result, by simp [initialSketchLoop, below], by omega⟩

/-- When every strategy call yields at least one state, `num - |result|` rounds collect exactly
`num` states. -/
theorem initialSketchLoop_collects (num : Nat) (strategy : String)
    (productive : ∀ randomDraws, ∃ sketches, space.initialSketchCall strategy randomDraws = .ok sketches ∧
      sketches ≠ []) :
    ∀ (fuel : Nat) (result : List (SearchState Schedule Rule)) (randomDraws : Stream' (PrunedDraws Rule)),
      result.length ≤ num → num - result.length ≤ fuel →
        ∃ collected, space.initialSketchLoop num strategy fuel result randomDraws = some (.ok collected) ∧
          collected.length = num :=
  fun fuel result randomDraws =>
    space.initialSketchLoop_collects_along num strategy fuel result randomDraws fun _ => productive _

theorem initialSketchLoop_collects_counting :
    (∀ randomDraws, ∃ sketches, (countingSpace 6).initialSketchCall "rule_prune" randomDraws = .ok sketches ∧
        sketches ≠ []) ∧
      ([] : List (SearchState Nat Nat)).length ≤ 3 ∧ 3 - ([] : List (SearchState Nat Nat)).length ≤ 3 ∧
      ∃ collected, (countingSpace 6).initialSketchLoop 3 "rule_prune" 3 [] (Stream'.const ⟨[], Stream'.const 0,
          Stream'.const [], Stream'.const (Stream'.const false)⟩) = some (.ok collected) ∧ collected.length = 3 :=
  have productive : ∀ randomDraws, ∃ sketches,
      (countingSpace 6).initialSketchCall "rule_prune" randomDraws = .ok sketches ∧ sketches ≠ [] :=
    fun _ => ⟨[⟨0, []⟩], rfl, List.cons_ne_nil _ _⟩
  ⟨productive, Nat.zero_le _, Nat.le_refl _, (countingSpace 6).initialSketchLoop_collects 3 "rule_prune" productive 3 []
    _ (Nat.zero_le _) (Nat.le_refl _)⟩

/-- When every strategy call yields no state, the loop never exits: every fuel runs out. -/
theorem initialSketchLoop_diverges (num : Nat) (strategy : String)
    (barren : ∀ randomDraws, space.initialSketchCall strategy randomDraws = .ok []) :
    ∀ (fuel : Nat) (result : List (SearchState Schedule Rule)) (randomDraws : Stream' (PrunedDraws Rule)),
      result.length < num → space.initialSketchLoop num strategy fuel result randomDraws = none
  | 0, result, _, below => by simp [initialSketchLoop, below]
  | fuel + 1, result, randomDraws, below => by
      simp only [initialSketchLoop, if_pos below, barren, List.reverse_nil, pushUntil]
      exact initialSketchLoop_diverges num strategy barren fuel result _ below

/-- Every vector the loop returns from a vector of at most `num` states holds exactly `num`. -/
theorem initialSketchLoop_length (num : Nat) (strategy : String) :
    ∀ (fuel : Nat) (result : List (SearchState Schedule Rule)) (randomDraws : Stream' (PrunedDraws Rule))
      {collected : List (SearchState Schedule Rule)}, result.length ≤ num →
        space.initialSketchLoop num strategy fuel result randomDraws = some (.ok collected) → collected.length = num
  | 0, result, _, collected, atMost, done => by
      simp only [initialSketchLoop] at done
      split at done
      · cases done
      · cases done
        omega
  | fuel + 1, result, randomDraws, collected, atMost, done => by
      simp only [initialSketchLoop] at done
      split at done
      · rename_i below
        split at done
        · cases done
        · rename_i sketches _
          have grown := pushUntil_length num result sketches.reverse below
          exact initialSketchLoop_length num strategy fuel _ _ (by omega) done
      · cases done
        omega

/-- **`GetInitialSketch` returns `num` states.** For every strategy, fuel and draws, a vector that
`GetInitialSketch(num, strategy)` returns holds exactly `num` states: pushing stops at `num`, and
the loop exits only at `num`. -/
theorem getInitialSketch_length {fuel num : Nat} {strategy : String} {randomDraws : Stream' (PrunedDraws Rule)}
    {collected : List (SearchState Schedule Rule)}
    (done : space.getInitialSketch fuel num strategy randomDraws = some (.ok collected)) : collected.length = num :=
  space.initialSketchLoop_length num strategy fuel [] randomDraws (Nat.zero_le _) done

theorem getInitialSketch_length_counting :
    (countingSpace 6).getInitialSketch 2 2 "rule_prune" (Stream'.const ⟨[], Stream'.const 0, Stream'.const [],
        Stream'.const (Stream'.const false)⟩) = some (.ok [⟨0, []⟩, ⟨0, []⟩]) ∧
      [(⟨0, []⟩ : SearchState Nat Nat), ⟨0, []⟩].length = 2 :=
  have done : (countingSpace 6).getInitialSketch 2 2 "rule_prune" (Stream'.const ⟨[], Stream'.const 0,
      Stream'.const [], Stream'.const (Stream'.const false)⟩) = some (.ok [⟨0, []⟩, ⟨0, []⟩]) := rfl
  ⟨done, (countingSpace 6).getInitialSketch_length done⟩

/-! ## Errors -/

/-- A strategy call fails exactly for an unknown strategy, with the message of `LOG(FATAL)`, or
for a known one when `sketch_rules_` has no rule besides the last, with the message of the failed
`CHECK`; neither depends on the draws. -/
theorem initialSketchCall_eq_error_iff (strategy : String) (randomDraws : PrunedDraws Rule) (message : String) :
    space.initialSketchCall strategy randomDraws = .error message ↔
      (strategy ≠ "rule_prune" ∧ strategy ≠ "random_prune" ∧ message = "Unimplemented init sketch strategy") ∨
        ((strategy = "rule_prune" ∨ strategy = "random_prune") ∧ space.sketchRules.length ≤ 1 ∧
          message = "number of init rules cannot be 0") := by
  have checkFails : ∀ {sketched : List (SearchState Schedule Rule)},
      (if space.sketchRules.dropLast.length > 0 then Except.ok sketched
        else .error "number of init rules cannot be 0") = .error message ↔
      space.sketchRules.length ≤ 1 ∧ message = "number of init rules cannot be 0" := by
    intro sketched
    rw [List.length_dropLast]
    split
    · simp only [reduceCtorEq, false_iff, not_and]
      exact fun short => absurd short (by omega)
    · simp only [Except.error.injEq, eq_comm, iff_and_self]
      exact fun _ => by omega
  unfold initialSketchCall
  by_cases rule : strategy = "rule_prune"
  · rw [if_pos rule, getRulePrunedInitialSketch, checkFails]
    simp [rule]
  · by_cases random : strategy = "random_prune"
    · rw [if_neg rule, if_pos random, getRandomPrunedInitialSketch, checkFails]
      simp [random]
    · rw [if_neg rule, if_neg random]
      simp [rule, random, eq_comm]

/-- When no strategy call fails, neither does the loop. -/
theorem initialSketchLoop_ne_error (num : Nat) (strategy : String)
    (succeeds : ∀ randomDraws message, space.initialSketchCall strategy randomDraws ≠ .error message)
    (message : String) :
    ∀ (fuel : Nat) (result : List (SearchState Schedule Rule)) (randomDraws : Stream' (PrunedDraws Rule)),
      space.initialSketchLoop num strategy fuel result randomDraws ≠ some (.error message)
  | 0, result, _ => by
      simp only [initialSketchLoop]
      split <;> simp
  | fuel + 1, result, randomDraws => by
      simp only [initialSketchLoop]
      split
      · split
        · rename_i failure call
          exact absurd call (succeeds _ _)
        · exact initialSketchLoop_ne_error num strategy succeeds message fuel _ _
      · simp

/-- **Which errors `GetInitialSketch` raises.** For every fuel, `num`, strategy and draws,
`GetInitialSketch(num, strategy)` fails with `message` exactly when it runs a round and either the
strategy is unknown, with `LOG(FATAL)`'s "Unimplemented init sketch strategy", or `sketch_rules_`
has no rule besides the last, with the failed `CHECK`'s "number of init rules cannot be 0". -/
theorem getInitialSketch_error_iff (fuel num : Nat) (strategy : String)
    (randomDraws : Stream' (PrunedDraws Rule)) (message : String) :
    space.getInitialSketch fuel num strategy randomDraws = some (.error message) ↔
      0 < num ∧ 0 < fuel ∧
        ((strategy ≠ "rule_prune" ∧ strategy ≠ "random_prune" ∧ message = "Unimplemented init sketch strategy") ∨
          ((strategy = "rule_prune" ∨ strategy = "random_prune") ∧ space.sketchRules.length ≤ 1 ∧
            message = "number of init rules cannot be 0")) := by
  rw [← space.initialSketchCall_eq_error_iff strategy randomDraws.head message]
  cases fuel with
  | zero =>
      simp only [getInitialSketch, initialSketchLoop, Nat.lt_irrefl, false_and, and_false, iff_false]
      split <;> simp
  | succ fuel =>
      by_cases zero : num = 0
      · subst zero
        simp [getInitialSketch, initialSketchLoop]
      · simp only [getInitialSketch, initialSketchLoop, List.length_nil, if_pos (Nat.pos_of_ne_zero zero),
          Nat.pos_of_ne_zero zero, Nat.succ_pos, true_and]
        cases call : space.initialSketchCall strategy randomDraws.head with
        | error failure => simp
        | ok sketches =>
            have succeeds : ∀ other failure, space.initialSketchCall strategy other ≠ .error failure :=
              fun other failure failed => by
                rw [space.initialSketchCall_eq_error_iff, ← space.initialSketchCall_eq_error_iff strategy
                  randomDraws.head, call] at failed
                cases failed
            simp only [reduceCtorEq, iff_false]
            exact space.initialSketchLoop_ne_error num strategy succeeds message fuel _ _

/-! ## What the loop collects -/

/-- Pushing into a vector shorter than `num` keeps the first `num` states of the vector followed
by the sketches. -/
theorem pushUntil_eq_take (num : Nat) :
    ∀ (result sketches : List (SearchState Schedule Rule)), result.length < num →
      pushUntil num result sketches = (result ++ sketches).take num
  | result, [], below => by
      rw [pushUntil, List.append_nil, List.take_of_length_le (Nat.le_of_lt below)]
  | result, sketch :: rest, below => by
      have pushed : (result ++ [sketch]).length = result.length + 1 := by simp
      by_cases full : (result ++ [sketch]).length = num
      · rw [pushUntil, if_pos full, show result ++ sketch :: rest = (result ++ [sketch]) ++ rest by simp,
          List.take_append_of_le_length (Nat.le_of_eq full.symm), List.take_of_length_le (Nat.le_of_eq full)]
      · rw [pushUntil, if_neg full, pushUntil_eq_take num _ rest (by omega), List.append_assoc,
          List.singleton_append]

/-- A vector of `num` states or more ends the loop at once. -/
theorem initialSketchLoop_of_le (num : Nat) (strategy : String) {result : List (SearchState Schedule Rule)}
    (full : num ≤ result.length) :
    ∀ (fuel : Nat) (randomDraws : Stream' (PrunedDraws Rule)),
      space.initialSketchLoop num strategy fuel result randomDraws = some (.ok result)
  | 0, _ => by simp [initialSketchLoop, Nat.not_lt.mpr full]
  | _ + 1, _ => by simp [initialSketchLoop, Nat.not_lt.mpr full]

theorem length_flatten_replicate {α : Type} (copies : Nat) (items : List α) :
    (List.replicate copies items).flatten.length = copies * items.length := by
  simp [List.length_flatten, List.map_replicate, List.sum_replicate]

/-- Taking `num` states of enough copies does not depend on how many more copies follow. -/
theorem take_flatten_replicate {α : Type} {num copies more : Nat} {items : List α}
    (enough : num ≤ copies * items.length) :
    ((List.replicate (copies + more) items).flatten).take num = ((List.replicate copies items).flatten).take num := by
  rw [List.replicate_add, List.flatten_append,
    List.take_append_of_le_length (by rwa [length_flatten_replicate])]

/-- When every strategy call returns the same nonempty sketches, the loop collects the first `num`
states of the reversed sketches repeated, from any number of whole copies collected so far, given
enough rounds. -/
theorem initialSketchLoop_constant (num : Nat) (strategy : String) {sketches : List (SearchState Schedule Rule)}
    (constant : ∀ randomDraws, space.initialSketchCall strategy randomDraws = .ok sketches)
    (nonEmpty : sketches ≠ []) :
    ∀ (fuel copies : Nat) (randomDraws : Stream' (PrunedDraws Rule)),
      copies * sketches.length < num → num ≤ copies + fuel →
        space.initialSketchLoop num strategy fuel (List.replicate copies sketches.reverse).flatten randomDraws =
          some (.ok ((List.replicate num sketches.reverse).flatten.take num))
  | 0, copies, _, below, enough => by
      have := Nat.le_mul_of_pos_right copies (List.length_pos.mpr nonEmpty)
      omega
  | fuel + 1, copies, randomDraws, below, enough => by
      have atLeastOne := List.length_pos.mpr nonEmpty
      have copiesBelow : copies < num := Nat.lt_of_le_of_lt (Nat.le_mul_of_pos_right copies atLeastOne) below
      have collectedBelow : (List.replicate copies sketches.reverse).flatten.length < num := by
        rwa [length_flatten_replicate, List.length_reverse]
      have pushed : pushUntil num (List.replicate copies sketches.reverse).flatten sketches.reverse =
          ((List.replicate (copies + 1) sketches.reverse).flatten).take num := by
        rw [pushUntil_eq_take num _ _ collectedBelow, List.replicate_succ', List.flatten_append,
          List.flatten_singleton]
      simp only [initialSketchLoop, if_pos collectedBelow, constant, pushed]
      by_cases more : (copies + 1) * sketches.length < num
      · rw [List.take_of_length_le (by rw [length_flatten_replicate, List.length_reverse]; omega)]
        exact initialSketchLoop_constant num strategy constant nonEmpty fuel (copies + 1) _ more (by omega)
      · have enoughCopies : num ≤ (copies + 1) * sketches.reverse.length := by
          rw [List.length_reverse]
          omega
        have collectedLength : num ≤ ((List.replicate (copies + 1) sketches.reverse).flatten.take num).length := by
          rw [List.length_take, length_flatten_replicate, Nat.min_eq_left enoughCopies]
        have same := @take_flatten_replicate _ num (copies + 1) (num - (copies + 1)) _ enoughCopies
        rw [Nat.add_sub_cancel' (by omega : copies + 1 ≤ num)] at same
        rw [initialSketchLoop_of_le space num strategy collectedLength, same]

/-- **Rule-pruned initial sketches, end to end.** If `sketch_rules_` has at least two rules, the
last block of the schedule has a name, and `ApplyOnBlock` yields at least one state wherever a
rule applies, then the rule-pruned sketch is a nonempty vector, and for every `num`
`GetInitialSketch(num, "rule_prune")` returns within `num` rounds exactly `num` states: the first
`num` states of the rule-pruned sketch taken in reverse order and repeated. -/
theorem getInitialSketch_rulePrune (expands : space.ExpandsEverywhere)
    (initRulesExist : 1 < space.sketchRules.length)
    (lastNamed : ∃ name, (space.getAllBlocks space.initSchedule).getLast? = some name ∧ name ≠ "") :
    ∃ sketches, space.getRulePrunedInitialSketch = .ok sketches ∧ sketches ≠ [] ∧
      ∀ (num fuel : Nat) (randomDraws : Stream' (PrunedDraws Rule)), num ≤ fuel →
        ∃ collected, space.getInitialSketch fuel num "rule_prune" randomDraws = some (.ok collected) ∧
          collected.length = num ∧ collected = ((List.replicate num sketches.reverse).flatten).take num := by
  obtain ⟨sketches, sketched, nonEmpty⟩ := space.getRulePrunedInitialSketch_ne_nil expands initRulesExist lastNamed
  have everyRound : ∀ randomDraws, space.initialSketchCall "rule_prune" randomDraws = .ok sketches :=
    fun _ => by simp [initialSketchCall, sketched]
  refine ⟨sketches, sketched, nonEmpty, fun num fuel randomDraws enough => ⟨_, ?_, ?_, rfl⟩⟩
  · by_cases zero : num = 0
    · subst zero
      exact space.initialSketchLoop_of_le 0 _ (Nat.zero_le _) fuel randomDraws
    · exact space.initialSketchLoop_constant num "rule_prune" everyRound nonEmpty fuel 0 randomDraws
        (by omega) (by omega)
  · rw [List.length_take, length_flatten_replicate, List.length_reverse]
    exact Nat.min_eq_left (Nat.le_mul_of_pos_right _ (List.length_pos.mpr nonEmpty))

theorem getInitialSketch_rulePrune_counting :
    (countingSpace 6).ExpandsEverywhere ∧ 1 < (countingSpace 6).sketchRules.length ∧
      (∃ name, ((countingSpace 6).getAllBlocks (countingSpace 6).initSchedule).getLast? = some name ∧
        name ≠ "") ∧
      ∃ sketches, (countingSpace 6).getRulePrunedInitialSketch = .ok sketches ∧ sketches ≠ [] ∧
        ∀ (num fuel : Nat) (randomDraws : Stream' (PrunedDraws Nat)), num ≤ fuel →
          ∃ collected, (countingSpace 6).getInitialSketch fuel num "rule_prune" randomDraws = some (.ok collected) ∧
            collected.length = num ∧ collected = ((List.replicate num sketches.reverse).flatten).take num :=
  ⟨SearchSpace.countingSpace_expandsEverywhere 6, by decide, ⟨"b", rfl, by decide⟩,
    (countingSpace 6).getInitialSketch_rulePrune (SearchSpace.countingSpace_expandsEverywhere 6) (by decide)
      ⟨"b", rfl, by decide⟩⟩

/-- **Random-pruned initial sketches terminate.** With finite samplers (the block sampler of every
round and every rule sampler yield their sentinel after finitely many items, as the lists of
`PrunedDraws` do), if `sketch_rules_` has at least two rules, `init_sketch_random_depth_` is
positive, `ApplyOnBlock` yields at least one state wherever a rule applies, and the block sampler
of every round starts with a named block, then for every `num` `GetInitialSketch(num,
"random_prune")` returns exactly `num` states within `num` rounds. A probabilistic sampler that
draws with replacement need not end; with a drawn `0` the source then stays in
`CollectStateTransfer` or in the block loop. -/
theorem getInitialSketch_randomPrune (expands : space.ExpandsEverywhere)
    (initRulesExist : 1 < space.sketchRules.length) (deep : 0 < space.initSketchRandomDepth)
    {randomDraws : Stream' (PrunedDraws Rule)}
    (firstNamed : ∀ round, ∃ first rest, (randomDraws.get round).blocks = first :: rest ∧ first ≠ "")
    {num fuel : Nat} (enough : num ≤ fuel) :
    ∃ collected, space.getInitialSketch fuel num "random_prune" randomDraws = some (.ok collected) ∧
      collected.length = num :=
  space.initialSketchLoop_collects_along num "random_prune" fuel [] randomDraws
    (fun round => by
      obtain ⟨sketches, sketched, nonEmpty⟩ :=
        space.getRandomPrunedInitialSketch_ne_nil expands initRulesExist deep (firstNamed round)
      exact ⟨sketches, by simp [initialSketchCall, sketched], nonEmpty⟩)
    (Nat.zero_le _) (by simpa using enough)

theorem getInitialSketch_randomPrune_counting :
    (countingSpace 6).ExpandsEverywhere ∧ 1 < (countingSpace 6).sketchRules.length ∧
      0 < (countingSpace 6).initSketchRandomDepth ∧
      (∀ round, ∃ first rest, ((Stream'.const ⟨["b"], Stream'.const 1, Stream'.const [0],
        Stream'.const (Stream'.const true)⟩ : Stream' (PrunedDraws Nat)).get round).blocks = first :: rest ∧
          first ≠ "") ∧
      2 ≤ 2 ∧
      ∃ collected, (countingSpace 6).getInitialSketch 2 2 "random_prune" (Stream'.const ⟨["b"], Stream'.const 1,
          Stream'.const [0], Stream'.const (Stream'.const true)⟩) = some (.ok collected) ∧ collected.length = 2 :=
  have firstNamed : ∀ round, ∃ first rest, ((Stream'.const ⟨["b"], Stream'.const 1, Stream'.const [0],
      Stream'.const (Stream'.const true)⟩ : Stream' (PrunedDraws Nat)).get round).blocks = first :: rest ∧
        first ≠ "" := fun _ => ⟨"b", [], rfl, by decide⟩
  ⟨SearchSpace.countingSpace_expandsEverywhere 6, by decide, by decide, firstNamed, Nat.le_refl _,
    (countingSpace 6).getInitialSketch_randomPrune (SearchSpace.countingSpace_expandsEverywhere 6) (by decide) (by decide)
      firstNamed (Nat.le_refl _)⟩

end SearchSpace

/-- A program with two blocks, and a rule that applies to every state holding a block, skips
all rules, and yields no successor. -/
def barrenSpace : SearchSpace Nat Nat where
  rules :=
    { init := fun _ _ => .kApply
      numberApplicable := fun _ _ => 1
      apply := fun _ schedule _ => schedule
      analyseApplyType := fun _ _ _ => .kApplyAndSkipAllRules
      applyOnBlock := fun _ _ _ => [] }
  sketchRules := [0, 1]
  initSchedule := 0
  getAllBlocks := fun _ => ["a", "b"]
  initSketchRandomDepth := 6

/-- On this program every `rule_prune` call returns no state, and `GetInitialSketch(1,
"rule_prune")` runs forever. -/
theorem getInitialSketch_never_returns :
    barrenSpace.getRulePrunedInitialSketch = .ok [] ∧
      ∀ (fuel : Nat) (randomDraws : Stream' (PrunedDraws Nat)),
        barrenSpace.getInitialSketch fuel 1 "rule_prune" randomDraws = none :=
  ⟨rfl, fun fuel randomDraws =>
    barrenSpace.initialSketchLoop_diverges 1 "rule_prune" (fun _ => rfl) fuel [] randomDraws (by decide)⟩

end CinnAutoSchedule.AutoSchedule
