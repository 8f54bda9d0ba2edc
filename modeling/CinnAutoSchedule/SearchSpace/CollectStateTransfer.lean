import CinnAutoSchedule.SearchSpace.Core
import Mathlib.Data.List.Forall2

/-!
Contract: `SearchSpace::CollectStateTransfer`, the layered expansion of one state on one block.

The layer is a `std::list` that the inner `for` erases from while it walks it, and the
successors of a round are spliced after it only when the walk ends. Here the walk is split at
the iterator: `kept` holds the states before it that stay in the layer, `newStates` the
successors collected so far. The rule sampler is the list `NextRule()` yields before `nullptr`.
The randomized pruning decision `distribution(rng) < prune_probability`, taken with a fresh
generator for each state the rule is applied to, is the next value of a stream of `Bool`s.

Owns: the model; the design's statement of a round (`roundResult`, `PrunedRound`) and of a
whole call (`TransferRounds`); the refinement: the code runs exactly the first
`min(steps, L)` rules as rounds (`L` of them when `steps = 0`), each round being a
`PrunedRound`; and that no call shrinks the layer when `ApplyOnBlock` yields a state wherever a
rule applies (`ExpandsEverywhere`).
-/

set_option autoImplicit false

namespace CinnAutoSchedule.AutoSchedule

namespace SearchSpace

variable {Schedule Rule : Type} (space : SearchSpace Schedule Rule)

/-- One round of the outer `while`, from the iterator on: states without the block and states
the rule cannot apply to are kept; the others are expanded by `ApplyOnBlock` and dropped when
the pruning decision says so. The round ends with `layer.splice(layer.end(), new_states)`. -/
def transferRound (blockName : String) (rule : Rule) (pruneByRule : Bool) :
    List (SearchState Schedule Rule) → List (SearchState Schedule Rule) →
      List (SearchState Schedule Rule) → Stream' Bool →
        List (SearchState Schedule Rule) × Stream' Bool
  | kept, newStates, [], draws => (kept ++ newStates, draws)
  | kept, newStates, state :: rest, draws =>
      if !checkBlockExist space.getAllBlocks state blockName then
        transferRound blockName rule pruneByRule (kept ++ [state]) newStates rest draws
      else
        let type := space.rules.analyseApplyType rule state blockName
        if type = .kCannotApply then
          transferRound blockName rule pruneByRule (kept ++ [state]) newStates rest draws
        else
          let newStates := newStates ++ space.rules.applyOnBlock rule state blockName
          let needPrune := if pruneByRule then type == .kApplyAndSkipAllRules else draws.head
          let draws := if pruneByRule then draws else draws.tail
          if needPrune then transferRound blockName rule pruneByRule kept newStates rest draws
          else transferRound blockName rule pruneByRule (kept ++ [state]) newStates rest draws

/-- The outer `while ((step++ < steps || steps == 0) && (rule = rule_sampler->NextRule()))`. -/
def transferLoop (blockName : String) (steps : Nat) (pruneByRule : Bool) :
    List (SearchState Schedule Rule) → Nat → List Rule → Stream' Bool →
      List (SearchState Schedule Rule) × Stream' Bool
  | layer, _, [], draws => (layer, draws)
  | layer, step, rule :: rest, draws =>
      if step < steps ∨ steps = 0 then
        let round := space.transferRound blockName rule pruneByRule [] [] layer draws
        transferLoop blockName steps pruneByRule round.1 (step + 1) rest round.2
      else (layer, draws)

/-- `CollectStateTransfer(state, block_name, rule_sampler, steps, prune_by_rule, _)`: the final
layer, and the pruning draws left over. -/
def collectStateTransfer (state : SearchState Schedule Rule) (blockName : String) (ruleSampler : List Rule)
    (steps : Nat) (pruneByRule : Bool) (draws : Stream' Bool) :
    List (SearchState Schedule Rule) × Stream' Bool :=
  space.transferLoop blockName steps pruneByRule [state] 0 ruleSampler draws

/-! ## The design's rounds -/

/-- A round applies `rule` to a state that holds the block and that the rule can apply to. -/
def applies (blockName : String) (rule : Rule) (state : SearchState Schedule Rule) : Bool :=
  checkBlockExist space.getAllBlocks state blockName &&
    space.rules.analyseApplyType rule state blockName != .kCannotApply

/-- A round as the design states it: the states not pruned, in order, then the successors of
every state the rule applies to, in layer order. -/
def roundResult (blockName : String) (rule : Rule) (layer : List (SearchState Schedule Rule))
    (pruned : List Bool) : List (SearchState Schedule Rule) :=
  ((layer.zip pruned).filter (fun entry => !entry.2)).map Prod.fst ++
    (layer.filter (space.applies blockName rule)).flatMap (space.rules.applyOnBlock rule · blockName)

/-- A pruning flag is raised only on a state the rule applies to; under `prune_by_rule`, exactly
on those where the rule reports `kApplyAndSkipAllRules`. -/
def PruneFlag (blockName : String) (rule : Rule) (pruneByRule : Bool)
    (state : SearchState Schedule Rule) (flag : Bool) : Prop :=
  (flag = true → space.applies blockName rule state = true) ∧
    (pruneByRule = true → (flag = true ↔ space.applies blockName rule state = true ∧
      space.rules.analyseApplyType rule state blockName = .kApplyAndSkipAllRules))

/-- One round of the design, from `layer` to `next`. -/
def PrunedRound (blockName : String) (rule : Rule) (pruneByRule : Bool)
    (layer next : List (SearchState Schedule Rule)) : Prop :=
  ∃ pruned, List.Forall₂ (space.PruneFlag blockName rule pruneByRule) layer pruned ∧
    next = space.roundResult blockName rule layer pruned

/-- The design's `CollectStateTransfer`: one `PrunedRound` per rule, in order. -/
inductive TransferRounds (blockName : String) (pruneByRule : Bool) :
    List Rule → List (SearchState Schedule Rule) → List (SearchState Schedule Rule) → Prop
  | done (layer : List (SearchState Schedule Rule)) : TransferRounds blockName pruneByRule [] layer layer
  | round {rule : Rule} {rest : List Rule} {layer middle final : List (SearchState Schedule Rule)} :
      space.PrunedRound blockName rule pruneByRule layer middle →
      TransferRounds blockName pruneByRule rest middle final →
      TransferRounds blockName pruneByRule (rule :: rest) layer final

/-! ## The code refines the design -/

section Refinement

variable (blockName : String) (rule : Rule) (pruneByRule : Bool)

/-- What the walk does with one state: keep it, or expand it and then keep or prune it. -/
theorem transferRound_cons (kept newStates : List (SearchState Schedule Rule))
    (state : SearchState Schedule Rule) (rest : List (SearchState Schedule Rule)) (draws : Stream' Bool) :
    space.transferRound blockName rule pruneByRule kept newStates (state :: rest) draws =
      if space.applies blockName rule state then
        if (if pruneByRule then space.rules.analyseApplyType rule state blockName == .kApplyAndSkipAllRules
            else draws.head) then
          space.transferRound blockName rule pruneByRule kept
            (newStates ++ space.rules.applyOnBlock rule state blockName) rest
            (if pruneByRule then draws else draws.tail)
        else
          space.transferRound blockName rule pruneByRule (kept ++ [state])
            (newStates ++ space.rules.applyOnBlock rule state blockName) rest
            (if pruneByRule then draws else draws.tail)
      else space.transferRound blockName rule pruneByRule (kept ++ [state]) newStates rest draws := by
  simp only [transferRound]
  by_cases present : checkBlockExist space.getAllBlocks state blockName = true <;>
    by_cases cannot : space.rules.analyseApplyType rule state blockName = .kCannotApply <;>
    cases pruneByRule <;> simp [applies, present, cannot]

/-- One round of the walk keeps the unpruned states in order and appends all successors, with
flags that satisfy `PruneFlag`. -/
theorem transferRound_spec :
    ∀ (layer kept newStates : List (SearchState Schedule Rule)) (draws : Stream' Bool),
      ∃ pruned, List.Forall₂ (space.PruneFlag blockName rule pruneByRule) layer pruned ∧
        (space.transferRound blockName rule pruneByRule kept newStates layer draws).1 =
          kept ++ ((layer.zip pruned).filter (fun entry => !entry.2)).map Prod.fst ++
            (newStates ++ (layer.filter (space.applies blockName rule)).flatMap
              (space.rules.applyOnBlock rule · blockName))
  | [], kept, newStates, draws => ⟨[], .nil, by simp [transferRound]⟩
  | state :: rest, kept, newStates, draws => by
      rw [transferRound_cons]
      by_cases applied : space.applies blockName rule state = true
      · rw [if_pos applied]
        generalize needPruneEq : (if pruneByRule then space.rules.analyseApplyType rule state blockName ==
          .kApplyAndSkipAllRules else draws.head) = needPrune
        have flag : space.PruneFlag blockName rule pruneByRule state needPrune :=
          ⟨fun _ => applied, fun byRule => by simp [← needPruneEq, byRule, applied]⟩
        obtain ⟨pruned, flags, result⟩ := transferRound_spec rest (if needPrune then kept else kept ++ [state])
          (newStates ++ space.rules.applyOnBlock rule state blockName) (if pruneByRule then draws else draws.tail)
        refine ⟨needPrune :: pruned, .cons flag flags, ?_⟩
        cases needPrune <;> simp only [Bool.false_eq_true, if_true, if_false] at result ⊢ <;>
          simp [result, applied]
      · obtain ⟨pruned, flags, result⟩ := transferRound_spec rest (kept ++ [state]) newStates draws
        refine ⟨false :: pruned, .cons ⟨by simp, fun _ => by simp [applied]⟩ flags, ?_⟩
        rw [if_neg applied, result]
        simp [applied]

/-- Every round of the walk, started afresh, is a `PrunedRound`. -/
theorem transferRound_prunedRound (layer : List (SearchState Schedule Rule)) (draws : Stream' Bool) :
    space.PrunedRound blockName rule pruneByRule layer
      (space.transferRound blockName rule pruneByRule [] [] layer draws).1 := by
  obtain ⟨pruned, flags, result⟩ := space.transferRound_spec blockName rule pruneByRule layer [] [] draws
  exact ⟨pruned, flags, by rw [result, roundResult]; simp⟩

end Refinement

/-- From round counter `step`, the loop runs the next rules of the sampler as rounds: all of
them when `steps = 0`, otherwise as many as are left below `steps`. -/
theorem transferLoop_rounds (blockName : String) (steps : Nat) (pruneByRule : Bool) :
    ∀ (layer : List (SearchState Schedule Rule)) (step : Nat) (ruleSampler : List Rule) (draws : Stream' Bool),
      space.TransferRounds blockName pruneByRule
        (ruleSampler.take (if steps = 0 then ruleSampler.length else steps - step)) layer
        (space.transferLoop blockName steps pruneByRule layer step ruleSampler draws).1
  | layer, _, [], draws => by simpa [transferLoop] using TransferRounds.done layer
  | layer, step, rule :: rest, draws => by
      by_cases running : step < steps ∨ steps = 0
      · have count : (if steps = 0 then (rule :: rest).length else steps - step) =
            (if steps = 0 then rest.length else steps - (step + 1)) + 1 := by
          by_cases zero : steps = 0
          · simp [zero]
          · simp only [zero, if_false]
            omega
        rw [count, List.take_succ_cons]
        simp only [transferLoop, if_pos running]
        exact .round (space.transferRound_prunedRound blockName rule pruneByRule layer draws)
          (transferLoop_rounds blockName steps pruneByRule _ (step + 1) rest _)
      · have noneLeft : (if steps = 0 then (rule :: rest).length else steps - step) = 0 := by
          split <;> omega
        rw [noneLeft, List.take_zero]
        simpa [transferLoop, if_neg running] using TransferRounds.done layer

/-- **`CollectStateTransfer` refines the design.** For every state, block, `steps`, pruning mode,
rule-sampler sequence of length `L` and pruning draws, the call runs exactly the first
`min(steps, L)` rules (all `L` when `steps = 0`) as rounds; in each round the layer becomes its
states without exactly the pruned ones, in order, followed by the successors of the states the
rule applies to, in layer order; a state is pruned only if the rule was applied to it, and under
`prune_by_rule` exactly when the rule reports `kApplyAndSkipAllRules`. The call returns the
final layer. -/
theorem collectStateTransfer_rounds (state : SearchState Schedule Rule) (blockName : String)
    (ruleSampler : List Rule) (steps : Nat) (pruneByRule : Bool) (draws : Stream' Bool) :
    space.TransferRounds blockName pruneByRule
      (ruleSampler.take (if steps = 0 then ruleSampler.length else steps)) [state]
      (space.collectStateTransfer state blockName ruleSampler steps pruneByRule draws).1 := by
  simpa using space.transferLoop_rounds blockName steps pruneByRule [state] 0 ruleSampler draws

/-! ## The layer when every expansion yields a state -/

/-- `ApplyOnBlock` yields at least one state wherever the walk calls it: on a state holding the
block, with a rule that can apply there. -/
def ExpandsEverywhere : Prop :=
  ∀ blockName rule state, space.applies blockName rule state = true →
    space.rules.applyOnBlock rule state blockName ≠ []

theorem countingSpace_expandsEverywhere (depth : Nat) : (countingSpace depth).ExpandsEverywhere :=
  fun _ _ _ _ => List.cons_ne_nil _ _

section Growth

variable {space} (expands : space.ExpandsEverywhere) (blockName : String) (pruneByRule : Bool)
include expands

/-- A round keeps a state, or prunes it after `ApplyOnBlock` has yielded at least one state for
it, so no round makes the layer shorter. -/
theorem roundResult_length_ge (rule : Rule) :
    ∀ {layer : List (SearchState Schedule Rule)} {pruned : List Bool},
      List.Forall₂ (space.PruneFlag blockName rule pruneByRule) layer pruned →
        layer.length ≤ (space.roundResult blockName rule layer pruned).length
  | [], [], .nil => Nat.zero_le _
  | state :: layer, flag :: pruned, .cons flagOk rest => by
      have later := roundResult_length_ge rule rest
      simp only [roundResult, List.length_append, List.length_map] at later ⊢
      by_cases applied : space.applies blockName rule state = true
      · have yields := List.length_pos.mpr (expands blockName rule state applied)
        cases flag <;>
          simp only [List.zip_cons_cons, List.filter_cons, applied, Bool.not_false, Bool.not_true, if_true,
            Bool.false_eq_true, if_false, List.flatMap_cons, List.length_append, List.length_cons,
            List.length_map] <;>
          omega
      · obtain rfl : flag = false := by
          cases flag
          · rfl
          · exact absurd (flagOk.1 rfl) applied
        simp only [List.zip_cons_cons, List.filter_cons, applied, Bool.not_false, if_true, Bool.false_eq_true,
          if_false, List.length_cons, List.length_map]
        omega

theorem transferRounds_length_le {rules : List Rule} {layer final : List (SearchState Schedule Rule)}
    (rounds : space.TransferRounds blockName pruneByRule rules layer final) : layer.length ≤ final.length := by
  induction rounds with
  | done => exact Nat.le_refl _
  | round round _ inductionHypothesis =>
      obtain ⟨pruned, flags, rfl⟩ := round
      exact Nat.le_trans (roundResult_length_ge expands blockName pruneByRule _ flags) inductionHypothesis

/-- Under productive rules a call of `CollectStateTransfer` returns at least one state. -/
theorem collectStateTransfer_ne_nil (state : SearchState Schedule Rule) (ruleSampler : List Rule) (steps : Nat)
    (draws : Stream' Bool) :
    (space.collectStateTransfer state blockName ruleSampler steps pruneByRule draws).1 ≠ [] :=
  List.ne_nil_of_length_pos (transferRounds_length_le expands blockName pruneByRule
    (space.transferLoop_rounds blockName steps pruneByRule [state] 0 ruleSampler draws))

/-- **The layer never shrinks.** If `ApplyOnBlock` yields at least one state wherever a rule
applies, then from every layer and round counter, whatever rules are drawn and whatever the
pruning decisions, the `while` of `CollectStateTransfer` returns a layer at least as long as the
one it started from; a call from one state returns at least one state. -/
theorem transferLoop_length_ge (steps : Nat) (layer : List (SearchState Schedule Rule)) (step : Nat)
    (ruleSampler : List Rule) (draws : Stream' Bool) :
    layer.length ≤ (space.transferLoop blockName steps pruneByRule layer step ruleSampler draws).1.length :=
  transferRounds_length_le expands blockName pruneByRule
    (space.transferLoop_rounds blockName steps pruneByRule layer step ruleSampler draws)

end Growth

end SearchSpace

theorem transferLoop_length_ge_counting :
    (countingSpace 6).ExpandsEverywhere ∧
      [(⟨0, []⟩ : SearchState Nat Nat)].length ≤
        ((countingSpace 6).transferLoop "b" 2 false [⟨0, []⟩] 0 [0, 1] (Stream'.const true)).1.length :=
  ⟨SearchSpace.countingSpace_expandsEverywhere 6,
    SearchSpace.transferLoop_length_ge (SearchSpace.countingSpace_expandsEverywhere 6) "b" false 2 [⟨0, []⟩] 0
      [0, 1] (Stream'.const true)⟩

end CinnAutoSchedule.AutoSchedule
