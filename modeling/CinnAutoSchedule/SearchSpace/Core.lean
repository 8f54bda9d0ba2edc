import Mathlib.Data.Stream.Defs

/-!
Contract: the data of the auto-schedule search space and the collaborators it consults.

A search state carries a schedule and the handles of the rules still applicable to it. Rule
handles are the values of an arbitrary type `Rule`; what a rule does is the `AutoGenRule` record
of functions, the contract of §6 of the design. The program representation is an arbitrary type
`Schedule`; the search space reads from it only the names of its blocks. The randomness the
search space draws (`rand()`, the `std::mt19937` draws, the samplers) is an argument of each
function: a `Stream'` of values or the list a sampler yields.

Owns: `RuleApplyType`, `SearchState`, the `AutoGenRule` contract, the `SearchSpace` record of
what the member functions read, `CheckBlockExist`, and three small search spaces that the
witnesses and counterexamples of later modules run on.

Does not own: the concrete rules, the cost model, `predicted_cost`, or the samplers' policies.
-/

set_option autoImplicit false

namespace CinnAutoSchedule.AutoSchedule

/-- Modelled from the spec: `RuleApplyType`, what `Init` and `AnalyseApplyType` report (§4.4,
step 1): cannot apply, apply, apply and drop this rule, apply and drop all rules. -/
inductive RuleApplyType where
  | kCannotApply
  | kApply
  | kApplyAndSkipThisRule
  | kApplyAndSkipAllRules
deriving DecidableEq, Repr

/-- `SearchState`: the schedule and the rules still applicable to it. -/
structure SearchState (Schedule Rule : Type) where
  irSchedule : Schedule
  applicableRules : List Rule
deriving DecidableEq, Repr

/-- Modelled from the spec: the `AutoGenRule` capability contract (§6). `init` is `Init` on a
schedule, `numberApplicable` is `NumberApplicable()` after that `Init`, and `apply` is
`Apply(index)` on the schedule the rule was initialised with. -/
structure AutoGenRule (Schedule Rule : Type) where
  init : Rule → Schedule → RuleApplyType
  numberApplicable : Rule → Schedule → Nat
  apply : Rule → Schedule → Nat → Schedule
  analyseApplyType : Rule → SearchState Schedule Rule → String → RuleApplyType
  applyOnBlock : Rule → SearchState Schedule Rule → String → List (SearchState Schedule Rule)

/-- What the member functions of `SearchSpace` read: the behaviour of the rules, `sketch_rules_`,
the schedule of `tune_task_`'s lowered function bodies, the block names of a schedule
(`GetAllBlocks`), and `init_sketch_random_depth_`. -/
structure SearchSpace (Schedule Rule : Type) where
  rules : AutoGenRule Schedule Rule
  sketchRules : List Rule
  initSchedule : Schedule
  getAllBlocks : Schedule → List String
  initSketchRandomDepth : Nat

/-- `CheckBlockExist`: whether a block of the state's schedule is named `block_name`. -/
def checkBlockExist {Schedule Rule : Type} (getAllBlocks : Schedule → List String)
    (state : SearchState Schedule Rule) (blockName : String) : Bool :=
  (getAllBlocks state.irSchedule).any (· == blockName)

/-! ## Three small search spaces -/

/-- One rule that reports `kApply` with two applicable positions. -/
def twoPositionSpace : SearchSpace Unit Unit where
  rules :=
    { init := fun _ _ => .kApply
      numberApplicable := fun _ _ => 2
      apply := fun _ schedule _ => schedule
      analyseApplyType := fun _ _ _ => .kCannotApply
      applyOnBlock := fun _ _ _ => [] }
  sketchRules := [()]
  initSchedule := ()
  getAllBlocks := fun _ => []
  initSketchRandomDepth := 1

/-- One rule that reports `kApply` with one applicable position. -/
def onePositionSpace : SearchSpace Unit Unit where
  rules :=
    { init := fun _ _ => .kApply
      numberApplicable := fun _ _ => 1
      apply := fun _ schedule _ => schedule
      analyseApplyType := fun _ _ _ => .kCannotApply
      applyOnBlock := fun _ _ _ => [] }
  sketchRules := [()]
  initSchedule := ()
  getAllBlocks := fun _ => []
  initSketchRandomDepth := 1

/-- A program with the single block `"b"`, and a rule that applies to every state holding it,
skips all rules, and yields one successor whose schedule counts the applications. -/
def countingSpace (depth : Nat) : SearchSpace Nat Nat where
  rules :=
    { init := fun _ _ => .kApply
      numberApplicable := fun _ _ => 1
      apply := fun _ schedule _ => schedule
      analyseApplyType := fun _ _ _ => .kApplyAndSkipAllRules
      applyOnBlock := fun _ state _ => [⟨state.irSchedule + 1, state.applicableRules⟩] }
  sketchRules := [0, 1]
  initSchedule := 0
  getAllBlocks := fun _ => ["b"]
  initSketchRandomDepth := depth

end CinnAutoSchedule.AutoSchedule
