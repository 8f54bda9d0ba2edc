import CinnAutoSchedule.SearchSpace.CollectStateTransfer

/-!
Contract: `SearchSpace::GetRulePrunedInitialSketch` and `SearchSpace::GetRandomPrunedInitialSketch`,
the two block-by-block frontier loops.

Both loops keep two vectors behind the pointers `p_states_cur` and `p_states_next`
(`FrontierBuffers`). For each block they clear `*p_states_next`, append to it the expansion of
every state of `*p_states_cur` (`expandFrontier`), and swap the pointers; both then return
`*p_states_next`. The block samplers are the lists of names they yield before `""`, and the rule
samplers the lists of rules they yield before `nullptr`, so every sampler of the model ends. The
rule-pruned loop uses traversal samplers (modelled from the spec) and prunes by rule; the
random-pruned loop draws, per block, a number of steps clamped to the remaining depth budget, and
per state a fresh rule sampler and fresh pruning draws (`PrunedDraws`).

Owns: the models; that after the swap the loops return the frontier before the last visited
block, the fold over all visited blocks but the last (the empty vector when no block is visited),
not the fold over all of them; that under `ExpandsEverywhere` both sketches are nonempty once a
named block is visited; and the budget accounting of the random-pruned loop, where a drawn `0` is
charged nothing but becomes `CollectStateTransfer`'s "no bound".
-/

set_option autoImplicit false

namespace CinnAutoSchedule.AutoSchedule

/-- `*p_states_cur` and `*p_states_next`. -/
structure FrontierBuffers (State : Type) where
  cur : List State
  next : List State
deriving DecidableEq, Repr

/-- The inner `for` of both loops: each state of `*p_states_cur` expanded by `collect`, the
results appended to `*p_states_next` in order. `collect` threads the randomness it draws. -/
def expandFrontier {State Draws : Type} (collect : Draws → State → List State × Draws) :
    List State → List State → Draws → List State × Draws
  | next, [], draws => (next, draws)
  | next, state :: rest, draws =>
      let collected := collect draws state
      expandFrontier collect (next ++ collected.1) rest collected.2

/-- Modelled from the spec: a `traversal` sampler yields its candidates once each, in input order
(§4.2). -/
def traversalSampler {α : Type} (candidates : List α) : List α := candidates

/-- The random choices of one run of `GetRandomPrunedInitialSketch`: the names the probabilistic
block sampler yields, the values of `distribution(rng)` (in `[0, init_rules.size()]`), and for
each `CollectStateTransfer` call the rules its fresh probabilistic rule sampler yields and its
pruning draws. -/
structure PrunedDraws (Rule : Type) where
  blocks : List String
  steps : Stream' Nat
  ruleSamplers : Stream' (List Rule)
  pruneDraws : Stream' (Stream' Bool)

namespace SearchSpace

variable {Schedule Rule : Type} (space : SearchSpace Schedule Rule)

/-! ## Rule-pruned sketches -/

/-- The expansion of a frontier on one block in `GetRulePrunedInitialSketch`: each state through
`CollectStateTransfer(state, block_name, rule_sampler, 0, true)` with a fresh traversal rule
sampler. `prune_by_rule` is true, so no pruning draw is taken: the stream passed is never read. -/
def rulePrunedExpand (initRules : List Rule) (blockName : String)
    (frontier : List (SearchState Schedule Rule)) : List (SearchState Schedule Rule) :=
  (expandFrontier (fun (_ : Unit) state =>
      ((space.collectStateTransfer state blockName (traversalSampler initRules) 0 true
        (Stream'.const false)).1, ()))
    [] frontier ()).1

/-- The `while` of `GetRulePrunedInitialSketch`: clear `*p_states_next`, fill it with the
expansion of `*p_states_cur`, swap. -/
def rulePrunedLoop (initRules : List Rule) :
    FrontierBuffers (SearchState Schedule Rule) → List String → FrontierBuffers (SearchState Schedule Rule)
  | buffers, [] => buffers
  | buffers, blockName :: rest =>
      if blockName = "" then buffers
      else rulePrunedLoop initRules ⟨space.rulePrunedExpand initRules blockName buffers.cur, buffers.cur⟩ rest

/-- `GetRulePrunedInitialSketch`: blocks in reverse order, `sketch_rules_` without its last rule. -/
def getRulePrunedInitialSketch : Except String (List (SearchState Schedule Rule)) :=
  let allBlocks := (space.getAllBlocks space.initSchedule).reverse
  let initRules := space.sketchRules.dropLast
  if initRules.length > 0 then
    .ok (space.rulePrunedLoop initRules ⟨[⟨space.initSchedule, []⟩], []⟩ (traversalSampler allBlocks)).next
  else .error "number of init rules cannot be 0"

/-! ## Random-pruned sketches -/

/-- One `CollectStateTransfer(state, block_name, rule_sampler, steps, false, 1)` of the random-
pruned loop, with the next fresh rule sampler and the next pruning draws. -/
def randomPrunedCollect (blockName : String) (steps : Nat)
    (draws : Stream' (List Rule) × Stream' (Stream' Bool)) (state : SearchState Schedule Rule) :
    List (SearchState Schedule Rule) × (Stream' (List Rule) × Stream' (Stream' Bool)) :=
  ((space.collectStateTransfer state blockName draws.1.head steps false draws.2.head).1,
    (draws.1.tail, draws.2.tail))

/-- The steps the random-pruned loop gives a block: the draw, clamped to the remaining budget. -/
def clampSteps (totalSteps drawn : Nat) : Nat :=
  if totalSteps + drawn > space.initSketchRandomDepth then space.initSketchRandomDepth - totalSteps
  else drawn

/-- The `while` of `GetRandomPrunedInitialSketch`, which also stops once `total_steps` reaches
`init_sketch_random_depth_`. -/
def randomPrunedLoop :
    FrontierBuffers (SearchState Schedule Rule) → Nat → List String → Stream' Nat →
      Stream' (List Rule) × Stream' (Stream' Bool) → FrontierBuffers (SearchState Schedule Rule)
  | buffers, _, [], _, _ => buffers
  | buffers, totalSteps, blockName :: rest, stepDraws, callDraws =>
      if blockName ≠ "" ∧ totalSteps < space.initSketchRandomDepth then
        let steps := space.clampSteps totalSteps stepDraws.head
        let expanded := expandFrontier (space.randomPrunedCollect blockName steps) [] buffers.cur callDraws
        randomPrunedLoop ⟨expanded.1, buffers.cur⟩ (totalSteps + steps) rest stepDraws.tail expanded.2
      else buffers

/-- `GetRandomPrunedInitialSketch`. -/
def getRandomPrunedInitialSketch (draws : PrunedDraws Rule) : Except String (List (SearchState Schedule Rule)) :=
  let initRules := space.sketchRules.dropLast
  if initRules.length > 0 then
    .ok (space.randomPrunedLoop ⟨[⟨space.initSchedule, []⟩], []⟩ 0 draws.blocks draws.steps
      (draws.ruleSamplers, draws.pruneDraws)).next
  else .error "number of init rules cannot be 0"

/-! ## What the loops return -/

/-- The frontier after each block, as a plain left fold from `frontier`. -/
def rulePrunedFold (initRules : List Rule) (frontier : List (SearchState Schedule Rule))
    (blocks : List String) : List (SearchState Schedule Rule) :=
  blocks.foldl (fun current blockName => space.rulePrunedExpand initRules blockName current) frontier

/-- How many blocks the `while` of `GetRandomPrunedInitialSketch` visits: it stops at the first
`""` and once `total_steps` reaches `init_sketch_random_depth_`. -/
def randomPrunedVisits : Nat → List String → Stream' Nat → Nat
  | _, [], _ => 0
  | totalSteps, blockName :: rest, stepDraws =>
      if blockName ≠ "" ∧ totalSteps < space.initSketchRandomDepth then
        randomPrunedVisits (totalSteps + space.clampSteps totalSteps stepDraws.head) rest stepDraws.tail + 1
      else 0

/-- The frontier after each of `blocks` in turn, from `frontier`, each block expanded with the
steps and draws the random-pruned loop gives it: a left fold that threads the draws. -/
def randomPrunedFold : List (SearchState Schedule Rule) → Nat → List String → Stream' Nat →
    Stream' (List Rule) × Stream' (Stream' Bool) → List (SearchState Schedule Rule)
  | frontier, _, [], _, _ => frontier
  | frontier, totalSteps, blockName :: rest, stepDraws, callDraws =>
      let steps := space.clampSteps totalSteps stepDraws.head
      let expanded := expandFrontier (space.randomPrunedCollect blockName steps) [] frontier callDraws
      randomPrunedFold expanded.1 (totalSteps + steps) rest stepDraws.tail expanded.2

/-- After the loop `*p_states_next` holds the buffer it started with when no block is visited, and
otherwise the fold over all visited blocks but the last. -/
theorem randomPrunedLoop_next :
    ∀ (blocks : List String) (buffers : FrontierBuffers (SearchState Schedule Rule)) (totalSteps : Nat)
      (stepDraws : Stream' Nat) (callDraws : Stream' (List Rule) × Stream' (Stream' Bool)),
      (space.randomPrunedLoop buffers totalSteps blocks stepDraws callDraws).next =
        if space.randomPrunedVisits totalSteps blocks stepDraws = 0 then buffers.next
        else space.randomPrunedFold buffers.cur totalSteps
          (blocks.take (space.randomPrunedVisits totalSteps blocks stepDraws - 1)) stepDraws callDraws
  | [], _, _, _, _ => rfl
  | blockName :: rest, buffers, totalSteps, stepDraws, callDraws => by
      simp only [randomPrunedLoop, randomPrunedVisits]
      split
      · rw [randomPrunedLoop_next rest, if_neg (Nat.add_one_ne_zero _), Nat.add_sub_cancel]
        cases space.randomPrunedVisits _ rest stepDraws.tail <;> rfl
      · rfl

/-- **`GetRandomPrunedInitialSketch` returns the frontier before the last visited block**, for every
draw: the fold over all visited blocks but the last, and the empty vector when no block is
visited. -/
theorem getRandomPrunedInitialSketch_previous (initRulesExist : space.sketchRules.dropLast.length > 0)
    (draws : PrunedDraws Rule) :
    space.getRandomPrunedInitialSketch draws =
      .ok (if space.randomPrunedVisits 0 draws.blocks draws.steps = 0 then []
        else space.randomPrunedFold [⟨space.initSchedule, []⟩] 0
          (draws.blocks.take (space.randomPrunedVisits 0 draws.blocks draws.steps - 1)) draws.steps
          (draws.ruleSamplers, draws.pruneDraws)) := by
  simp only [getRandomPrunedInitialSketch, if_pos initRulesExist]
  rw [randomPrunedLoop_next]

theorem getRandomPrunedInitialSketch_previous_two_blocks :
    (countingSpace 6).sketchRules.dropLast.length > 0 ∧
      (countingSpace 6).getRandomPrunedInitialSketch
          ⟨["b", "b"], Stream'.const 1, Stream'.const [0], Stream'.const (Stream'.const true)⟩ =
        .ok (if (countingSpace 6).randomPrunedVisits 0 ["b", "b"] (Stream'.const 1) = 0 then []
          else (countingSpace 6).randomPrunedFold [⟨0, []⟩] 0
            (["b", "b"].take ((countingSpace 6).randomPrunedVisits 0 ["b", "b"] (Stream'.const 1) - 1))
            (Stream'.const 1) (Stream'.const [0], Stream'.const (Stream'.const true))) :=
  ⟨by decide, getRandomPrunedInitialSketch_previous (countingSpace 6) (by decide)
    ⟨["b", "b"], Stream'.const 1, Stream'.const [0], Stream'.const (Stream'.const true)⟩⟩

/-- When every state expands to at least one state, the inner `for` appends at least one state
per state of the frontier. -/
theorem expandFrontier_length_ge {State Draws : Type} (collect : Draws → State → List State × Draws)
    (grows : ∀ draws state, (collect draws state).1 ≠ []) :
    ∀ (next frontier : List State) (draws : Draws),
      next.length + frontier.length ≤ (expandFrontier collect next frontier draws).1.length
  | next, [], draws => Nat.le_refl _
  | next, state :: rest, draws => by
      have added := List.length_pos.mpr (grows draws state)
      have later := expandFrontier_length_ge collect grows (next ++ (collect draws state).1) rest
        (collect draws state).2
      simp only [expandFrontier, List.length_cons, List.length_append] at later ⊢
      omega

/-- When every state expands to at least one state, the inner `for` turns a nonempty frontier into
a nonempty one. -/
theorem expandFrontier_ne_nil {State Draws : Type} (collect : Draws → State → List State × Draws)
    (grows : ∀ draws state, (collect draws state).1 ≠ []) {frontier : List State} (nonEmpty : frontier ≠ [])
    (draws : Draws) : (expandFrontier collect [] frontier draws).1 ≠ [] :=
  List.ne_nil_of_length_pos (Nat.lt_of_lt_of_le (List.length_pos.mpr nonEmpty)
    (by simpa using expandFrontier_length_ge collect grows [] frontier draws))

/-- Under productive rules the rule-pruned expansion of a nonempty frontier is nonempty. -/
theorem rulePrunedExpand_ne_nil (expands : space.ExpandsEverywhere) (initRules : List Rule) (blockName : String)
    {frontier : List (SearchState Schedule Rule)} (nonEmpty : frontier ≠ []) :
    space.rulePrunedExpand initRules blockName frontier ≠ [] := by
  refine expandFrontier_ne_nil _ (fun _ state => ?_) nonEmpty ()
  exact collectStateTransfer_ne_nil expands blockName true state _ 0 _

/-- Under productive rules both buffers of the rule-pruned loop stay nonempty. -/
theorem rulePrunedLoop_ne_nil (expands : space.ExpandsEverywhere) (initRules : List Rule) :
    ∀ (blocks : List String) (buffers : FrontierBuffers (SearchState Schedule Rule)),
      buffers.cur ≠ [] → buffers.next ≠ [] →
        (space.rulePrunedLoop initRules buffers blocks).next ≠ []
  | [], _, _, next => next
  | blockName :: rest, buffers, cur, next => by
      simp only [rulePrunedLoop]
      split
      · exact next
      · exact rulePrunedLoop_ne_nil expands initRules rest _ (space.rulePrunedExpand_ne_nil expands _ _ cur) cur

/-- Under productive rules, with at least one init rule and a named last block, the rule-pruned
sketch is a nonempty vector. -/
theorem getRulePrunedInitialSketch_ne_nil (expands : space.ExpandsEverywhere)
    (initRulesExist : 1 < space.sketchRules.length)
    (lastNamed : ∃ name, (space.getAllBlocks space.initSchedule).getLast? = some name ∧ name ≠ "") :
    ∃ sketches, space.getRulePrunedInitialSketch = .ok sketches ∧ sketches ≠ [] := by
  obtain ⟨name, last, named⟩ := lastNamed
  obtain ⟨rest, reversed⟩ : ∃ rest, (space.getAllBlocks space.initSchedule).reverse = name :: rest := by
    rw [List.getLast?_eq_head?_reverse] at last
    cases reversedEq : (space.getAllBlocks space.initSchedule).reverse with
    | nil => rw [reversedEq] at last; cases last
    | cons first rest => rw [reversedEq] at last; cases last; exact ⟨rest, rfl⟩
  refine ⟨_, ?_, space.rulePrunedLoop_ne_nil expands space.sketchRules.dropLast rest
    ⟨space.rulePrunedExpand space.sketchRules.dropLast name [⟨space.initSchedule, []⟩], [⟨space.initSchedule, []⟩]⟩
    (space.rulePrunedExpand_ne_nil expands _ _ (List.cons_ne_nil _ _)) (List.cons_ne_nil _ _)⟩
  have initRules : space.sketchRules.dropLast.length > 0 := by
    rw [List.length_dropLast]
    omega
  simp only [getRulePrunedInitialSketch, if_pos initRules, traversalSampler, reversed, rulePrunedLoop,
    if_neg named]

/-- Under productive rules the random-pruned expansion of a nonempty frontier is nonempty. -/
theorem randomPrunedExpand_ne_nil (expands : space.ExpandsEverywhere) (blockName : String) (steps : Nat)
    {frontier : List (SearchState Schedule Rule)} (nonEmpty : frontier ≠ [])
    (callDraws : Stream' (List Rule) × Stream' (Stream' Bool)) :
    (expandFrontier (space.randomPrunedCollect blockName steps) [] frontier callDraws).1 ≠ [] :=
  expandFrontier_ne_nil (space.randomPrunedCollect blockName steps)
    (fun _ state => collectStateTransfer_ne_nil expands blockName false state _ _ _) nonEmpty callDraws

/-- Under productive rules both buffers of the random-pruned loop stay nonempty. -/
theorem randomPrunedLoop_ne_nil (expands : space.ExpandsEverywhere) :
    ∀ (blocks : List String) (buffers : FrontierBuffers (SearchState Schedule Rule)) (totalSteps : Nat)
      (stepDraws : Stream' Nat) (callDraws : Stream' (List Rule) × Stream' (Stream' Bool)),
      buffers.cur ≠ [] → buffers.next ≠ [] →
        (space.randomPrunedLoop buffers totalSteps blocks stepDraws callDraws).next ≠ []
  | [], _, _, _, _, _, next => next
  | blockName :: rest, buffers, totalSteps, stepDraws, callDraws, cur, next => by
      simp only [randomPrunedLoop]
      split
      · exact randomPrunedLoop_ne_nil expands rest _ _ _ _
          (space.randomPrunedExpand_ne_nil expands blockName _ cur callDraws) cur
      · exact next

/-- Under productive rules, with at least one init rule and a positive depth, the random-pruned
sketch is a nonempty vector as soon as the first block drawn has a name. -/
theorem getRandomPrunedInitialSketch_ne_nil (expands : space.ExpandsEverywhere)
    (initRulesExist : 1 < space.sketchRules.length) (deep : 0 < space.initSketchRandomDepth)
    {draws : PrunedDraws Rule} (firstNamed : ∃ first rest, draws.blocks = first :: rest ∧ first ≠ "") :
    ∃ sketches, space.getRandomPrunedInitialSketch draws = .ok sketches ∧ sketches ≠ [] := by
  obtain ⟨first, rest, blocks, named⟩ := firstNamed
  have initRules : space.sketchRules.dropLast.length > 0 := by
    rw [List.length_dropLast]
    omega
  refine ⟨(space.randomPrunedLoop ⟨[⟨space.initSchedule, []⟩], []⟩ 0 draws.blocks draws.steps
    (draws.ruleSamplers, draws.pruneDraws)).next, by simp only [getRandomPrunedInitialSketch, if_pos initRules], ?_⟩
  rw [blocks, randomPrunedLoop, if_pos ⟨named, deep⟩]
  exact space.randomPrunedLoop_ne_nil expands rest _ _ _ _
    (space.randomPrunedExpand_ne_nil expands first _ (List.cons_ne_nil _ _) _) (List.cons_ne_nil _ _)

end SearchSpace

/-! ## The returned buffer -/

/-- On one block both loops return the unexpanded `[init_state]`, although the frontier after the
block is its successor. -/
theorem prunedSketch_returns_stale_buffer :
    (countingSpace 6).getRulePrunedInitialSketch = .ok [⟨0, []⟩] ∧
      (countingSpace 6).rulePrunedFold [0] [⟨0, []⟩] ["b"] = [⟨1, []⟩] ∧
      (countingSpace 6).getRandomPrunedInitialSketch
          ⟨["b"], Stream'.const 1, Stream'.const [0], Stream'.const (Stream'.const true)⟩ = .ok [⟨0, []⟩] ∧
      ((countingSpace 6).collectStateTransfer ⟨0, []⟩ "b" [0] 1 false (Stream'.const true)).1 = [⟨1, []⟩] :=
  ⟨rfl, rfl, rfl, rfl⟩

/-! ## A drawn count of zero -/

/-- A draw of `0` is charged nothing, yet `CollectStateTransfer` reads `steps = 0` as "no bound"
and runs a round; with the depth budget `1`, three blocks that each draw `0` return a sketch
that went through two rule rounds. -/
theorem randomPrunedSketch_zero_draw_unbounded :
    (countingSpace 1).clampSteps 0 0 = 0 ∧
      ((countingSpace 1).collectStateTransfer ⟨0, []⟩ "b" [0] 0 false (Stream'.const true)).1 = [⟨1, []⟩] ∧
      (countingSpace 1).getRandomPrunedInitialSketch
          ⟨["b", "b", "b"], Stream'.const 0, Stream'.const [0], Stream'.const (Stream'.const true)⟩ =
        .ok [⟨2, []⟩] :=
  ⟨rfl, rfl, rfl⟩

end CinnAutoSchedule.AutoSchedule
