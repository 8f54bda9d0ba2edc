import CinnAutoSchedule.SearchSpace.InitialSketch

/-!
Contract: where the states of the pruned sketches come from, for every run and every draw.

A state of a pruned sketch is `init_state` or a successor that `ApplyOnBlock` returned for such a
state, under a rule of `init_rules` (all of `sketch_rules_` but the last), on a block the state
holds and that the rule can apply to (`BlockDerived`). Each layer of `CollectStateTransfer`, each
frontier of the two block loops and each vector `GetInitialSketch` collects only holds such
states: pruning only drops states, and the vector of `GetInitialSketch` only takes states from
the strategy's sketches.

Owns: `BlockDerived` and its preservation by a round, a call of `CollectStateTransfer`, a
frontier expansion, both block loops, both pruned sketches and the loop of `GetInitialSketch`.
The probabilistic rule samplers of `random_prune` are assumed to yield rules of `init_rules`.

Does not own: which states are derived (the rules are an arbitrary `AutoGenRule` record).
-/

set_option autoImplicit false

namespace CinnAutoSchedule.AutoSchedule

/-- The inner `for` of both loops keeps a property of states, and one of the draws, that each
expansion keeps. -/
theorem expandFrontier_invariant {State Draws : Type} (Good : State → Prop) (GoodDraws : Draws → Prop)
    (collect : Draws → State → List State × Draws)
    (keeps : ∀ draws state, GoodDraws draws → Good state →
      GoodDraws (collect draws state).2 ∧ ∀ successor ∈ (collect draws state).1, Good successor) :
    ∀ (next frontier : List State) (draws : Draws), GoodDraws draws →
      (∀ state ∈ next, Good state) → (∀ state ∈ frontier, Good state) →
        GoodDraws (expandFrontier collect next frontier draws).2 ∧
          ∀ state ∈ (expandFrontier collect next frontier draws).1, Good state
  | next, [], draws, goodDraws, goodNext, _ => ⟨goodDraws, goodNext⟩
  | next, state :: rest, draws, goodDraws, goodNext, goodFrontier => by
      obtain ⟨laterDraws, successors⟩ := keeps draws state goodDraws (goodFrontier state (List.mem_cons_self _ _))
      exact expandFrontier_invariant Good GoodDraws collect keeps (next ++ (collect draws state).1) rest _
        laterDraws (fun kept member => (List.mem_append.mp member).elim (goodNext kept) (successors kept))
        (fun later member => goodFrontier later (List.mem_cons_of_mem _ member))

namespace SearchSpace

variable {Schedule Rule : Type} (space : SearchSpace Schedule Rule)

/-- `state` is `init_state`, or a successor that `ApplyOnBlock` returned for such a state under a
rule of `rules`, on a block the state holds and that the rule can apply to. -/
inductive BlockDerived (rules : List Rule) : SearchState Schedule Rule → Prop
  | initial : BlockDerived rules ⟨space.initSchedule, []⟩
  | applyOnBlock {state successor : SearchState Schedule Rule} {blockName : String} {rule : Rule} :
      BlockDerived rules state → rule ∈ rules → space.applies blockName rule state = true →
      successor ∈ space.rules.applyOnBlock rule state blockName → BlockDerived rules successor

section Derived

variable {space} {rules : List Rule} (blockName : String) (pruneByRule : Bool)

/-- A round of the design keeps only states of the layer and successors of states of the layer. -/
theorem roundResult_derived {rule : Rule} (allowed : rule ∈ rules) {layer : List (SearchState Schedule Rule)}
    (pruned : List Bool) (derived : ∀ state ∈ layer, space.BlockDerived rules state) :
    ∀ state ∈ space.roundResult blockName rule layer pruned, space.BlockDerived rules state := by
  intro state member
  rcases List.mem_append.mp member with kept | successor
  · obtain ⟨⟨original, _⟩, inZip, rfl⟩ := List.mem_map.mp kept
    exact derived original (List.of_mem_zip (List.mem_filter.mp inZip).1).1
  · obtain ⟨parent, applied, produced⟩ := List.mem_flatMap.mp successor
    obtain ⟨inLayer, applies⟩ := List.mem_filter.mp applied
    exact .applyOnBlock (derived parent inLayer) allowed applies produced

/-- The design's rounds keep the property when every rule they run is in `rules`. -/
theorem transferRounds_derived {ruleList : List Rule} {layer final : List (SearchState Schedule Rule)}
    (rounds : space.TransferRounds blockName pruneByRule ruleList layer final)
    (allowed : ∀ rule ∈ ruleList, rule ∈ rules) (derived : ∀ state ∈ layer, space.BlockDerived rules state) :
    ∀ state ∈ final, space.BlockDerived rules state := by
  induction rounds with
  | done => exact derived
  | round round _ laterDerived =>
      obtain ⟨pruned, _, rfl⟩ := round
      exact laterDerived (fun rule member => allowed rule (List.mem_cons_of_mem _ member))
        (roundResult_derived blockName (allowed _ (List.mem_cons_self _ _)) pruned derived)

/-- A call of `CollectStateTransfer` on a derived state, with a rule sampler that yields rules of
`rules`, returns derived states only. -/
theorem collectStateTransfer_derived {state : SearchState Schedule Rule} (derived : space.BlockDerived rules state)
    {ruleSampler : List Rule} (allowed : ∀ rule ∈ ruleSampler, rule ∈ rules) (steps : Nat) (draws : Stream' Bool) :
    ∀ successor ∈ (space.collectStateTransfer state blockName ruleSampler steps pruneByRule draws).1,
      space.BlockDerived rules successor :=
  transferRounds_derived blockName pruneByRule (space.transferLoop_rounds blockName steps pruneByRule [state] 0
    ruleSampler draws) (fun rule member => allowed rule (List.mem_of_mem_take member))
    (fun _ member => (List.mem_singleton.mp member) ▸ derived)

end Derived

/-! ## The block loops -/

/-- The rule-pruned expansion of a frontier of derived states holds derived states only. -/
theorem rulePrunedExpand_derived (initRules : List Rule) (blockName : String)
    {frontier : List (SearchState Schedule Rule)} (derived : ∀ state ∈ frontier, space.BlockDerived initRules state) :
    ∀ state ∈ space.rulePrunedExpand initRules blockName frontier, space.BlockDerived initRules state :=
  (expandFrontier_invariant (space.BlockDerived initRules) (fun _ => True)
    (fun (_ : Unit) state => ((space.collectStateTransfer state blockName (traversalSampler initRules) 0 true
      (Stream'.const false)).1, ()))
    (fun _ _ _ derived => ⟨trivial, collectStateTransfer_derived blockName true derived (fun _ member => member) 0 _⟩)
    [] frontier () trivial (List.forall_mem_nil _) derived).2

/-- Every buffer of the rule-pruned loop holds derived states only. -/
theorem rulePrunedLoop_derived (initRules : List Rule) :
    ∀ (blocks : List String) (buffers : FrontierBuffers (SearchState Schedule Rule)),
      (∀ state ∈ buffers.cur, space.BlockDerived initRules state) →
      (∀ state ∈ buffers.next, space.BlockDerived initRules state) →
        ∀ state ∈ (space.rulePrunedLoop initRules buffers blocks).next, space.BlockDerived initRules state
  | [], _, _, next => next
  | blockName :: rest, buffers, cur, next => by
      simp only [rulePrunedLoop]
      split
      · exact next
      · exact rulePrunedLoop_derived initRules rest _ (space.rulePrunedExpand_derived initRules blockName cur) cur

/-- Every rule sampler left in the draws of the random-pruned loop yields rules of `rules` only. -/
def SamplersFrom (rules : List Rule) (callDraws : Stream' (List Rule) × Stream' (Stream' Bool)) : Prop :=
  ∀ call, ∀ rule ∈ callDraws.1.get call, rule ∈ rules

/-- Every buffer of the random-pruned loop holds derived states only, when its rule samplers
yield rules of `rules`. -/
theorem randomPrunedLoop_derived (initRules : List Rule) :
    ∀ (blocks : List String) (buffers : FrontierBuffers (SearchState Schedule Rule)) (totalSteps : Nat)
      (stepDraws : Stream' Nat) (callDraws : Stream' (List Rule) × Stream' (Stream' Bool)),
      SamplersFrom initRules callDraws →
      (∀ state ∈ buffers.cur, space.BlockDerived initRules state) →
      (∀ state ∈ buffers.next, space.BlockDerived initRules state) →
        ∀ state ∈ (space.randomPrunedLoop buffers totalSteps blocks stepDraws callDraws).next,
          space.BlockDerived initRules state
  | [], _, _, _, _, _, _, next => next
  | blockName :: rest, buffers, totalSteps, stepDraws, callDraws, samplers, cur, next => by
      simp only [randomPrunedLoop]
      split
      · obtain ⟨laterSamplers, expanded⟩ := expandFrontier_invariant (space.BlockDerived initRules)
          (SamplersFrom initRules) (space.randomPrunedCollect blockName (space.clampSteps totalSteps stepDraws.head))
          (fun draws state fromRules derived => ⟨fun call => fromRules (call + 1),
            collectStateTransfer_derived blockName false derived (fromRules 0) _ _⟩)
          [] buffers.cur callDraws samplers (List.forall_mem_nil _) cur
        exact randomPrunedLoop_derived initRules rest _ _ _ _ laterSamplers expanded cur
      · exact next

/-- The rule-pruned sketch holds derived states only. -/
theorem getRulePrunedInitialSketch_derived {sketches : List (SearchState Schedule Rule)}
    (done : space.getRulePrunedInitialSketch = .ok sketches) :
    ∀ state ∈ sketches, space.BlockDerived space.sketchRules.dropLast state := by
  simp only [getRulePrunedInitialSketch] at done
  split at done
  · cases done
    exact space.rulePrunedLoop_derived _ _ _ (fun _ member => (List.mem_singleton.mp member) ▸ .initial)
      (List.forall_mem_nil _)
  · cases done

/-- The random-pruned sketch holds derived states only, when its rule samplers yield rules of
`init_rules`. -/
theorem getRandomPrunedInitialSketch_derived {draws : PrunedDraws Rule}
    (fromInitRules : ∀ call, ∀ rule ∈ draws.ruleSamplers.get call, rule ∈ space.sketchRules.dropLast)
    {sketches : List (SearchState Schedule Rule)} (done : space.getRandomPrunedInitialSketch draws = .ok sketches) :
    ∀ state ∈ sketches, space.BlockDerived space.sketchRules.dropLast state := by
  simp only [getRandomPrunedInitialSketch] at done
  split at done
  · cases done
    exact space.randomPrunedLoop_derived _ _ _ _ _ _ fromInitRules
      (fun _ member => (List.mem_singleton.mp member) ▸ .initial)
      (List.forall_mem_nil _)
  · cases done

/-! ## The loop of `GetInitialSketch` -/

/-- Pushing into a vector shorter than `num` only takes states of the vector and the sketches. -/
theorem pushUntil_derived {rules : List Rule} (num : Nat) {result sketches : List (SearchState Schedule Rule)}
    (below : result.length < num) (derivedResult : ∀ state ∈ result, space.BlockDerived rules state)
    (derivedSketches : ∀ state ∈ sketches, space.BlockDerived rules state) :
    ∀ state ∈ pushUntil num result sketches, space.BlockDerived rules state := by
  rw [pushUntil_eq_take num result sketches below]
  intro state member
  exact (List.mem_append.mp (List.mem_of_mem_take member)).elim (derivedResult state) (derivedSketches state)

/-- Every vector the loop of `GetInitialSketch` returns holds derived states only, when the rule
samplers of every `random_prune` round yield rules of `init_rules`. -/
theorem initialSketchLoop_derived (num : Nat) (strategy : String) :
    ∀ (fuel : Nat) (result : List (SearchState Schedule Rule)) (randomDraws : Stream' (PrunedDraws Rule))
      {collected : List (SearchState Schedule Rule)},
      (∀ round call, ∀ rule ∈ ((randomDraws.get round).ruleSamplers.get call), rule ∈ space.sketchRules.dropLast) →
      (∀ state ∈ result, space.BlockDerived space.sketchRules.dropLast state) →
      space.initialSketchLoop num strategy fuel result randomDraws = some (.ok collected) →
        ∀ state ∈ collected, space.BlockDerived space.sketchRules.dropLast state
  | 0, result, _, collected, _, derived, done => by
      simp only [initialSketchLoop] at done
      split at done
      · cases done
      · cases done
        exact derived
  | fuel + 1, result, randomDraws, collected, fromInitRules, derived, done => by
      simp only [initialSketchLoop] at done
      split at done
      · rename_i below
        split at done
        · cases done
        · rename_i sketches call
          have derivedSketches : ∀ state ∈ sketches.reverse, space.BlockDerived space.sketchRules.dropLast state := by
            intro state member
            rw [List.mem_reverse] at member
            simp only [initialSketchCall] at call
            split at call
            · exact space.getRulePrunedInitialSketch_derived call state member
            · split at call
              · exact space.getRandomPrunedInitialSketch_derived (fromInitRules 0) call state member
              · cases call
          exact initialSketchLoop_derived num strategy fuel _ _ (fun round => fromInitRules (round + 1))
            (space.pushUntil_derived num below derived derivedSketches) done
      · cases done
        exact derived

/-- **Provenance of the initial sketches.** For every `num`, strategy, fuel and draws whose rule
samplers yield rules of `init_rules`, every state of the vector `GetInitialSketch(num, strategy)`
returns is `init_state` or was produced from such a state by `ApplyOnBlock` of a rule of
`init_rules`, on a block the state holds and that the rule can apply to. In particular the last
rule of `sketch_rules_` never produces a state of an initial sketch, unless it also occurs
earlier in the list. -/
theorem getInitialSketch_blockDerived {fuel num : Nat} {strategy : String} {randomDraws : Stream' (PrunedDraws Rule)}
    {collected : List (SearchState Schedule Rule)}
    (fromInitRules : ∀ round call, ∀ rule ∈ ((randomDraws.get round).ruleSamplers.get call),
      rule ∈ space.sketchRules.dropLast)
    (done : space.getInitialSketch fuel num strategy randomDraws = some (.ok collected)) :
    ∀ state ∈ collected, space.BlockDerived space.sketchRules.dropLast state :=
  space.initialSketchLoop_derived num strategy fuel [] randomDraws fromInitRules
    (List.forall_mem_nil _) done

theorem getInitialSketch_blockDerived_counting :
    (∀ round call, ∀ rule ∈ (((Stream'.const ⟨["b", "b"], Stream'.const 1, Stream'.const [0],
        Stream'.const (Stream'.const true)⟩ : Stream' (PrunedDraws Nat)).get round).ruleSamplers.get call),
        rule ∈ (countingSpace 6).sketchRules.dropLast) ∧
      (countingSpace 6).getInitialSketch 1 1 "random_prune" (Stream'.const ⟨["b", "b"], Stream'.const 1,
        Stream'.const [0], Stream'.const (Stream'.const true)⟩) = some (.ok [⟨1, []⟩]) ∧
      ∀ state ∈ [(⟨1, []⟩ : SearchState Nat Nat)],
        (countingSpace 6).BlockDerived (countingSpace 6).sketchRules.dropLast state :=
  have fromInitRules : ∀ round call, ∀ rule ∈ (((Stream'.const ⟨["b", "b"], Stream'.const 1, Stream'.const [0],
      Stream'.const (Stream'.const true)⟩ : Stream' (PrunedDraws Nat)).get round).ruleSamplers.get call),
      rule ∈ (countingSpace 6).sketchRules.dropLast := fun _ _ _ member => member
  have done : (countingSpace 6).getInitialSketch 1 1 "random_prune" (Stream'.const ⟨["b", "b"], Stream'.const 1,
      Stream'.const [0], Stream'.const (Stream'.const true)⟩) = some (.ok [⟨1, []⟩]) := rfl
  ⟨fromInitRules, done, (countingSpace 6).getInitialSketch_blockDerived fromInitRules done⟩

end SearchSpace

end CinnAutoSchedule.AutoSchedule
