import CinnAutoSchedule.SearchSpace.RandomScheduleMutate

/-!
Contract: `SearchSpace::GetRandomInitialSketch`, and the applicable-rules invariant over its runs.

Each round of the `while` builds a root state holding all of `sketch_rules_`, mutates it at most
`init_sketch_random_depth_` times, stopping after a mutation that leaves no rule, and pushes the
result. One state is pushed per round, so the loop runs `num` rounds. `rand()` is a stream,
drawn from only by the mutations that sample. `num` is a `Nat`: a negative `int num` would be
converted to a huge `size_t` by `result.size() < num`, a case the model leaves out.

Owns: the model of the function, and that every state of every run keeps its rules a sublist of
`sketch_rules_`, each mutation's rules a sublist of its predecessor's.
-/

set_option autoImplicit false

namespace CinnAutoSchedule.AutoSchedule

namespace SearchSpace

variable {Schedule Rule : Type} (space : SearchSpace Schedule Rule)

/-- The inner `for`: at most `depth` mutations, stopping after one that leaves no applicable
rule. -/
def mutateUpTo : Nat → SearchState Schedule Rule → Stream' Nat →
    Option (SearchState Schedule Rule × Stream' Nat)
  | 0, state, rand => some (state, rand)
  | depth + 1, state, rand =>
      match space.randomScheduleMutate state rand with
      | none => none
      | some (state, rand) =>
          if state.applicableRules.isEmpty then some (state, rand) else mutateUpTo depth state rand

/-- The `while`: `remaining` more rounds, each pushing one mutated root state. -/
def randomSketchLoop : Nat → List (SearchState Schedule Rule) → Stream' Nat →
    Option (List (SearchState Schedule Rule))
  | 0, result, _ => some result
  | remaining + 1, result, rand =>
      match space.mutateUpTo space.initSketchRandomDepth ⟨space.initSchedule, space.sketchRules⟩ rand with
      | none => none
      | some (state, rand) => randomSketchLoop remaining (result ++ [state]) rand

/-- `GetRandomInitialSketch(num)`. -/
def getRandomInitialSketch (num : Nat) (rand : Stream' Nat) : Option (List (SearchState Schedule Rule)) :=
  space.randomSketchLoop num [] rand

/-- The mutations of one round only remove rules. -/
theorem mutateUpTo_sublist :
    ∀ (depth : Nat) (state : SearchState Schedule Rule) (rand : Stream' Nat)
      {final : SearchState Schedule Rule} {rest : Stream' Nat},
      space.mutateUpTo depth state rand = some (final, rest) →
        final.applicableRules.Sublist state.applicableRules
  | 0, _, _, _, _, done => by cases done; exact List.Sublist.refl _
  | depth + 1, state, rand, final, rest, done => by
      simp only [mutateUpTo] at done
      split at done
      · cases done
      · rename_i mutated drawn mutate
        have shrinks := space.randomScheduleMutate_sublist mutate
        split at done
        · cases done
          exact shrinks
        · exact (mutateUpTo_sublist depth mutated drawn done).trans shrinks

/-- Every state a run returns keeps a sublist of `sketch_rules_`. -/
theorem randomSketchLoop_sublist :
    ∀ (remaining : Nat) (result : List (SearchState Schedule Rule)) (rand : Stream' Nat)
      {sketches : List (SearchState Schedule Rule)},
      (∀ sketch ∈ result, sketch.applicableRules.Sublist space.sketchRules) →
        space.randomSketchLoop remaining result rand = some sketches →
          ∀ sketch ∈ sketches, sketch.applicableRules.Sublist space.sketchRules
  | 0, _, _, _, earlier, done => by cases done; exact earlier
  | remaining + 1, result, rand, sketches, earlier, done => by
      simp only [randomSketchLoop] at done
      split at done
      · cases done
      · rename_i state drawn mutated
        refine randomSketchLoop_sublist remaining _ drawn ?_ done
        intro sketch member
        rcases List.mem_append.mp member with old | new
        · exact earlier sketch old
        · rw [List.mem_singleton.mp new]
          exact space.mutateUpTo_sublist _ _ _ mutated

/-- **The scan of `RandomScheduleMutate`, and the applicable rules over runs.** For every state,
`Init` runs exactly on the rules up to the first that skips all rules; the rules kept are none
if some rule skips all rules, and otherwise the list without exactly the rules that skip
themselves, in order; a mutation returns those rules, and when every rule reports
`kCannotApply` it returns the state unchanged. In every run of `GetRandomInitialSketch`, each
mutation's rules are a sublist of its predecessor's and each returned state's rules a sublist
of `sketch_rules_`. -/
theorem randomScheduleMutate_rule_scan :
    (∀ state : SearchState Schedule Rule,
      (space.ruleScan state).evaluated =
          throughSkipAll (space.rules.init · state.irSchedule) state.applicableRules ∧
        (space.ruleScan state).kept =
          (if state.applicableRules.any (space.rules.init · state.irSchedule == .kApplyAndSkipAllRules)
            then []
            else state.applicableRules.filter
              (space.rules.init · state.irSchedule != .kApplyAndSkipThisRule)) ∧
        (∀ rand mutated rest, space.randomScheduleMutate state rand = some (mutated, rest) →
          mutated.applicableRules = (space.ruleScan state).kept ∧
            mutated.applicableRules.Sublist state.applicableRules) ∧
        ((∀ rule ∈ state.applicableRules, space.rules.init rule state.irSchedule = .kCannotApply) →
          ∀ rand, space.randomScheduleMutate state rand = some (state, rand))) ∧
    (∀ num rand sketches, space.getRandomInitialSketch num rand = some sketches →
      ∀ sketch ∈ sketches, sketch.applicableRules.Sublist space.sketchRules) := by
  refine ⟨fun state => ⟨?_, ?_, ?_, ?_⟩, ?_⟩
  · simp [ruleScan, scanRules_evaluated]
  · simp [ruleScan, scanRules_kept]
  · intro rand mutated rest mutate
    exact ⟨space.randomScheduleMutate_applicableRules mutate, space.randomScheduleMutate_sublist mutate⟩
  · exact fun cannot rand => space.randomScheduleMutate_of_cannotApply state rand cannot
  · intro num rand sketches done
    exact space.randomSketchLoop_sublist num [] rand (by simp) done

end SearchSpace

end CinnAutoSchedule.AutoSchedule
