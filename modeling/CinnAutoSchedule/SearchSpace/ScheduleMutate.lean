import CinnAutoSchedule.SearchSpace.MutationSafety

/-!
Contract: `SearchSpace::GetScheduleMutate`, the mutation a search calls on the states it holds,
and what every state a search holds keeps, from the random initial sketches on and over any
sequence of calls with any draws.

`has_manual_schedule` is the constant `false`, so `GetScheduleMutate` is `RandomScheduleMutate`
followed, under `FLAGS_auto_schedule_use_cost_model`, by writing the cost model's prediction for
the new schedule into `predicted_cost`.

`SearchState` is a shared handle (`common::Shared<_SearchState_>`): `SearchState ret(state)` is a
second handle to the caller's object, the rule is applied to `ret->ir_schedule` in place, the
cost is written through `ret`, and `ret` is returned. A mutation therefore changes the object
behind every handle to it, and without the flag the cost is the one the object had.
`getScheduleMutate` is the value a call writes into the object; a search is modelled over the
objects behind its handles (`StateHeap`), a handle being a position.

Owns: `CostedState`, the model of `GetScheduleMutate` and `ManualScheduleMutate`, the calls of a
search on shared states (`SearchCall`, `execCall`, `runSearch`); the values an object of a search
takes (`SearchReachable`), and that every object of a search takes only these, with at most as
many mutations as calls made on its handle; their invariant (`SearchInvariant`): rules from
`sketch_rules_`, a schedule reached by at most `init_sketch_random_depth_` valid applications
plus one per mutation of the handle, and a cost that is `NOT_INIT_COST` or the prediction for the
object's own schedule; and that when every rule reports exactly one position no mutation of a
search is undefined.

Does not own: the cost model (`predict` is an arbitrary function of the schedule) and the
policy by which a search chooses the handles it mutates (every sequence of calls is covered).
-/

set_option autoImplicit false

namespace CinnAutoSchedule.AutoSchedule

/-- A `SearchState` with its `predicted_cost`, the field that only `GetScheduleMutate` writes. -/
structure CostedState (Schedule Rule Cost : Type) where
  searchState : SearchState Schedule Rule
  predictedCost : Cost
deriving DecidableEq, Repr

/-- The objects behind the `SearchState` handles of a search; a handle is a position. -/
structure StateHeap (Schedule Rule Cost : Type) where
  objects : List (CostedState Schedule Rule Cost)
deriving DecidableEq, Repr

/-- A call a search makes, with its `rand()` draws: `GetRandomInitialSketch(num)`, or
`GetScheduleMutate(state, cost_model)` on the state behind `handle`. -/
inductive SearchCall where
  | getRandomInitialSketch (num : Nat) (rand : Stream' Nat)
  | getScheduleMutate (handle : Nat) (rand : Stream' Nat)

/-- Whether a call mutates the object behind `handle`. -/
def SearchCall.mutates (handle : Nat) : SearchCall → Bool
  | .getRandomInitialSketch _ _ => false
  | .getScheduleMutate target _ => target == handle

/-- How many calls of a search mutate the object behind `handle`. -/
def mutationsOf (handle : Nat) (calls : List SearchCall) : Nat :=
  calls.countP (·.mutates handle)

@[simp] theorem mutationsOf_nil (handle : Nat) : mutationsOf handle [] = 0 := rfl

theorem mutationsOf_cons (handle : Nat) (call : SearchCall) (calls : List SearchCall) :
    mutationsOf handle (call :: calls) = mutationsOf handle calls + if call.mutates handle then 1 else 0 :=
  List.countP_cons _ _ _

namespace SearchSpace

variable {Schedule Rule Cost : Type} (space : SearchSpace Schedule Rule)

/-- `SearchSpace::ManualScheduleMutate`: not implemented, it returns its argument. -/
def manualScheduleMutate (state : CostedState Schedule Rule Cost) : CostedState Schedule Rule Cost :=
  state

/-- `GetScheduleMutate(state, cost_model)`. `predict` is `cost_model.Predict` on the module of a
schedule, and `useCostModel` is `FLAGS_auto_schedule_use_cost_model`. -/
def getScheduleMutate (predict : Schedule → Cost) (useCostModel : Bool)
    (state : CostedState Schedule Rule Cost) (rand : Stream' Nat) :
    Option (CostedState Schedule Rule Cost × Stream' Nat) :=
  let hasManualSchedule := false
  if hasManualSchedule then some (manualScheduleMutate state, rand)
  else
    (space.randomScheduleMutate state.searchState rand).map fun (ret, rest) =>
      (⟨ret, if useCostModel then predict ret.irSchedule else state.predictedCost⟩, rest)

/-- A mutation is `RandomScheduleMutate` on the state, with the cost written under the flag. -/
theorem getScheduleMutate_eq_some {predict : Schedule → Cost} {useCostModel : Bool}
    {state mutated : CostedState Schedule Rule Cost} {rand rest : Stream' Nat}
    (mutate : space.getScheduleMutate predict useCostModel state rand = some (mutated, rest)) :
    ∃ ret, space.randomScheduleMutate state.searchState rand = some (ret, rest) ∧
      mutated = ⟨ret, if useCostModel then predict ret.irSchedule else state.predictedCost⟩ := by
  simp only [getScheduleMutate, Bool.false_eq_true, if_false, Option.map_eq_some'] at mutate
  obtain ⟨⟨ret, drawn⟩, random, written⟩ := mutate
  cases written
  exact ⟨ret, random, rfl⟩

/-! ## The values of a state -/

section Search

variable (predict : Schedule → Cost) (useCostModel : Bool) (notInitCost : Cost)

/-- The values the object behind a handle of a search takes after `mutations` calls of
`GetScheduleMutate` on it: a state of `GetRandomInitialSketch(num)`, created with
`predicted_cost = NOT_INIT_COST`, or the value a mutation writes into such an object, with any
draws. -/
inductive SearchReachable : Nat → CostedState Schedule Rule Cost → Prop
  | sketch {num : Nat} {rand : Stream' Nat} {sketches : List (SearchState Schedule Rule)}
      {sketch : SearchState Schedule Rule} :
      space.getRandomInitialSketch num rand = some sketches → sketch ∈ sketches →
      SearchReachable 0 ⟨sketch, notInitCost⟩
  | mutate {mutations : Nat} {state mutated : CostedState Schedule Rule Cost} {rand rest : Stream' Nat} :
      SearchReachable mutations state →
      space.getScheduleMutate predict useCostModel state rand = some (mutated, rest) →
      SearchReachable (mutations + 1) mutated

/-- What a state of a search keeps after `mutations` mutations. -/
structure SearchInvariant (mutations : Nat) (state : CostedState Schedule Rule Cost) : Prop where
  rulesFromSketch : state.searchState.applicableRules.Sublist space.sketchRules
  reached : ∃ count ≤ space.initSketchRandomDepth + mutations,
    space.ValidApplications count space.initSchedule state.searchState.irSchedule
  costCurrent : state.predictedCost = notInitCost ∨
    (useCostModel = true ∧ state.predictedCost = predict state.searchState.irSchedule)

/-- The invariant for some mutations holds for more. -/
theorem searchInvariant_mono {mutations more : Nat} {state : CostedState Schedule Rule Cost}
    (invariant : space.SearchInvariant predict useCostModel notInitCost mutations state) (atMost : mutations ≤ more) :
    space.SearchInvariant predict useCostModel notInitCost more state :=
  have ⟨count, bound, valid⟩ := invariant.reached
  { invariant with reached := ⟨count, by omega, valid⟩ }

/-- Every state of `GetRandomInitialSketch` starts a search in the invariant. -/
theorem searchInvariant_sketch {num : Nat} {rand : Stream' Nat} {sketches : List (SearchState Schedule Rule)}
    (done : space.getRandomInitialSketch num rand = some sketches) {sketch : SearchState Schedule Rule}
    (member : sketch ∈ sketches) :
    space.SearchInvariant predict useCostModel notInitCost 0 ⟨sketch, notInitCost⟩ where
  rulesFromSketch := space.randomSketchLoop_sublist num [] rand (by simp) done sketch member
  reached := (space.randomSketchLoop_validApplications num [] rand
    (List.forall_mem_nil _) done).2 sketch member
  costCurrent := .inl rfl

/-- One `GetScheduleMutate` keeps the invariant and adds at most one application. -/
theorem searchInvariant_getScheduleMutate {mutations : Nat} {state mutated : CostedState Schedule Rule Cost}
    {rand rest : Stream' Nat} (invariant : space.SearchInvariant predict useCostModel notInitCost mutations state)
    (mutate : space.getScheduleMutate predict useCostModel state rand = some (mutated, rest)) :
    space.SearchInvariant predict useCostModel notInitCost (mutations + 1) mutated := by
  obtain ⟨ret, random, rfl⟩ := space.getScheduleMutate_eq_some mutate
  obtain ⟨count, bound, valid⟩ := invariant.reached
  obtain ⟨added, atMostOne, step⟩ := space.randomScheduleMutate_validApplications random
    invariant.rulesFromSketch valid
  refine ⟨(space.randomScheduleMutate_sublist random).trans invariant.rulesFromSketch,
    ⟨count + added, by omega, step⟩, ?_⟩
  cases useCostModel
  · exact invariant.costCurrent.imp id fun written => absurd written.1 Bool.false_ne_true
  · exact .inr ⟨rfl, rfl⟩

/-- Every value a state takes keeps the invariant for its number of mutations. -/
theorem searchReachable_invariant {mutations : Nat} {state : CostedState Schedule Rule Cost}
    (reachable : space.SearchReachable predict useCostModel notInitCost mutations state) :
    space.SearchInvariant predict useCostModel notInitCost mutations state := by
  induction reachable with
  | sketch done member => exact space.searchInvariant_sketch predict useCostModel notInitCost done member
  | mutate _ mutate invariant =>
      exact space.searchInvariant_getScheduleMutate predict useCostModel notInitCost invariant mutate

/-! ## Searches over shared states -/

/-- One call of a search. `GetRandomInitialSketch` creates one object per sketch, with
`predicted_cost = NOT_INIT_COST`; `GetScheduleMutate` writes the mutated state into the object
behind its handle, which every handle to that object then sees. `none` is undefined behaviour,
or a handle to no object. -/
def execCall (heap : StateHeap Schedule Rule Cost) : SearchCall → Option (StateHeap Schedule Rule Cost)
  | .getRandomInitialSketch num rand =>
      (space.getRandomInitialSketch num rand).map fun sketches =>
        ⟨heap.objects ++ sketches.map fun sketch => ⟨sketch, notInitCost⟩⟩
  | .getScheduleMutate handle rand =>
      heap.objects[handle]?.bind fun object =>
        (space.getScheduleMutate predict useCostModel object rand).map fun mutated =>
          ⟨heap.objects.set handle mutated.1⟩

/-- A search: its calls in order. -/
def runSearch : StateHeap Schedule Rule Cost → List SearchCall → Option (StateHeap Schedule Rule Cost)
  | heap, [] => some heap
  | heap, call :: calls => (space.execCall predict useCostModel notInitCost heap call).bind (runSearch · calls)

/-- The object behind every handle holds a value of `SearchReachable` with at most `counts handle`
mutations. -/
def HeapReachable (counts : Nat → Nat) (heap : StateHeap Schedule Rule Cost) : Prop :=
  ∀ handle object, heap.objects[handle]? = some object →
    ∃ mutations ≤ counts handle, space.SearchReachable predict useCostModel notInitCost mutations object

/-- One call keeps every object reachable; a mutation adds one to the count of its handle and
leaves every other handle's object as it was. -/
theorem execCall_heapReachable {counts : Nat → Nat} {heap next : StateHeap Schedule Rule Cost} {call : SearchCall}
    (reachable : space.HeapReachable predict useCostModel notInitCost counts heap)
    (step : space.execCall predict useCostModel notInitCost heap call = some next) :
    space.HeapReachable predict useCostModel notInitCost
      (fun handle => counts handle + if call.mutates handle then 1 else 0) next := by
  intro handle object held
  cases call with
  | getRandomInitialSketch num rand =>
      obtain ⟨sketches, done, rfl⟩ := Option.map_eq_some'.mp step
      simp only [SearchCall.mutates, Bool.false_eq_true, if_false, Nat.add_zero]
      by_cases old : handle < heap.objects.length
      · rw [List.getElem?_append_left old] at held
        exact reachable handle object held
      · rw [List.getElem?_append_right (Nat.le_of_not_lt old), List.getElem?_map] at held
        obtain ⟨sketch, found, rfl⟩ := Option.map_eq_some'.mp held
        exact ⟨0, Nat.zero_le _, .sketch done (List.getElem?_mem found)⟩
  | getScheduleMutate target rand =>
      obtain ⟨current, found, mutated⟩ := Option.bind_eq_some.mp step
      obtain ⟨⟨mutated, rest⟩, mutate, rfl⟩ := Option.map_eq_some'.mp mutated
      by_cases same : target = handle
      · subst same
        rw [List.getElem?_set_self (List.getElem?_eq_some_iff.mp found).1, Option.some_inj] at held
        subst held
        obtain ⟨mutations, bound, before⟩ := reachable target current found
        exact ⟨mutations + 1, by simp [SearchCall.mutates, bound], .mutate before mutate⟩
      · rw [List.getElem?_set_ne same] at held
        simpa [SearchCall.mutates, same] using reachable handle object held

/-- Over a whole search, the count of a handle grows by the calls that mutate it. -/
theorem runSearch_heapReachable :
    ∀ (calls : List SearchCall) (counts : Nat → Nat) {heap final : StateHeap Schedule Rule Cost},
      space.HeapReachable predict useCostModel notInitCost counts heap →
      space.runSearch predict useCostModel notInitCost heap calls = some final →
      space.HeapReachable predict useCostModel notInitCost (fun handle => counts handle + mutationsOf handle calls) final
  | [], _, _, _, reachable, done => by
      cases done
      simpa using reachable
  | call :: calls, counts, _, _, reachable, done => by
      obtain ⟨next, step, run⟩ := Option.bind_eq_some.mp done
      have later := runSearch_heapReachable calls _ (space.execCall_heapReachable predict useCostModel notInitCost
        reachable step) run
      intro handle object held
      dsimp only
      rw [mutationsOf_cons, Nat.add_comm (mutationsOf handle calls), ← Nat.add_assoc]
      exact later handle object held

/-- **Every object of a search takes only reachable values.** After any sequence of calls from no
objects, the object behind every handle holds a value of `SearchReachable` for at most as many
mutations as calls made on that handle. -/
theorem runSearch_reachable {calls : List SearchCall} {heap : StateHeap Schedule Rule Cost}
    (done : space.runSearch predict useCostModel notInitCost ⟨[]⟩ calls = some heap)
    {handle : Nat} {object : CostedState Schedule Rule Cost} (held : heap.objects[handle]? = some object) :
    ∃ mutations ≤ mutationsOf handle calls, space.SearchReachable predict useCostModel notInitCost mutations object := by
  simpa using space.runSearch_heapReachable predict useCostModel notInitCost calls (fun _ => 0)
    (fun _ _ empty => by simp at empty) done handle object held

/-- **Every state a search holds keeps the invariant, through shared handles.** For every cost
model, flag and `NOT_INIT_COST`, and every sequence of calls of `GetRandomInitialSketch` and
`GetScheduleMutate` with any draws and on any handles, where a mutation changes the object behind
every handle to it: after the calls, the object behind every handle keeps only rules of
`sketch_rules_`, has a schedule reached from the initial schedule by at most
`init_sketch_random_depth_ + m` applications, where `m` is the number of `GetScheduleMutate` calls
made on that handle, each of a rule of `sketch_rules_` that reported something other than
`kCannotApply` on the schedule it was applied to and at an index below its `NumberApplicable()`
there, and carries `NOT_INIT_COST` or, under the cost-model flag, the prediction for its own
current schedule, never a stale one. -/
theorem runSearch_invariant {calls : List SearchCall} {heap : StateHeap Schedule Rule Cost}
    (done : space.runSearch predict useCostModel notInitCost ⟨[]⟩ calls = some heap)
    {handle : Nat} {object : CostedState Schedule Rule Cost} (held : heap.objects[handle]? = some object) :
    space.SearchInvariant predict useCostModel notInitCost (mutationsOf handle calls) object :=
  have ⟨_, atMost, reachable⟩ := space.runSearch_reachable predict useCostModel notInitCost done held
  space.searchInvariant_mono predict useCostModel notInitCost
    (space.searchReachable_invariant predict useCostModel notInitCost reachable) atMost

theorem runSearch_invariant_same_handle_twice :
    twoPositionSpace.runSearch (fun _ => (5 : Nat)) true 0 ⟨[]⟩
        [.getRandomInitialSketch 1 (Stream'.const 0), .getScheduleMutate 0 (Stream'.const 0),
          .getScheduleMutate 0 (Stream'.const 0)] = some ⟨[⟨⟨(), [()]⟩, 5⟩]⟩ ∧
      (⟨[⟨⟨(), [()]⟩, 5⟩]⟩ : StateHeap Unit Unit Nat).objects[0]? = some ⟨⟨(), [()]⟩, 5⟩ ∧
      mutationsOf 0 [.getRandomInitialSketch 1 (Stream'.const 0), .getScheduleMutate 0 (Stream'.const 0),
        .getScheduleMutate 0 (Stream'.const 0)] = 2 ∧
      twoPositionSpace.SearchInvariant (fun _ => (5 : Nat)) true 0
        (mutationsOf 0 [.getRandomInitialSketch 1 (Stream'.const 0), .getScheduleMutate 0 (Stream'.const 0),
          .getScheduleMutate 0 (Stream'.const 0)]) ⟨⟨(), [()]⟩, 5⟩ :=
  have done : twoPositionSpace.runSearch (fun _ => (5 : Nat)) true 0 ⟨[]⟩
      [.getRandomInitialSketch 1 (Stream'.const 0), .getScheduleMutate 0 (Stream'.const 0),
        .getScheduleMutate 0 (Stream'.const 0)] = some ⟨[⟨⟨(), [()]⟩, 5⟩]⟩ := rfl
  ⟨done, rfl, rfl, twoPositionSpace.runSearch_invariant (fun _ => 5) true 0 done rfl⟩

/-- **No mutation of a search is undefined.** When every rule of `sketch_rules_` that can apply
to a schedule reports exactly one position, `GetScheduleMutate` has defined behaviour on every state
a search reaches, for every draw. -/
theorem searchReachable_getScheduleMutate_ne_none
    (single : ∀ rule ∈ space.sketchRules, ∀ schedule,
      space.rules.init rule schedule ≠ .kCannotApply → space.rules.numberApplicable rule schedule = 1)
    {mutations : Nat} {state : CostedState Schedule Rule Cost}
    (reachable : space.SearchReachable predict useCostModel notInitCost mutations state) (rand : Stream' Nat) :
    space.getScheduleMutate predict useCostModel state rand ≠ none := by
  have within : state.searchState.applicableRules.Sublist space.sketchRules := by
    induction reachable with
    | sketch done member => exact space.randomSketchLoop_sublist _ [] _ (by simp) done _ member
    | mutate _ mutate within =>
        obtain ⟨ret, random, rfl⟩ := space.getScheduleMutate_eq_some mutate
        exact (space.randomScheduleMutate_sublist random).trans within
  simpa [getScheduleMutate] using space.randomScheduleMutate_ne_none_of_single single within rand

end Search

theorem searchReachable_getScheduleMutate_ne_none_one_position :
    (∀ rule ∈ onePositionSpace.sketchRules, ∀ schedule, onePositionSpace.rules.init rule schedule ≠ .kCannotApply →
        onePositionSpace.rules.numberApplicable rule schedule = 1) ∧
      onePositionSpace.SearchReachable (fun _ => (0 : Nat)) false 0 0 ⟨⟨(), [()]⟩, 0⟩ ∧
      ∀ rand, onePositionSpace.getScheduleMutate (fun _ => (0 : Nat)) false ⟨⟨(), [()]⟩, 0⟩ rand ≠ none :=
  have single : ∀ rule ∈ onePositionSpace.sketchRules, ∀ schedule,
      onePositionSpace.rules.init rule schedule ≠ .kCannotApply →
        onePositionSpace.rules.numberApplicable rule schedule = 1 := fun _ _ _ _ => rfl
  have reachable : onePositionSpace.SearchReachable (fun _ => (0 : Nat)) false 0 0 ⟨⟨(), [()]⟩, 0⟩ :=
    .sketch (show onePositionSpace.getRandomInitialSketch 1 (Stream'.const 0) = some [⟨(), [()]⟩] from rfl)
      (List.mem_singleton_self _)
  ⟨single, reachable, onePositionSpace.searchReachable_getScheduleMutate_ne_none _ _ _ single reachable⟩

end SearchSpace

end CinnAutoSchedule.AutoSchedule
