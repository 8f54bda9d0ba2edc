import CinnAutoSchedule.SearchSpace.RandomInitialSketch

/-!
Contract: what `SearchSpace::RandomScheduleMutate` applies, for every state and every draw, and
what the runs of `SearchSpace::GetRandomInitialSketch` build from it.

The scan enters each rule at the running weight with `operator[]`. A rule whose
`NumberApplicable()` is `0` leaves the running weight where it was, and the next rule entered
overwrites its key. So the table is always a chain (`OffsetChain`): keys start at `0`, each key is
where the entry before it ends, every entry but the last has a positive weight, and the running
weight is where the last entry ends. On such a table `lower_bound` followed by `--iter` finds,
whenever it finds anything, the entry whose range `[key, key + NumberApplicable())` holds
`sample_index`.

Owns: the chain invariant of the weight table and that the scan keeps it; that a mutation either
finds that no rule can apply and returns the state unchanged, or applies one rule that reported
something other than `kCannotApply`, at or before the first rule that skips all rules, with an
index below that rule's `NumberApplicable()`; exactly when a mutation is defined on every draw
(no rule can apply, or a positive total with a last entered rule of at most one position); that
every sketch a run of `GetRandomInitialSketch(num)` returns, `num` of them, is reached from the
initial schedule by at most `init_sketch_random_depth_` such applications (`ValidApplications`);
and that the run returns on every draw when every rule reports exactly one position.

Does not own: which pair the lookup finds under positive weights (`RandomScheduleMutate`).
-/

set_option autoImplicit false

namespace CinnAutoSchedule.AutoSchedule

/-! ## The chain invariant of the weight table -/

section Chain

variable {Rule : Type} (weight : Rule → Nat)

/-- The weight table as the scan leaves it, from key `start` up to the running weight `total`. -/
def OffsetChain : Nat → List (Nat × Rule) → Nat → Prop
  | start, [], total => start = total
  | start, (key, rule) :: rest, total =>
      key = start ∧ (rest ≠ [] → 0 < weight rule) ∧ OffsetChain (start + weight rule) rest total

theorem offsetChain_le :
    ∀ {start : Nat} {entries : List (Nat × Rule)} {total : Nat},
      OffsetChain weight start entries total → start ≤ total
  | _, [], _, chain => Nat.le_of_eq chain
  | _, (_, _) :: _, _, ⟨_, _, restChain⟩ => Nat.le_trans (Nat.le_add_right _ _) (offsetChain_le restChain)

/-- `operator[]` at the running weight extends the chain: after an entry of positive weight it
appends, and a last entry of weight `0` it overwrites. -/
theorem offsetChain_mapAssign (rule : Rule) :
    ∀ {start : Nat} {entries : List (Nat × Rule)} {total : Nat}, OffsetChain weight start entries total →
      OffsetChain weight start (mapAssign total rule entries) (total + weight rule)
  | _, [], _, chain => by
      subst chain
      exact ⟨rfl, fun nonEmpty => absurd rfl nonEmpty, rfl⟩
  | start, (key, entryRule) :: rest, total, ⟨atStart, positive, restChain⟩ => by
      subst atStart
      have reaches := offsetChain_le weight restChain
      by_cases overwritten : total = key
      · obtain rfl : rest = [] := by
          by_contra nonEmpty
          have := positive nonEmpty
          omega
        have zeroWeight : key + weight entryRule = total := restChain
        simp only [mapAssign, overwritten, Nat.lt_irrefl, if_false, if_true]
        exact ⟨rfl, fun nonEmpty => absurd rfl nonEmpty, rfl⟩
      · simp only [mapAssign, if_neg (Nat.not_lt.mpr (Nat.le_trans (Nat.le_add_right _ _) reaches)),
          if_neg overwritten]
        refine ⟨rfl, fun _ => ?_, offsetChain_mapAssign rule restChain⟩
        cases rest with
        | nil =>
            have ends : key + weight entryRule = total := restChain
            omega
        | cons next others => exact positive (List.cons_ne_nil _ _)

/-- The entry the lookup answers at its own key is that entry. -/
theorem sampledEntry_cons_self {α : Type} (sampleIndex : Nat) (value : α) (rest : List (Nat × α)) :
    sampledEntry ((sampleIndex, value) :: rest) sampleIndex = some (sampleIndex, value) := by
  simp [sampledEntry, lowerBound]

/-- On a chain, `lower_bound(sample_index)` then `--iter` finds, when it finds anything, an entry
of the table whose range `[key, key + weight)` holds `sample_index`. -/
theorem sampledEntry_of_offsetChain {sampleIndex key : Nat} {rule : Rule} :
    ∀ {start : Nat} {entries : List (Nat × Rule)} {total : Nat},
      OffsetChain weight start entries total → start ≤ sampleIndex → sampleIndex < total →
        sampledEntry entries sampleIndex = some (key, rule) →
          (key, rule) ∈ entries ∧ key ≤ sampleIndex ∧ sampleIndex < key + weight rule
  | _, [], _, chain, atLeast, below, _ => by
      have : sampleIndex < sampleIndex := by
        simp only [OffsetChain] at chain
        omega
      omega
  | start, (entryKey, entryRule) :: rest, total, ⟨atStart, positive, restChain⟩, atLeast, below, found => by
      subst atStart
      have reaches := offsetChain_le weight restChain
      have weightPositive : sampleIndex = entryKey → 0 < weight entryRule := fun atKey => by
        cases rest with
        | nil =>
            have ends : entryKey + weight entryRule = total := restChain
            omega
        | cons next others => exact positive (List.cons_ne_nil _ _)
      by_cases atKey : sampleIndex = entryKey
      · subst atKey
        rw [sampledEntry_cons_self] at found
        cases found
        have := weightPositive rfl
        exact ⟨List.mem_cons_self _ _, Nat.le_refl _, by omega⟩
      · have after : entryKey < sampleIndex := by omega
        rw [sampledEntry_cons_of_lt after] at found
        cases rest with
        | nil => cases found
        | cons next others =>
            obtain ⟨nextKey, nextRule⟩ := next
            have nextAt : nextKey = entryKey + weight entryRule := restChain.1
            dsimp only at found
            by_cases beforeNext : sampleIndex < nextKey
            · rw [if_pos beforeNext] at found
              cases found
              exact ⟨List.mem_cons_self _ _, Nat.le_of_lt after, by omega⟩
            · rw [if_neg beforeNext] at found
              obtain ⟨member, low, high⟩ :=
                sampledEntry_of_offsetChain restChain (by omega) below found
              exact ⟨List.mem_cons_of_mem _ member, low, high⟩

/-- `operator[]` at the running weight makes the assigned rule the last entry of the chain. -/
theorem mapAssign_getLast? (rule : Rule) :
    ∀ {start : Nat} {entries : List (Nat × Rule)} {total : Nat}, OffsetChain weight start entries total →
      (mapAssign total rule entries).getLast? = some (total, rule)
  | _, [], _, _ => rfl
  | start, (key, entryRule) :: rest, total, ⟨atStart, positive, restChain⟩ => by
      subst atStart
      have reaches := offsetChain_le weight restChain
      by_cases overwritten : total = key
      · obtain rfl : rest = [] := by
          by_contra nonEmpty
          have := positive nonEmpty
          omega
        simp only [mapAssign, overwritten, Nat.lt_irrefl, if_false, if_true, List.getLast?_singleton]
      · simp only [mapAssign, if_neg (Nat.not_lt.mpr (Nat.le_trans (Nat.le_add_right _ _) reaches)),
          if_neg overwritten, List.getLast?_cons, mapAssign_getLast? rule restChain, Option.getD_some]

/-- The last entry of a chain ends at the running weight, and no key lies above its key. -/
theorem offsetChain_getLast? {lastKey : Nat} {lastRule : Rule} :
    ∀ {start : Nat} {entries : List (Nat × Rule)} {total : Nat}, OffsetChain weight start entries total →
      entries.getLast? = some (lastKey, lastRule) →
        lastKey + weight lastRule = total ∧ ∀ entry ∈ entries, entry.1 ≤ lastKey
  | _, [], _, _, last => by cases last
  | start, [(key, entryRule)], total, ⟨atStart, _, restChain⟩, last => by
      cases last
      exact ⟨atStart ▸ restChain, fun entry member => by rw [List.mem_singleton.mp member]⟩
  | start, (key, entryRule) :: next :: others, total, ⟨atStart, _, restChain⟩, last => by
      rw [List.getLast?_cons_cons] at last
      obtain ⟨ends, below⟩ := offsetChain_getLast? restChain last
      have nextAt : next.1 = start + weight entryRule := restChain.1
      refine ⟨ends, fun entry member => ?_⟩
      rcases List.mem_cons.mp member with rfl | later
      · have := below next (List.mem_cons_self _ _)
        dsimp only
        omega
      · exact below entry later

/-- On a chain the lookup finds an entry for every `sample_index` from the first key up to a key. -/
theorem sampledEntry_ne_none_of_offsetChain {sampleIndex : Nat} :
    ∀ {start : Nat} {entries : List (Nat × Rule)} {total : Nat},
      OffsetChain weight start entries total → start ≤ sampleIndex →
        (∃ entry ∈ entries, sampleIndex ≤ entry.1) → sampledEntry entries sampleIndex ≠ none
  | _, [], _, _, _, ⟨_, member, _⟩ => absurd member (List.not_mem_nil _)
  | start, (entryKey, entryRule) :: rest, total, ⟨atStart, _, restChain⟩, atLeast, ⟨reached, member, below⟩ => by
      subst atStart
      by_cases atKey : sampleIndex = entryKey
      · subst atKey
        rw [sampledEntry_cons_self]
        exact Option.some_ne_none _
      · have after : entryKey < sampleIndex := by omega
        have reachedLater : reached ∈ rest := by
          rcases List.mem_cons.mp member with rfl | later
          · exact absurd below (by dsimp only; omega)
          · exact later
        rw [sampledEntry_cons_of_lt after]
        cases rest with
        | nil => exact absurd reachedLater (List.not_mem_nil _)
        | cons next others =>
            have nextAt : next.1 = entryKey + weight entryRule := restChain.1
            dsimp only
            split
            · exact Option.some_ne_none _
            · exact sampledEntry_ne_none_of_offsetChain restChain (by omega) ⟨reached, reachedLater, below⟩

/-- On a chain from `0` with a positive total, the lookup finds an entry for every
`sample_index` below the total exactly when the last entry weighs at most `1`. -/
theorem sampledEntry_ne_none_iff {entries : List (Nat × Rule)} {total lastKey : Nat} {lastRule : Rule}
    (chain : OffsetChain weight 0 entries total) (last : entries.getLast? = some (lastKey, lastRule)) :
    (∀ sampleIndex < total, sampledEntry entries sampleIndex ≠ none) ↔ weight lastRule ≤ 1 := by
  obtain ⟨ends, below⟩ := offsetChain_getLast? weight chain last
  constructor
  · intro found
    by_contra heavy
    exact found (total - 1) (by omega)
      (sampledEntry_past_last fun entry member => by have := below entry member; omega)
  · intro light sampleIndex inRange
    exact sampledEntry_ne_none_of_offsetChain weight chain (Nat.zero_le _)
      ⟨_, List.mem_of_mem_getLast? last, by dsimp only; omega⟩

end Chain

/-- An entry of the map after `operator[]` is an old entry or the one assigned. -/
theorem mem_mapAssign {α : Type} {key : Nat} {value : α} {entry : Nat × α} :
    ∀ {entries : List (Nat × α)}, entry ∈ mapAssign key value entries → entry ∈ entries ∨ entry = (key, value)
  | [], member => .inr (List.mem_singleton.mp member)
  | (entryKey, entryValue) :: rest, member => by
      simp only [mapAssign] at member
      split at member
      · rcases List.mem_cons.mp member with assigned | old
        · exact .inr assigned
        · exact .inl old
      · split at member
        · rcases List.mem_cons.mp member with assigned | old
          · exact .inr assigned
          · exact .inl (List.mem_cons_of_mem _ old)
        · rcases List.mem_cons.mp member with head | tail
          · exact .inl (head ▸ List.mem_cons_self _ _)
          · rcases mem_mapAssign tail with old | assigned
            · exact .inl (List.mem_cons_of_mem _ old)
            · exact .inr assigned

theorem mapAssign_ne_nil {α : Type} (key : Nat) (value : α) :
    ∀ entries : List (Nat × α), mapAssign key value entries ≠ []
  | [] => List.cons_ne_nil _ _
  | (entryKey, _) :: _ => by
      simp only [mapAssign]
      split
      · exact List.cons_ne_nil _ _
      · split <;> exact List.cons_ne_nil _ _

/-! ## What the scan enters -/

section Entered

variable {Rule : Type} {rule : Rule} {rest : List Rule}

theorem mem_enteredRules_cons_self (outcome : Rule → RuleApplyType) (canApply : outcome rule ≠ .kCannotApply) :
    rule ∈ enteredRules outcome (rule :: rest) := by
  unfold enteredRules
  rw [throughSkipAll]
  split <;> simp [canApply]

theorem throughSkipAll_sublist (outcome : Rule → RuleApplyType) :
    ∀ rules : List Rule, (throughSkipAll outcome rules).Sublist rules
  | [] => List.Sublist.slnil
  | first :: later => by
      rw [throughSkipAll]
      split
      · exact List.singleton_sublist.mpr (List.mem_cons_self _ _)
      · exact (throughSkipAll_sublist outcome later).cons₂ first

/-- An entered rule is one of the rules, and it reported something other than `kCannotApply`. -/
theorem mem_enteredRules (outcome : Rule → RuleApplyType) {rules : List Rule}
    (entered : rule ∈ enteredRules outcome rules) : rule ∈ rules ∧ outcome rule ≠ .kCannotApply := by
  obtain ⟨member, canApply⟩ := List.mem_filter.mp entered
  exact ⟨(throughSkipAll_sublist outcome rules).subset member, by simpa using canApply⟩

theorem enteredRules_cons_of_cannotApply (outcome : Rule → RuleApplyType) (cannot : outcome rule = .kCannotApply) :
    enteredRules outcome (rule :: rest) = enteredRules outcome rest := by
  unfold enteredRules
  rw [throughSkipAll, if_neg (by rw [cannot]; decide)]
  simp [cannot]

theorem enteredRules_cons_of_skipAll (outcome : Rule → RuleApplyType) (skipAll : outcome rule = .kApplyAndSkipAllRules) :
    enteredRules outcome (rule :: rest) = [rule] := by
  simp [enteredRules, throughSkipAll, skipAll]

theorem enteredRules_cons_of_canApply (outcome : Rule → RuleApplyType) (canApply : outcome rule ≠ .kCannotApply)
    (notSkipAll : outcome rule ≠ .kApplyAndSkipAllRules) :
    enteredRules outcome (rule :: rest) = rule :: enteredRules outcome rest := by
  simp [enteredRules, throughSkipAll, notSkipAll, canApply]

/-- No rule is entered only when every rule reports `kCannotApply`. -/
theorem enteredRules_eq_nil (outcome : Rule → RuleApplyType) :
    ∀ {rules : List Rule}, enteredRules outcome rules = [] → ∀ other ∈ rules, outcome other = .kCannotApply
  | [], _ => List.forall_mem_nil _
  | first :: later, noneEntered => by
      by_cases cannot : outcome first = .kCannotApply
      · rw [enteredRules_cons_of_cannotApply outcome cannot] at noneEntered
        intro other member
        rcases List.mem_cons.mp member with rfl | inLater
        · exact cannot
        · exact enteredRules_eq_nil outcome noneEntered other inLater
      · exact absurd (noneEntered ▸ mem_enteredRules_cons_self outcome cannot) (List.not_mem_nil _)

end Entered

namespace SearchSpace

variable {Schedule Rule : Type} (space : SearchSpace Schedule Rule)

/-- One step of the scan, as far as the weight table goes: a rule that cannot apply leaves the
table and the running weight as they were; any other rule is entered at the running weight, which
then grows by the rule's `NumberApplicable()`, and the scan stops there exactly when the rule
skips all rules. -/
theorem scanRules_cons_table (schedule : Schedule) (rule : Rule) (rest : List Rule) (scan : RuleScan Rule) :
    (space.rules.init rule schedule = .kCannotApply ∧
        ∃ next : RuleScan Rule, next.weightToRule = scan.weightToRule ∧ next.curWeight = scan.curWeight ∧
          space.scanRules schedule (rule :: rest) scan = space.scanRules schedule rest next) ∨
      (space.rules.init rule schedule ≠ .kCannotApply ∧
        ∃ next : RuleScan Rule, next.weightToRule = mapAssign scan.curWeight rule scan.weightToRule ∧
          next.curWeight = scan.curWeight + space.rules.numberApplicable rule schedule ∧
          (space.rules.init rule schedule = .kApplyAndSkipAllRules ∧ space.scanRules schedule (rule :: rest) scan = next ∨
            space.rules.init rule schedule ≠ .kApplyAndSkipAllRules ∧
              space.scanRules schedule (rule :: rest) scan = space.scanRules schedule rest next)) := by
  let entered : RuleScan Rule :=
    { scan with
      evaluated := scan.evaluated ++ [rule]
      weightToRule := mapAssign scan.curWeight rule scan.weightToRule
      curWeight := scan.curWeight + space.rules.numberApplicable rule schedule }
  cases outcome : space.rules.init rule schedule
  case kCannotApply =>
    exact .inl ⟨rfl, { scan with evaluated := scan.evaluated ++ [rule], kept := scan.kept ++ [rule] },
      rfl, rfl, by simp [scanRules, outcome]⟩
  case kApplyAndSkipAllRules =>
    exact .inr ⟨by decide, { entered with kept := [] }, rfl, rfl, .inl ⟨rfl, by simp [scanRules, outcome, entered]⟩⟩
  case kApplyAndSkipThisRule =>
    exact .inr ⟨by decide, entered, rfl, rfl, .inr ⟨by decide, by simp [scanRules, outcome, entered]⟩⟩
  case kApply =>
    exact .inr ⟨by decide, { entered with kept := scan.kept ++ [rule] }, rfl, rfl,
      .inr ⟨by decide, by simp [scanRules, outcome, entered]⟩⟩

/-- The scan keeps the weight table a chain of `NumberApplicable()` whose rules all lie in
`entered`, as long as `entered` holds every rule still to be entered. -/
theorem scanRules_offsetChain (schedule : Schedule) (entered : List Rule) :
    ∀ (rules : List Rule) (scan : RuleScan Rule),
      enteredRules (space.rules.init · schedule) rules ⊆ entered →
      OffsetChain (space.rules.numberApplicable · schedule) 0 scan.weightToRule scan.curWeight →
      (∀ entry ∈ scan.weightToRule, entry.2 ∈ entered) →
        OffsetChain (space.rules.numberApplicable · schedule) 0 (space.scanRules schedule rules scan).weightToRule
            (space.scanRules schedule rules scan).curWeight ∧
          ∀ entry ∈ (space.scanRules schedule rules scan).weightToRule, entry.2 ∈ entered
  | [], _, _, chain, members => ⟨chain, members⟩
  | rule :: rest, scan, within, chain, members => by
      rcases space.scanRules_cons_table schedule rule rest scan with
        ⟨cannot, next, sameTable, sameWeight, continues⟩ | ⟨canApply, next, table, total, ending⟩
      · rw [continues]
        rw [enteredRules_cons_of_cannotApply (space.rules.init · schedule) cannot] at within
        exact scanRules_offsetChain schedule entered rest next within (by rwa [sameTable, sameWeight])
          (by rwa [sameTable])
      · have nextChain : OffsetChain (space.rules.numberApplicable · schedule) 0 next.weightToRule
            next.curWeight := by
          rw [table, total]
          exact offsetChain_mapAssign _ rule chain
        have nextMembers : ∀ entry ∈ next.weightToRule, entry.2 ∈ entered := by
          rw [table]
          intro entry member
          rcases mem_mapAssign member with old | rfl
          · exact members entry old
          · exact within (mem_enteredRules_cons_self (space.rules.init · schedule) canApply)
        rcases ending with ⟨_, stops⟩ | ⟨notSkipAll, continues⟩
        · rw [stops]
          exact ⟨nextChain, nextMembers⟩
        · rw [continues]
          exact scanRules_offsetChain schedule entered rest next
            (fun other member => within (@enteredRules_subset_cons _ (space.rules.init · schedule) rule rest
              notSkipAll other member)) nextChain nextMembers

/-- The scan leaves the weight table empty only if it started empty and every rule reported
`kCannotApply`. -/
theorem scanRules_weightToRule_eq_nil (schedule : Schedule) :
    ∀ (rules : List Rule) (scan : RuleScan Rule), (space.scanRules schedule rules scan).weightToRule = [] →
      scan.weightToRule = [] ∧ ∀ rule ∈ rules, space.rules.init rule schedule = .kCannotApply
  | [], _, empty => ⟨empty, List.forall_mem_nil _⟩
  | rule :: rest, scan, empty => by
      rcases space.scanRules_cons_table schedule rule rest scan with
        ⟨cannot, next, sameTable, _, continues⟩ | ⟨_, next, table, _, ⟨_, stops⟩ | ⟨_, continues⟩⟩
      · rw [continues] at empty
        obtain ⟨nextEmpty, restCannot⟩ := scanRules_weightToRule_eq_nil schedule rest next empty
        refine ⟨sameTable ▸ nextEmpty, fun other member => ?_⟩
        rcases List.mem_cons.mp member with rfl | later
        · exact cannot
        · exact restCannot other later
      · rw [stops, table] at empty
        exact absurd empty (mapAssign_ne_nil _ _ _)
      · rw [continues] at empty
        have nextEmpty := (scanRules_weightToRule_eq_nil schedule rest next empty).1
        rw [table] at nextEmpty
        exact absurd nextEmpty (mapAssign_ne_nil _ _ _)

/-- The running weight grows by the entered rules' `NumberApplicable()`. -/
theorem scanRules_curWeight (schedule : Schedule) :
    ∀ (rules : List Rule) (scan : RuleScan Rule),
      (space.scanRules schedule rules scan).curWeight = scan.curWeight +
        ((enteredRules (space.rules.init · schedule) rules).map (space.rules.numberApplicable · schedule)).sum
  | [], scan => rfl
  | rule :: rest, scan => by
      rcases space.scanRules_cons_table schedule rule rest scan with
        ⟨cannot, next, _, sameWeight, continues⟩ |
          ⟨canApply, next, _, total, ⟨skipAll, stops⟩ | ⟨notSkipAll, continues⟩⟩
      · rw [continues, scanRules_curWeight schedule rest next, sameWeight,
          enteredRules_cons_of_cannotApply (space.rules.init · schedule) cannot]
      · rw [stops, total, enteredRules_cons_of_skipAll (space.rules.init · schedule) skipAll, List.map_singleton,
          List.sum_singleton]
      · rw [continues, scanRules_curWeight schedule rest next, total,
          enteredRules_cons_of_canApply (space.rules.init · schedule) canApply notSkipAll, List.map_cons,
          List.sum_cons, Nat.add_assoc]

/-- The last entry of the weight table holds the last entered rule. -/
theorem scanRules_getLast? (schedule : Schedule) {lastRule : Rule} :
    ∀ (rules : List Rule) (scan : RuleScan Rule),
      OffsetChain (space.rules.numberApplicable · schedule) 0 scan.weightToRule scan.curWeight →
      (enteredRules (space.rules.init · schedule) rules).getLast? = some lastRule →
        ∃ lastKey, (space.scanRules schedule rules scan).weightToRule.getLast? = some (lastKey, lastRule)
  | [], _, _, last => by cases last
  | rule :: rest, scan, chain, last => by
      rcases space.scanRules_cons_table schedule rule rest scan with
        ⟨cannot, next, sameTable, sameWeight, continues⟩ |
          ⟨canApply, next, table, total, ⟨skipAll, stops⟩ | ⟨notSkipAll, continues⟩⟩
      · rw [enteredRules_cons_of_cannotApply (space.rules.init · schedule) cannot] at last
        rw [continues]
        exact scanRules_getLast? schedule rest next (by rwa [sameTable, sameWeight]) last
      · rw [enteredRules_cons_of_skipAll (space.rules.init · schedule) skipAll, List.getLast?_singleton] at last
        cases last
        rw [stops, table]
        exact ⟨_, mapAssign_getLast? _ _ chain⟩
      · rw [enteredRules_cons_of_canApply (space.rules.init · schedule) canApply notSkipAll] at last
        rw [continues]
        by_cases noneLater : enteredRules (space.rules.init · schedule) rest = []
        · rw [noneLater, List.getLast?_singleton] at last
          cases last
          rw [space.scanRules_weightToRule_of_cannotApply schedule rest next (enteredRules_eq_nil _ noneLater), table]
          exact ⟨_, mapAssign_getLast? _ _ chain⟩
        · obtain ⟨first, later, split⟩ := List.exists_cons_of_ne_nil noneLater
          rw [split, List.getLast?_cons_cons, ← split] at last
          exact scanRules_getLast? schedule rest next
            (by rw [table, total]; exact offsetChain_mapAssign _ rule chain) last

/-- **What a mutation applies.** For every state and every draw on which `RandomScheduleMutate` is
defined, either every rule reports `kCannotApply` and the state comes back unchanged without a
draw, or the mutation applies exactly one rule that reported something other than `kCannotApply`
and lies at or before the first rule that skips all rules, at an index below that rule's
`NumberApplicable()`, and keeps the rules the scan kept. This holds for every weight, including
rules whose `NumberApplicable()` is `0`. -/
theorem randomScheduleMutate_applies_entered {state mutated : SearchState Schedule Rule}
    {rand rest : Stream' Nat} (mutate : space.randomScheduleMutate state rand = some (mutated, rest)) :
    ((∀ rule ∈ state.applicableRules, space.rules.init rule state.irSchedule = .kCannotApply) ∧
        mutated = state ∧ rest = rand) ∨
      ∃ rule ∈ enteredRules (space.rules.init · state.irSchedule) state.applicableRules,
        ∃ index < space.rules.numberApplicable rule state.irSchedule,
          mutated = { state with
            applicableRules := (space.ruleScan state).kept
            irSchedule := space.rules.apply rule state.irSchedule index } ∧
          rest = rand.tail := by
  by_cases empty : (space.ruleScan state).weightToRule = []
  · have allCannot := (space.scanRules_weightToRule_eq_nil _ _ _ empty).2
    rw [space.randomScheduleMutate_of_cannotApply state rand allCannot] at mutate
    cases mutate
    exact .inl ⟨allCannot, rfl, rfl⟩
  · obtain ⟨chain, members⟩ : OffsetChain (space.rules.numberApplicable · state.irSchedule) 0
        (space.ruleScan state).weightToRule (space.ruleScan state).curWeight ∧
          ∀ entry ∈ (space.ruleScan state).weightToRule,
            entry.2 ∈ enteredRules (space.rules.init · state.irSchedule) state.applicableRules :=
      space.scanRules_offsetChain state.irSchedule _ state.applicableRules ⟨[], [], 0, []⟩
        (fun _ member => member) rfl (List.forall_mem_nil _)
    simp only [randomScheduleMutate] at mutate
    rw [if_neg (by simpa using empty)] at mutate
    split at mutate
    · cases mutate
    · rename_i nonzero
      split at mutate
      · cases mutate
      · rename_i offset rule found
        cases mutate
        obtain ⟨member, low, high⟩ := sampledEntry_of_offsetChain _ chain (Nat.zero_le _)
          (Nat.mod_lt _ (Nat.pos_of_ne_zero nonzero)) found
        exact .inr ⟨rule, members _ member, _, by omega, rfl, rfl⟩

/-! ## When a mutation is defined -/

/-- With a nonempty weight table, a mutation is undefined on a draw exactly when the running
weight is `0` or the lookup of `rand() % cur_weight` fails. -/
theorem randomScheduleMutate_eq_none_iff (state : SearchState Schedule Rule)
    (nonEmpty : (space.ruleScan state).weightToRule ≠ []) (rand : Stream' Nat) :
    space.randomScheduleMutate state rand = none ↔
      (space.ruleScan state).curWeight = 0 ∨
        sampledEntry (space.ruleScan state).weightToRule (rand.head % (space.ruleScan state).curWeight) = none := by
  simp only [randomScheduleMutate]
  rw [if_neg (by simpa using nonEmpty)]
  split
  · simp [*]
  · rename_i nonzero
    split <;> simp [*]

/-- With a nonempty weight table, a mutation is defined on every draw exactly when the running
weight is positive and the lookup finds an entry for every `sample_index` below it. -/
theorem randomScheduleMutate_ne_none_iff_lookup (state : SearchState Schedule Rule)
    (nonEmpty : (space.ruleScan state).weightToRule ≠ []) :
    (∀ rand, space.randomScheduleMutate state rand ≠ none) ↔
      0 < (space.ruleScan state).curWeight ∧ ∀ sampleIndex < (space.ruleScan state).curWeight,
        sampledEntry (space.ruleScan state).weightToRule sampleIndex ≠ none := by
  simp only [ne_eq, space.randomScheduleMutate_eq_none_iff state nonEmpty, not_or]
  constructor
  · intro defined
    refine ⟨Nat.pos_of_ne_zero (defined (Stream'.const 0)).1, fun sampleIndex below => ?_⟩
    have found := (defined (Stream'.const sampleIndex)).2
    rwa [show (Stream'.const sampleIndex).head = sampleIndex from rfl, Nat.mod_eq_of_lt below] at found
  · rintro ⟨positive, found⟩ rand
    exact ⟨Nat.pos_iff_ne_zero.mp positive, found _ (Nat.mod_lt _ positive)⟩

/-- When some rule is entered, a mutation is defined on every draw exactly when the entered
rules' `NumberApplicable()` sum to a positive total and the last entered rule reports at most one
position. -/
theorem randomScheduleMutate_ne_none_iff_last (state : SearchState Schedule Rule) {lastRule : Rule}
    (enteredLast : (enteredRules (space.rules.init · state.irSchedule) state.applicableRules).getLast? =
      some lastRule) :
    (∀ rand, space.randomScheduleMutate state rand ≠ none) ↔
      0 < ((space.weightedRules state.irSchedule state.applicableRules).map Prod.snd).sum ∧
        space.rules.numberApplicable lastRule state.irSchedule ≤ 1 := by
  have chain : OffsetChain (space.rules.numberApplicable · state.irSchedule) 0
      (space.ruleScan state).weightToRule (space.ruleScan state).curWeight :=
    (space.scanRules_offsetChain state.irSchedule _ state.applicableRules ⟨[], [], 0, []⟩
      (fun _ member => member) rfl (List.forall_mem_nil _)).1
  obtain ⟨lastKey, last⟩ : ∃ lastKey, (space.ruleScan state).weightToRule.getLast? = some (lastKey, lastRule) :=
    space.scanRules_getLast? state.irSchedule state.applicableRules ⟨[], [], 0, []⟩ rfl enteredLast
  have nonEmpty : (space.ruleScan state).weightToRule ≠ [] := fun empty => by
    rw [empty] at last
    cases last
  have total : ((space.weightedRules state.irSchedule state.applicableRules).map Prod.snd).sum =
      (space.ruleScan state).curWeight := by
    rw [ruleScan, scanRules_curWeight, weightedRules, List.map_map, Nat.zero_add]
    rfl
  rw [space.randomScheduleMutate_ne_none_iff_lookup state nonEmpty, sampledEntry_ne_none_iff _ chain last, total]

/-- `schedule` is reached from `start` by `count` applications, each of a rule of `sketch_rules_`
that reported something other than `kCannotApply` on the schedule it was applied to, at an index
below its `NumberApplicable()` there. -/
inductive ValidApplications : Nat → Schedule → Schedule → Prop
  | refl (schedule : Schedule) : ValidApplications 0 schedule schedule
  | apply {count : Nat} {start middle : Schedule} (rule : Rule) (index : Nat) :
      ValidApplications count start middle → rule ∈ space.sketchRules →
      space.rules.init rule middle ≠ .kCannotApply → index < space.rules.numberApplicable rule middle →
      ValidApplications (count + 1) start (space.rules.apply rule middle index)

/-- One mutation of a state whose rules come from `sketch_rules_` adds at most one valid
application. -/
theorem randomScheduleMutate_validApplications {state mutated : SearchState Schedule Rule}
    {rand rest : Stream' Nat} {count : Nat} (mutate : space.randomScheduleMutate state rand = some (mutated, rest))
    (within : state.applicableRules.Sublist space.sketchRules)
    (valid : space.ValidApplications count space.initSchedule state.irSchedule) :
    ∃ added ≤ 1, space.ValidApplications (count + added) space.initSchedule mutated.irSchedule := by
  rcases space.randomScheduleMutate_applies_entered mutate with
    ⟨_, rfl, _⟩ | ⟨rule, entered, index, below, rfl, _⟩
  · exact ⟨0, Nat.zero_le _, valid⟩
  · obtain ⟨member, canApply⟩ := mem_enteredRules (space.rules.init · state.irSchedule) entered
    exact ⟨1, Nat.le_refl _, .apply rule index valid (within.subset member) canApply below⟩

/-- The mutations of one round add at most `depth` valid applications. -/
theorem mutateUpTo_validApplications :
    ∀ (depth : Nat) (state : SearchState Schedule Rule) (rand : Stream' Nat)
      {final : SearchState Schedule Rule} {rest : Stream' Nat} {count : Nat},
      space.mutateUpTo depth state rand = some (final, rest) →
      state.applicableRules.Sublist space.sketchRules →
      space.ValidApplications count space.initSchedule state.irSchedule →
        ∃ added ≤ depth, space.ValidApplications (count + added) space.initSchedule final.irSchedule
  | 0, _, _, _, _, _, done, _, valid => by
      cases done
      exact ⟨0, Nat.le_refl _, valid⟩
  | depth + 1, state, rand, final, rest, count, done, within, valid => by
      simp only [mutateUpTo] at done
      split at done
      · cases done
      · rename_i mutated drawn mutate
        obtain ⟨added, atMostOne, step⟩ := space.randomScheduleMutate_validApplications mutate within valid
        split at done
        · cases done
          exact ⟨added, by omega, step⟩
        · obtain ⟨more, bound, reached⟩ := mutateUpTo_validApplications depth mutated drawn done
            ((space.randomScheduleMutate_sublist mutate).trans within) step
          exact ⟨added + more, by omega, by rwa [Nat.add_assoc] at reached⟩

/-- Each round of the `while` pushes one state reached by at most `init_sketch_random_depth_`
valid applications. -/
theorem randomSketchLoop_validApplications :
    ∀ (remaining : Nat) (result : List (SearchState Schedule Rule)) (rand : Stream' Nat)
      {sketches : List (SearchState Schedule Rule)},
      (∀ sketch ∈ result, ∃ count ≤ space.initSketchRandomDepth,
        space.ValidApplications count space.initSchedule sketch.irSchedule) →
      space.randomSketchLoop remaining result rand = some sketches →
        sketches.length = result.length + remaining ∧
          ∀ sketch ∈ sketches, ∃ count ≤ space.initSketchRandomDepth,
            space.ValidApplications count space.initSchedule sketch.irSchedule
  | 0, _, _, _, earlier, done => by
      cases done
      exact ⟨rfl, earlier⟩
  | remaining + 1, result, rand, sketches, earlier, done => by
      simp only [randomSketchLoop] at done
      split at done
      · cases done
      · rename_i state drawn mutated
        obtain ⟨added, bound, reached⟩ := space.mutateUpTo_validApplications _ _ _ mutated
          (List.Sublist.refl _) (.refl _)
        obtain ⟨length, valid⟩ := randomSketchLoop_validApplications remaining _ drawn (fun sketch member => by
          rcases List.mem_append.mp member with old | new
          · exact earlier sketch old
          · rw [List.mem_singleton.mp new]
            exact ⟨0 + added, by omega, reached⟩) done
        exact ⟨by simp only [length, List.length_append, List.length_singleton]; omega, valid⟩

/-- **Random initial sketches over whole runs.** Whenever `GetRandomInitialSketch(num)` has defined
behaviour, it returns exactly `num` states, and each one's schedule is reached from the initial
schedule by at most `init_sketch_random_depth_` applications, each of a rule of `sketch_rules_`
that reported something other than `kCannotApply` on the schedule it was applied to, at an index
below its `NumberApplicable()` there. -/
theorem getRandomInitialSketch_validApplications {num : Nat} {rand : Stream' Nat}
    {sketches : List (SearchState Schedule Rule)} (done : space.getRandomInitialSketch num rand = some sketches) :
    sketches.length = num ∧
      ∀ sketch ∈ sketches, ∃ count ≤ space.initSketchRandomDepth,
        space.ValidApplications count space.initSchedule sketch.irSchedule := by
  obtain ⟨length, valid⟩ := space.randomSketchLoop_validApplications num [] rand
    (List.forall_mem_nil _) done
  exact ⟨by simpa using length, valid⟩

theorem getRandomInitialSketch_validApplications_two :
    twoPositionSpace.getRandomInitialSketch 2 (Stream'.const 0) = some [⟨(), [()]⟩, ⟨(), [()]⟩] ∧
      [(⟨(), [()]⟩ : SearchState Unit Unit), ⟨(), [()]⟩].length = 2 ∧
      ∀ sketch ∈ [(⟨(), [()]⟩ : SearchState Unit Unit), ⟨(), [()]⟩],
        ∃ count ≤ twoPositionSpace.initSketchRandomDepth,
          twoPositionSpace.ValidApplications count twoPositionSpace.initSchedule sketch.irSchedule :=
  ⟨rfl, @SearchSpace.getRandomInitialSketch_validApplications _ _ twoPositionSpace 2 (Stream'.const 0) _ rfl⟩

/-! ## Progress of `GetRandomInitialSketch` -/

section Progress

variable (single : ∀ rule ∈ space.sketchRules, ∀ schedule,
  space.rules.init rule schedule ≠ .kCannotApply → space.rules.numberApplicable rule schedule = 1)
include single

/-- A state whose rules come from `sketch_rules_` has a defined mutation on every draw when every
rule of `sketch_rules_` that can apply reports exactly one position. -/
theorem randomScheduleMutate_ne_none_of_single {state : SearchState Schedule Rule}
    (within : state.applicableRules.Sublist space.sketchRules) (rand : Stream' Nat) :
    space.randomScheduleMutate state rand ≠ none := by
  cases enteredLast : (enteredRules (space.rules.init · state.irSchedule) state.applicableRules).getLast? with
  | none =>
      rw [space.randomScheduleMutate_of_cannotApply state rand
        (enteredRules_eq_nil _ (List.getLast?_eq_none_iff.mp enteredLast))]
      exact Option.some_ne_none _
  | some lastRule =>
      have lastEntered := List.mem_of_mem_getLast? enteredLast
      obtain ⟨member, canApply⟩ := mem_enteredRules _ lastEntered
      have lastOne := single lastRule (within.subset member) _ canApply
      refine (space.randomScheduleMutate_ne_none_iff_last state enteredLast).mpr ⟨?_, Nat.le_of_eq lastOne⟩ rand
      calc 0 < space.rules.numberApplicable lastRule state.irSchedule := by omega
        _ ≤ ((space.weightedRules state.irSchedule state.applicableRules).map Prod.snd).sum :=
          List.le_sum_of_mem (List.mem_map.mpr ⟨_, List.mem_map.mpr ⟨lastRule, lastEntered, rfl⟩, rfl⟩)

/-- The mutations of one round are defined on every draw. -/
theorem mutateUpTo_ne_none :
    ∀ (depth : Nat) (state : SearchState Schedule Rule) (rand : Stream' Nat),
      state.applicableRules.Sublist space.sketchRules → space.mutateUpTo depth state rand ≠ none
  | 0, _, _, _ => Option.some_ne_none _
  | depth + 1, state, rand, within => by
      simp only [mutateUpTo]
      split
      · rename_i undefined
        exact absurd undefined (space.randomScheduleMutate_ne_none_of_single single within rand)
      · rename_i mutated drawn mutate
        split
        · exact Option.some_ne_none _
        · exact mutateUpTo_ne_none depth mutated drawn ((space.randomScheduleMutate_sublist mutate).trans within)

/-- Every round of the `while` of `GetRandomInitialSketch` is defined on every draw. -/
theorem randomSketchLoop_ne_none :
    ∀ (remaining : Nat) (result : List (SearchState Schedule Rule)) (rand : Stream' Nat),
      space.randomSketchLoop remaining result rand ≠ none
  | 0, _, _ => Option.some_ne_none _
  | remaining + 1, result, rand => by
      simp only [randomSketchLoop]
      split
      · rename_i undefined
        exact absurd undefined (space.mutateUpTo_ne_none single _ _ _ (List.Sublist.refl _))
      · exact randomSketchLoop_ne_none remaining _ _

/-- **`GetRandomInitialSketch` returns.** When every rule of `sketch_rules_` that can apply to a
schedule reports exactly one position, then for every `num` and every draw
`GetRandomInitialSketch(num)` has defined behaviour and returns `num` states. -/
theorem getRandomInitialSketch_returns (num : Nat) (rand : Stream' Nat) :
    ∃ sketches, space.getRandomInitialSketch num rand = some sketches ∧ sketches.length = num := by
  obtain ⟨sketches, done⟩ := Option.ne_none_iff_exists'.mp (space.randomSketchLoop_ne_none single num [] rand)
  exact ⟨sketches, done, by simpa using (space.randomSketchLoop_validApplications num [] rand
    (List.forall_mem_nil _) done).1⟩

end Progress

end SearchSpace

theorem getRandomInitialSketch_returns_one_position :
    (∀ rule ∈ onePositionSpace.sketchRules, ∀ schedule, onePositionSpace.rules.init rule schedule ≠ .kCannotApply →
        onePositionSpace.rules.numberApplicable rule schedule = 1) ∧
      ∃ sketches, onePositionSpace.getRandomInitialSketch 3 (Stream'.const 7) = some sketches ∧ sketches.length = 3 :=
  have single : ∀ rule ∈ onePositionSpace.sketchRules, ∀ schedule,
      onePositionSpace.rules.init rule schedule ≠ .kCannotApply →
        onePositionSpace.rules.numberApplicable rule schedule = 1 := fun _ _ _ _ => rfl
  ⟨single, onePositionSpace.getRandomInitialSketch_returns single 3 (Stream'.const 7)⟩

end CinnAutoSchedule.AutoSchedule
