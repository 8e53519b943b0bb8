import Mathlib.Logic.Function.Iterate
import MeshSharding.Proofs.Reshard.Frame

/-!
# Erasing reshards

A reshard does not change what is computed, it brings a value to another
sharding. A run that inserts reshards therefore keeps the program if the program
comes back once the inserted operations are left out of the body and each of
their results is replaced by the operand it was made from, over and over, until
no such result is left (`wiringWithout`).

Two inserted reshards can stand in a row: one after the operation that produces
a value and one before the operation that uses it. The second may have been
inserted first, so handles say nothing about the order of a chain. What bounds a
chain is that resharding a result lengthens it by one at most while it inserts
one operation (`iterate_reshardResult`).
-/

set_option autoImplicit false

namespace MeshSharding

namespace Function

/-- The operand behind a value that is the result of an operation created after the first
`count` ones. Every other value stands for itself. -/
def behind (function : Function) (count : Nat) (value : ValueId) : ValueId :=
  match function.origin? value with
  | some (.result operation _) =>
    if count ≤ operation.index then
      ((function.operation operation).operands.head?).getD value
    else value
  | _ => value

/-- What is reached from a value by going behind it as often as operations have been created
after the first `count` ones. -/
def source (function : Function) (count : Nat) (value : ValueId) : ValueId :=
  (function.behind count)^[function.operations.length - count] value

/-- The operations of the body with their operands. -/
def wiring (function : Function) : List (OperationId × List ValueId) :=
  function.body.map fun operation => (operation, (function.operation operation).operands)

/-- The wiring without the operations created after the first `count` ones, with every result of
such an operation replaced by its source. -/
def wiringWithout (function : Function) (count : Nat) : List (OperationId × List ValueId) :=
  (function.body.filter fun operation => decide (operation.index < count)).map fun operation =>
    (operation, (function.operation operation).operands.map (function.source count))

variable {base current : Function} {count : Nat} {value : ValueId}

/-! ## Going behind a value -/

theorem behind_of_result {operation : OperationId} {index : Nat}
    (origin : current.origin? value = some (.result operation index))
    (later : count ≤ operation.index) :
    current.behind count value =
      ((current.operation operation).operands.head?).getD value := by
  simp only [behind, origin, later, if_true]

theorem behind_of_lt {operation : OperationId} {index : Nat}
    (origin : current.origin? value = some (.result operation index))
    (early : operation.index < count) : current.behind count value = value := by
  simp only [behind, origin, Nat.not_le.mpr early, if_false]

theorem behind_of_argument {index : Nat}
    (origin : current.origin? value = some (.argument index)) :
    current.behind count value = value := by
  simp only [behind, origin]

theorem behind_lt (wellFormed : current.WellFormed) (known : value.index < current.values.length) :
    (current.behind count value).index < current.values.length := by
  unfold behind
  split
  · rename_i operation _ _
    split
    · cases operands : (current.operation operation).operands with
      | nil => exact known
      | cons first rest => exact wellFormed.operand_lt operation first (by simp [operands])
    · exact known
  · exact known

/-- Values of the base stand for themselves. -/
theorem Extends.behind_eq_self (extended : base.Extends current) (wellFormed : base.WellFormed)
    (old : value.index < base.values.length) :
    current.behind base.operations.length value = value := by
  have origin := (extended.typed value old).2
  obtain ⟨source, found⟩ := exists_origin? old
  rw [found] at origin
  cases source with
  | argument index => exact behind_of_argument origin
  | result operation index =>
    exact behind_of_lt origin (wellFormed.operation_lt_of_origin found)

/-- A chain that comes to a value of the base has come to the source. -/
theorem Extends.source_eq (extended : base.Extends current) (wellFormed : base.WellFormed)
    {steps : Nat} {last : ValueId} (old : last.index < base.values.length)
    (ends : (current.behind base.operations.length)^[steps] value = last)
    (short : steps ≤ current.operations.length - base.operations.length) :
    current.source base.operations.length value = last := by
  obtain ⟨more, enough⟩ := Nat.exists_eq_add_of_le short
  rw [source, enough, Nat.add_comm, Function.iterate_add_apply, ends,
    Function.iterate_fixed (extended.behind_eq_self wellFormed old)]

/-! ## Chains that end in the base -/

/-- Going behind values of the current function ends in the base, and what is reached from the
operands of an operation of the base are its operands there. -/
structure Erases (base current : Function) : Prop where
  traced : ∀ value : ValueId, value.index < current.values.length → ∃ steps last,
    steps ≤ current.operations.length - base.operations.length ∧
      last.index < base.values.length ∧
      (current.behind base.operations.length)^[steps] value = last
  wired : ∀ operation : OperationId, operation.index < base.operations.length →
    (current.operation operation).operands.map (current.source base.operations.length) =
      (base.operation operation).operands

namespace Erases

theorem refl (base : Function) : base.Erases base where
  traced value old := ⟨0, value, Nat.zero_le _, old, rfl⟩
  wired operation _ := by
    have none_between : base.source base.operations.length = id := by
      funext value
      simp [source]
    rw [none_between, List.map_id]

/-- Every value has its source in the base, and there is nothing behind the source. -/
theorem source_lt (erased : base.Erases current) (extended : base.Extends current)
    (wellFormed : base.WellFormed) (known : value.index < current.values.length) :
    (current.source base.operations.length value).index < base.values.length := by
  obtain ⟨steps, last, short, old, ends⟩ := erased.traced value known
  rw [extended.source_eq wellFormed old ends short]
  exact old

/-- Erasing the reshards of an extension gives the wiring of the base. -/
theorem wiringWithout_eq (erased : base.Erases current) (extended : base.Extends current)
    (wellFormed : base.WellFormed) :
    current.wiringWithout base.operations.length = base.wiring := by
  rw [wiringWithout, extended.body_filter, wiring]
  apply List.map_congr_left
  intro operation member
  rw [erased.wired operation ((wellFormed.mem_body_iff operation).mp member)]

end Erases

/-! ## Resharding an operand -/

section Operand

variable {operation : OperationId} {change : OperandChange} {operand : ValueId}

/-- What is behind a known value stays there. -/
theorem behind_reshardOperand (wellFormed : current.WellFormed)
    (original : operation.index < count)
    (found : (current.operation operation).operands[change.slot]? = some operand)
    (known : value.index < current.values.length) :
    (current.reshardOperand operation change).behind count value = current.behind count value := by
  have sameOrigin := origin?_reshardOperand_of_lt operation change known
  obtain ⟨source, origin⟩ := exists_origin? known
  rw [origin] at sameOrigin
  cases source with
  | argument index => rw [behind_of_argument sameOrigin, behind_of_argument origin]
  | result producer index =>
    by_cases later : count ≤ producer.index
    · have differ : producer ≠ operation := by
        rintro rfl
        omega
      have old := ne_nextOperation_of_lt (wellFormed.operation_lt_of_origin origin)
      rw [behind_of_result sameOrigin later, behind_of_result origin later,
        operation_reshardOperand_of_ne found differ old]
    · rw [behind_of_lt sameOrigin (Nat.lt_of_not_le later),
        behind_of_lt origin (Nat.lt_of_not_le later)]

theorem behind_reshardOperand_next (later : count ≤ current.operations.length)
    (found : (current.operation operation).operands[change.slot]? = some operand) :
    (current.reshardOperand operation change).behind count current.nextValue = operand := by
  rw [behind_of_result (origin?_reshardOperand_next found) later,
    operation_reshardOperand_next found]
  rfl

/-- Chains of known values stay as they are. -/
theorem iterate_reshardOperand (wellFormed : current.WellFormed)
    (original : operation.index < count)
    (found : (current.operation operation).operands[change.slot]? = some operand) (steps : Nat)
    (known : value.index < current.values.length) :
    ((current.reshardOperand operation change).behind count)^[steps] value =
      (current.behind count)^[steps] value := by
  induction steps generalizing value with
  | zero => rfl
  | succ steps ih =>
    rw [Function.iterate_succ_apply, Function.iterate_succ_apply,
      behind_reshardOperand wellFormed original found known]
    exact ih (behind_lt wellFormed known)

/-- The chain of the new value is the chain of the operand with one step more. -/
theorem iterate_reshardOperand_next (wellFormed : current.WellFormed)
    (original : operation.index < count)
    (found : (current.operation operation).operands[change.slot]? = some operand) (steps : Nat)
    (later : count ≤ current.operations.length) :
    ((current.reshardOperand operation change).behind count)^[steps + 1] current.nextValue =
      (current.behind count)^[steps] operand := by
  rw [Function.iterate_succ_apply, behind_reshardOperand_next later found]
  exact iterate_reshardOperand wellFormed original found steps
    (wellFormed.operand_lt operation operand (List.mem_of_getElem? found))

theorem Erases.reshardOperand (erased : base.Erases current) (extended : base.Extends current)
    (base_wellFormed : base.WellFormed) (wellFormed : current.WellFormed)
    (original : operation.index < base.operations.length) (change : OperandChange) :
    base.Erases (current.reshardOperand operation change) := by
  cases found : (current.operation operation).operands[change.slot]? with
  | none =>
    rw [reshardOperand_of_none found]
    exact erased
  | some operand =>
    have later := extended.operations_le
    have grown := length_operations_reshardOperand found
    have after := extended.reshardOperand wellFormed original change
    have operandKnown := wellFormed.operand_lt operation operand (List.mem_of_getElem? found)
    have sourceOld {other : ValueId} (known : other.index < current.values.length) :
        (current.source base.operations.length other).index < base.values.length :=
      erased.source_lt extended base_wellFormed known
    -- the source is reached in as many steps as operations have been created
    have reaches {other : ValueId} (known : other.index < current.values.length) :
        ((current.reshardOperand operation change).behind base.operations.length)^[
            current.operations.length - base.operations.length] other =
          current.source base.operations.length other :=
      iterate_reshardOperand wellFormed original found _ known
    have reachesNext : ((current.reshardOperand operation change).behind
          base.operations.length)^[current.operations.length - base.operations.length + 1]
            current.nextValue = current.source base.operations.length operand :=
      iterate_reshardOperand_next wellFormed original found _ later
    constructor
    case traced =>
      intro other created
      rw [length_values_reshardOperand found] at created
      rcases lt_or_eq_nextValue created with known | rfl
      · exact ⟨_, _, by omega, sourceOld known, reaches known⟩
      · exact ⟨_, _, by omega, sourceOld operandKnown, reachesNext⟩
    case wired =>
      intro other old
      have sourceNext := after.source_eq base_wellFormed (sourceOld operandKnown) reachesNext
        (by omega)
      have sameSources : (current.operation other).operands.map
          ((current.reshardOperand operation change).source base.operations.length) =
            (current.operation other).operands.map (current.source base.operations.length) := by
        apply List.map_congr_left
        intro value member
        have known := wellFormed.operand_lt other value member
        exact after.source_eq base_wellFormed (sourceOld known) (reaches known) (by omega)
      by_cases same : other = operation
      · subst same
        rw [operation_reshardOperand_self found, List.map_set, sameSources,
          erased.wired other old, sourceNext]
        -- the source of the operand stands in its place already
        have inPlace := congrArg (·[change.slot]?) (erased.wired other old)
        simp only [List.getElem?_map, found, Option.map_some] at inPlace
        obtain ⟨within, isSource⟩ := List.getElem?_eq_some_iff.mp inPlace.symm
        rw [← isSource, List.set_getElem_self]
      · rw [operation_reshardOperand_of_ne found same (extended.ne_nextOperation old),
          sameSources]
        exact erased.wired other old

end Operand

/-! ## Resharding a result -/

section Result

variable {anchor : OperationId} {result : ValueId} {change : ResultChange}

theorem behind_reshardResult_next (later : count ≤ current.operations.length) :
    (current.reshardResult anchor result change).behind count current.nextValue = result := by
  rw [behind_of_result (origin?_reshardResult_next ..) later, operation_reshardResult_next]
  rfl

/-- Behind a known value is what was there, or the new value where that was the result. -/
theorem behind_reshardResult (extended : base.Extends current) (wellFormed : current.WellFormed)
    (known : value.index < current.values.length) :
    (current.reshardResult anchor result change).behind base.operations.length value =
        current.behind base.operations.length value ∨
      (current.behind base.operations.length value = result ∧
        (current.reshardResult anchor result change).behind base.operations.length value =
          current.nextValue) := by
  have sameOrigin := origin?_reshardResult_of_lt current anchor result change known
  obtain ⟨source, origin⟩ := exists_origin? known
  rw [origin] at sameOrigin
  cases source with
  | argument index =>
    rw [behind_of_argument sameOrigin, behind_of_argument origin]
    exact .inl rfl
  | result producer index =>
    by_cases later : base.operations.length ≤ producer.index
    · have created := wellFormed.operation_lt_of_origin origin
      obtain ⟨operand, _, isReshard, -⟩ := extended.inserted producer later created
      rw [behind_of_result sameOrigin later, behind_of_result origin later,
        operation_reshardResult_of_ne _ _ _ _ (ne_nextOperation_of_lt created), isReshard]
      by_cases same : operand = result
      · exact .inr ⟨same, by simp [same]⟩
      · exact .inl (by simp [same])
    · rw [behind_of_lt sameOrigin (Nat.lt_of_not_le later),
        behind_of_lt origin (Nat.lt_of_not_le later)]
      exact .inl rfl

/-- A chain that ends in the base still ends there, at most one step later. -/
theorem iterate_reshardResult (extended : base.Extends current) (wellFormed : current.WellFormed)
    (base_wellFormed : base.WellFormed) (original : result.index < base.values.length)
    {steps : Nat} {last : ValueId} (known : value.index < current.values.length)
    (ends : (current.behind base.operations.length)^[steps] value = last) :
    ∃ more, more ≤ steps + 1 ∧
      ((current.reshardResult anchor result change).behind base.operations.length)^[more] value =
        last := by
  induction steps generalizing value with
  | zero => exact ⟨0, Nat.zero_le _, ends⟩
  | succ steps ih =>
    rw [Function.iterate_succ_apply] at ends
    rcases behind_reshardResult extended wellFormed known with same | ⟨isResult, redirected⟩
    · obtain ⟨more, short, reaches⟩ := ih (behind_lt wellFormed known) ends
      refine ⟨more + 1, by omega, ?_⟩
      rw [Function.iterate_succ_apply, same, reaches]
    · -- the result belongs to the base, so the old chain has ended with it
      rw [isResult, Function.iterate_fixed
        (extended.behind_eq_self base_wellFormed original)] at ends
      refine ⟨2, by omega, ?_⟩
      rw [Function.iterate_succ_apply, Function.iterate_succ_apply, redirected,
        behind_reshardResult_next extended.operations_le]
      exact ends

theorem Erases.reshardResult (erased : base.Erases current) (extended : base.Extends current)
    (base_wellFormed : base.WellFormed) (wellFormed : current.WellFormed)
    (after : base.Extends (current.reshardResult anchor result change))
    (original : result.index < base.values.length) :
    base.Erases (current.reshardResult anchor result change) := by
  have grown := length_operations_reshardResult current anchor result change
  have later := extended.operations_le
  have sourceOld {other : ValueId} (known : other.index < current.values.length) :
      (current.source base.operations.length other).index < base.values.length :=
    erased.source_lt extended base_wellFormed known
  have reaches {other : ValueId} (known : other.index < current.values.length) :
      ∃ steps, steps ≤ current.operations.length - base.operations.length + 1 ∧
        ((current.reshardResult anchor result change).behind
          base.operations.length)^[steps] other = current.source base.operations.length other :=
    iterate_reshardResult extended wellFormed base_wellFormed original known rfl
  have sameSource {other : ValueId} (known : other.index < current.values.length) :
      (current.reshardResult anchor result change).source base.operations.length other =
        current.source base.operations.length other := by
    obtain ⟨steps, short, ends⟩ := reaches known
    exact after.source_eq base_wellFormed (sourceOld known) ends (by omega)
  constructor
  case traced =>
    intro other created
    rw [length_values_reshardResult] at created
    rcases lt_or_eq_nextValue created with known | rfl
    · obtain ⟨steps, short, ends⟩ := reaches known
      exact ⟨steps, _, by omega, sourceOld known, ends⟩
    · exact ⟨1, result, by omega, original, behind_reshardResult_next later⟩
  case wired =>
    intro other old
    rw [operation_reshardResult_of_ne _ _ _ _ (extended.ne_nextOperation old), List.map_map,
      ← erased.wired other old]
    apply List.map_congr_left
    intro operand member
    have known := wellFormed.operand_lt other operand member
    by_cases redirected : operand = result
    · have sourceNext : (current.reshardResult anchor result change).source
          base.operations.length current.nextValue = result :=
        after.source_eq base_wellFormed original
          (Function.iterate_one _ ▸ behind_reshardResult_next later) (show 1 ≤ _ by omega)
      have sourceResult : current.source base.operations.length result = result :=
        Function.iterate_fixed (extended.behind_eq_self base_wellFormed original) _
      simp only [Function.comp_apply, redirected, if_true, sourceNext, sourceResult]
    · simp only [Function.comp_apply, redirected, if_false]
      exact sameSource known

end Result

/-! ## Whole runs -/

/-- What a run over operations of the body makes of a function extends it and erases to it. -/
theorem reshardFrom_erases {base : Function} (base_wellFormed : base.WellFormed)
    (meshes : SymbolTable) {visited : List OperationId}
    (placed : ∀ operation ∈ visited, operation ∈ base.body) :
    (reshardFrom meshes base visited).function.WellFormed ∧
      base.Extends (reshardFrom meshes base visited).function ∧
      base.Erases (reshardFrom meshes base visited).function := by
  refine reshardFrom_induction
    (fun current => current.WellFormed ∧ base.Extends current ∧ base.Erases current)
    meshes visited ?_ ?_ placed
    ⟨base_wellFormed, Extends.refl base_wellFormed, Erases.refl base⟩
  · rintro current operation change member ⟨wellFormed, extended, erased⟩
    have original := (base_wellFormed.mem_body_iff operation).mp (placed operation member)
    exact ⟨wellFormed.reshardOperand operation change,
      extended.reshardOperand wellFormed original change,
      erased.reshardOperand extended base_wellFormed wellFormed original change⟩
  · rintro current operation anchor value change member ⟨wellFormed, extended, erased⟩ anchored
      isResult
    have original := (base_wellFormed.mem_body_iff operation).mp (placed operation member)
    have isOld : value ∈ (base.operation operation).results := by
      rwa [← (extended.kept operation original).2.2]
    have after := extended.reshardResult wellFormed isResult anchor change
    exact ⟨wellFormed.reshardResult anchored (wellFormed.result_lt isResult) change, after,
      erased.reshardResult extended base_wellFormed wellFormed after
        (base_wellFormed.result_lt isOld)⟩

theorem reshard_erases {base : Function} (base_wellFormed : base.WellFormed)
    (meshes : SymbolTable) :
    (base.reshard meshes).function.WellFormed ∧ base.Extends (base.reshard meshes).function ∧
      base.Erases (base.reshard meshes).function :=
  reshardFrom_erases base_wellFormed meshes fun _ member => member

/-- **A run keeps the program.** Whether it goes through or ends early, erasing the inserted
operations gives back the body and all operands. Every inserted operation is a reshard with one
operand and one result of the same type. Kinds, attached rules, types, arguments with their
shardings and declared results stay as they are. -/
theorem reshard_keeps_program (name : String) (history : List Edit) (meshes : SymbolTable) :
    let before := ofHistory name history
    let after := (before.reshard meshes).function
    let count := before.operations.length
    after.wiringWithout count = before.wiring ∧
      (∀ value : ValueId, value.index < after.values.length →
        (after.source count value).index < before.values.length) ∧
      (∀ operation ∈ after.body, count ≤ operation.index → ∃ operand result,
        after.operation operation = ⟨.reshard, [operand], [result], none⟩ ∧
          (after.tensor result).type = (after.tensor operand).type) ∧
      (∀ operation ∈ before.body,
        (after.operation operation).kind = (before.operation operation).kind ∧
          (after.operation operation).attached = (before.operation operation).attached ∧
          (after.operation operation).results = (before.operation operation).results) ∧
      (∀ value : ValueId, value.index < before.values.length →
        (after.tensor value).type = (before.tensor value).type) ∧
      after.arguments = before.arguments ∧
      (∀ value ∈ before.arguments, after.tensor value = before.tensor value) ∧
      after.results = before.results := by
  intro before after count
  have started := wellFormed_ofHistory name history
  obtain ⟨wellFormed, extended, erased⟩ := reshard_erases started meshes
  refine ⟨erased.wiringWithout_eq extended started,
    fun value known => erased.source_lt extended started known, ?_, ?_, ?_,
    extended.arguments_eq, extended.argument_tensor, extended.results_eq⟩
  · intro operation member new
    exact extended.inserted operation new ((wellFormed.mem_body_iff operation).mp member)
  · intro operation member
    exact extended.kept operation ((started.mem_body_iff operation).mp member)
  · intro value known
    exact (extended.typed value known).1

end Function

end MeshSharding
