import MeshSharding.Program.History
import MeshSharding.Proofs.ListsAndChecks

/-!
# Reading an edited function

Every edit of a function is a change of a few of its parts, and what stays the
same is as important as what changes. For each edit this module says what the
operation and the tensor of a handle are afterwards, so that nothing above it
looks into the lists that a function is made of.

A handle that has not been given out reads as an operation without operands and
results, and most edits leave that reading alone too; the statements then need
no condition on the handle.
-/

set_option autoImplicit false

namespace MeshSharding

namespace Function

/-- Where a value comes from, if the function has the value. -/
def origin? (function : Function) (value : ValueId) : Option Origin :=
  function.values[value.index]?.map Value.origin

/-! ## Readings agree when the parts agree -/

theorem operation_congr {first second : Function} {operation : OperationId}
    (same : first.operations[operation.index]? = second.operations[operation.index]?) :
    first.operation operation = second.operation operation := by
  simp only [Function.operation, same]

theorem tensor_congr {first second : Function} {value : ValueId}
    (same : first.values[value.index]? = second.values[value.index]?) :
    first.tensor value = second.tensor value := by
  simp only [Function.tensor, same]

/-- An operation that has not been created has no operands. -/
theorem operands_of_le {function : Function} {operation : OperationId}
    (unknown : function.operations.length ≤ operation.index) :
    (function.operation operation).operands = [] := by
  simp only [Function.operation, List.getElem?_eq_none unknown, Option.getD_none]

/-- An operation that has not been created has no results. -/
theorem results_of_le {function : Function} {operation : OperationId}
    (unknown : function.operations.length ≤ operation.index) :
    (function.operation operation).results = [] := by
  simp only [Function.operation, List.getElem?_eq_none unknown, Option.getD_none]

/-- An operation with an operand has been created. -/
theorem lt_of_mem_operands {function : Function} {operation : OperationId} {value : ValueId}
    (member : value ∈ (function.operation operation).operands) :
    operation.index < function.operations.length := by
  by_cases known : operation.index < function.operations.length
  · exact known
  · rw [operands_of_le (Nat.le_of_not_lt known)] at member
    exact absurd member List.not_mem_nil

/-- A value with an origin has been created. -/
theorem lt_of_origin?_eq_some {function : Function} {value : ValueId} {origin : Origin}
    (found : function.origin? value = some origin) : value.index < function.values.length := by
  obtain ⟨entry, present, -⟩ := Option.map_eq_some_iff.mp found
  exact (List.getElem?_eq_some_iff.mp present).1

/-- A value that has been created has an origin. -/
theorem exists_origin? {function : Function} {value : ValueId}
    (known : value.index < function.values.length) :
    ∃ origin, function.origin? value = some origin :=
  ⟨_, by rw [origin?, List.getElem?_eq_getElem known, Option.map_some]⟩

/-! ## Handles up to the next one -/

theorem lt_or_eq_nextOperation {function : Function} {operation : OperationId}
    (upTo : operation.index < function.operations.length + 1) :
    operation.index < function.operations.length ∨ operation = function.nextOperation := by
  cases operation
  simp only [nextOperation, OperationId.mk.injEq] at *
  omega

theorem lt_or_eq_nextValue {function : Function} {value : ValueId}
    (upTo : value.index < function.values.length + 1) :
    value.index < function.values.length ∨ value = function.nextValue := by
  cases value
  simp only [nextValue, ValueId.mk.injEq] at *
  omega

theorem ne_nextOperation_of_lt {function : Function} {operation : OperationId}
    (known : operation.index < function.operations.length) :
    operation ≠ function.nextOperation := by
  rintro rfl
  exact Nat.lt_irrefl _ known

theorem ne_nextValue_of_lt {function : Function} {value : ValueId}
    (known : value.index < function.values.length) : value ≠ function.nextValue := by
  rintro rfl
  exact Nat.lt_irrefl _ known

/-! ## Adding an argument -/

/-- The values of a function with one more argument are those that it had and the argument. -/
theorem origin?_addArgument_eq_some_iff {function : Function} {tensor : Tensor} {value : ValueId}
    {origin : Origin} : (function.addArgument tensor).origin? value = some origin ↔
      function.origin? value = some origin ∨
        value = function.nextValue ∧ origin = .argument function.arguments.length := by
  cases value
  simp only [origin?, addArgument, Option.map_eq_some_iff, getElem?_concat_eq_some_iff, nextValue,
    ValueId.mk.injEq]
  constructor
  · rintro ⟨found, isOld | ⟨isNew, rfl⟩, rfl⟩
    · exact .inl ⟨found, isOld, rfl⟩
    · exact .inr ⟨isNew, rfl⟩
  · rintro (⟨found, isOld, rfl⟩ | ⟨isNew, rfl⟩)
    · exact ⟨found, .inl isOld, rfl⟩
    · exact ⟨_, .inr ⟨isNew, rfl⟩, rfl⟩

/-! ## Creating an operation -/

section Creating

variable (function : Function) (kind : OperationKind) (operands : List ValueId)
  (types : List TensorType)

@[simp]
theorem length_operations_create :
    (function.create kind operands types).operations.length = function.operations.length + 1 := by
  simp [create]

@[simp]
theorem length_values_create :
    (function.create kind operands types).values.length =
      function.values.length + types.length := by
  simp [create]

variable {kind operands types}

theorem operation_create_of_lt {operation : OperationId}
    (known : operation.index < function.operations.length) :
    (function.create kind operands types).operation operation = function.operation operation := by
  apply operation_congr
  simp only [create, List.getElem?_append_left known]

@[simp]
theorem operation_create_next :
    (function.create kind operands types).operation function.nextOperation =
      ⟨kind, operands, function.nextValues types.length, none⟩ := by
  simp [Function.operation, create, nextOperation]

/-- The new operation is the only one that an operation can become. -/
theorem operation_create_cases (operation : OperationId) :
    (function.create kind operands types).operation operation = function.operation operation ∨
      operation = function.nextOperation := by
  by_cases known : operation.index < function.operations.length
  · exact .inl (operation_create_of_lt function known)
  · by_cases next : operation.index = function.operations.length
    · exact .inr (by cases operation; simp_all [nextOperation])
    · refine .inl (operation_congr ?_)
      rw [List.getElem?_eq_none (by simp; omega), List.getElem?_eq_none (by omega)]

theorem tensor_create_of_lt {value : ValueId} (known : value.index < function.values.length) :
    (function.create kind operands types).tensor value = function.tensor value := by
  apply tensor_congr
  simp only [create, List.getElem?_append_left known]

theorem origin?_create_of_lt {value : ValueId} (known : value.index < function.values.length) :
    (function.create kind operands types).origin? value = function.origin? value := by
  simp only [origin?, create, List.getElem?_append_left known]

theorem tensor_create_next {type : TensorType} :
    (function.create kind operands [type]).tensor function.nextValue = ⟨type, none⟩ := by
  simp [Function.tensor, create, nextValue]

/-- The results of a new operation are the next values of the function, in order. -/
theorem nextValues_getElem?_eq_some_iff {count index : Nat} {value : ValueId} :
    (function.nextValues count)[index]? = some value ↔
      index < count ∧ value.index = function.values.length + index := by
  cases value with
  | mk number =>
    simp only [nextValues, List.getElem?_map, Option.map_eq_some_iff, ValueId.mk.injEq,
      List.getElem?_eq_some_iff, List.length_range', List.getElem_range']
    constructor
    · rintro ⟨found, ⟨below, rfl⟩, rfl⟩
      omega
    · rintro ⟨below, rfl⟩
      exact ⟨_, ⟨below, rfl⟩, by omega⟩

/-- A value that is new after an operation has been created is one of its results. -/
theorem origin?_create_of_le {value : ValueId} {origin : Origin}
    (fresh : function.values.length ≤ value.index) :
    (function.create kind operands types).origin? value = some origin ↔
      ∃ index, index < types.length ∧ value.index = function.values.length + index ∧
        origin = .result function.nextOperation index := by
  simp only [origin?, create, List.getElem?_append_right fresh, List.getElem?_map,
    List.getElem?_zipIdx, Nat.zero_add, Option.map_map, Option.map_eq_some_iff,
    Function.comp_apply]
  constructor
  · rintro ⟨type, found, rfl⟩
    obtain ⟨below, -⟩ := List.getElem?_eq_some_iff.mp found
    exact ⟨value.index - function.values.length, below, by omega, rfl⟩
  · rintro ⟨index, below, place, rfl⟩
    have offset : value.index - function.values.length = index := by omega
    exact ⟨types[index], by rw [offset, List.getElem?_eq_getElem below], by rw [offset]⟩

/-- The values after an operation has been created are those from before and its results. -/
theorem origin?_create_eq_some_iff {value : ValueId} {origin : Origin} :
    (function.create kind operands types).origin? value = some origin ↔
      function.origin? value = some origin ∨
        ∃ index, index < types.length ∧ value.index = function.values.length + index ∧
          origin = .result function.nextOperation index := by
  by_cases old : value.index < function.values.length
  · rw [origin?_create_of_lt _ old]
    refine (or_iff_left ?_).symm
    rintro ⟨index, -, place, -⟩
    omega
  · rw [origin?_create_of_le _ (Nat.le_of_not_lt old)]
    exact (or_iff_right fun found => old (lt_of_origin?_eq_some found)).symm

/-- The results of operations are those from before and, for the new operation, the next values. -/
theorem getElem?_results_create_eq_some_iff {operation : OperationId} {index : Nat}
    {value : ValueId} :
    ((function.create kind operands types).operation operation).results[index]? = some value ↔
      (function.operation operation).results[index]? = some value ∨
        operation = function.nextOperation ∧ index < types.length ∧
          value.index = function.values.length + index := by
  by_cases isNext : operation = function.nextOperation
  · subst isNext
    rw [operation_create_next, nextValues_getElem?_eq_some_iff,
      results_of_le (by simp [nextOperation]), List.getElem?_nil]
    simp
  · rw [(operation_create_cases function operation).resolve_right isNext]
    exact (or_iff_left fun both => isNext both.1).symm

end Creating

/-! ## Changing a sharding -/

section Sharding

variable (function : Function) (changed : ValueId) (sharding : Option TensorSharding)

@[simp]
theorem operation_withSharding (operation : OperationId) :
    (function.withSharding changed sharding).operation operation =
      function.operation operation := rfl

@[simp]
theorem length_values_withSharding :
    (function.withSharding changed sharding).values.length = function.values.length := by
  simp [withSharding]

@[simp]
theorem origin?_withSharding (value : ValueId) :
    (function.withSharding changed sharding).origin? value = function.origin? value := by
  simp only [origin?, withSharding, List.getElem?_modify]
  by_cases same : changed.index = value.index <;> simp [same, Function.comp_def]

variable {changed}

theorem tensor_withSharding_self (known : changed.index < function.values.length) :
    (function.withSharding changed sharding).tensor changed =
      { function.tensor changed with sharding } := by
  simp [Function.tensor, withSharding, List.getElem?_eq_getElem known]

theorem tensor_withSharding_of_ne {value : ValueId} (differ : value ≠ changed) :
    (function.withSharding changed sharding).tensor value = function.tensor value := by
  apply tensor_congr
  have apart : changed.index ≠ value.index := by
    intro same
    apply differ
    cases value
    cases changed
    simp_all
  simp only [withSharding, List.getElem?_modify_ne _ _ apart]

/-- A sharding is not part of the type. -/
@[simp]
theorem type_withSharding (value : ValueId) :
    ((function.withSharding changed sharding).tensor value).type =
      (function.tensor value).type := by
  by_cases same : value = changed
  · subst same
    by_cases known : value.index < function.values.length
    · rw [tensor_withSharding_self _ _ known]
    · apply congrArg Tensor.type (tensor_congr _)
      rw [List.getElem?_eq_none (by simpa using known),
        List.getElem?_eq_none (by simpa using known)]
  · rw [tensor_withSharding_of_ne _ _ same]

end Sharding

/-! ## Changing operands -/

section Operands

variable (function : Function)

@[simp]
theorem tensor_withOperand (use : Use) (operand value : ValueId) :
    (function.withOperand use operand).tensor value = function.tensor value := rfl

@[simp]
theorem origin?_withOperand (use : Use) (operand value : ValueId) :
    (function.withOperand use operand).origin? value = function.origin? value := rfl

@[simp]
theorem length_operations_withOperand (use : Use) (operand : ValueId) :
    (function.withOperand use operand).operations.length = function.operations.length := by
  simp [withOperand]

@[simp]
theorem operation_withOperand_self (operation : OperationId) (slot : Nat) (operand : ValueId) :
    (function.withOperand ⟨operation, slot⟩ operand).operation operation =
      { function.operation operation with
        operands := (function.operation operation).operands.set slot operand } := by
  simp only [Function.operation, withOperand, List.getElem?_modify_eq]
  cases function.operations[operation.index]? <;> simp

theorem operation_withOperand_of_ne {use : Use} {operand : ValueId} {operation : OperationId}
    (differ : operation ≠ use.operation) :
    (function.withOperand use operand).operation operation = function.operation operation := by
  apply operation_congr
  have apart : use.operation.index ≠ operation.index := by
    intro same
    apply differ
    cases operation
    cases use with
    | mk changed slot => cases changed; simp_all
  simp only [withOperand, List.getElem?_modify_ne _ _ apart]

theorem results_withOperand (use : Use) (operand : ValueId) (operation : OperationId) :
    ((function.withOperand use operand).operation operation).results =
      (function.operation operation).results := by
  by_cases same : operation = use.operation
  · cases use
    subst same
    rw [operation_withOperand_self]
  · rw [operation_withOperand_of_ne function same]

@[simp]
theorem tensor_withUsesReplaced (value replacement : ValueId) (kept : OperationId)
    (other : ValueId) :
    (function.withUsesReplaced value replacement kept).tensor other = function.tensor other := rfl

@[simp]
theorem origin?_withUsesReplaced (value replacement : ValueId) (kept : OperationId)
    (other : ValueId) :
    (function.withUsesReplaced value replacement kept).origin? other = function.origin? other := rfl

@[simp]
theorem length_operations_withUsesReplaced (value replacement : ValueId) (kept : OperationId) :
    (function.withUsesReplaced value replacement kept).operations.length =
      function.operations.length := by
  simp [withUsesReplaced]

@[simp]
theorem operation_withUsesReplaced_kept (value replacement : ValueId) (kept : OperationId) :
    (function.withUsesReplaced value replacement kept).operation kept =
      function.operation kept := by
  simp only [Function.operation, withUsesReplaced, List.getElem?_mapIdx, if_true, Option.map_id']

theorem operation_withUsesReplaced_of_ne {value replacement : ValueId}
    {kept operation : OperationId} (differ : operation ≠ kept) :
    (function.withUsesReplaced value replacement kept).operation operation =
      { function.operation operation with
        operands := (function.operation operation).operands.map fun operand =>
          if operand = value then replacement else operand } := by
  have apart : operation.index ≠ kept.index := by
    intro same
    apply differ
    cases operation
    cases kept
    simp_all
  simp only [Function.operation, withUsesReplaced, List.getElem?_mapIdx, apart, if_false]
  cases function.operations[operation.index]? <;> simp

theorem results_withUsesReplaced (value replacement : ValueId) (kept operation : OperationId) :
    ((function.withUsesReplaced value replacement kept).operation operation).results =
      (function.operation operation).results := by
  by_cases same : operation = kept
  · rw [same, operation_withUsesReplaced_kept]
  · rw [operation_withUsesReplaced_of_ne function same]

/-- Operations that do not use a value are untouched when its uses are replaced. -/
theorem operation_withUsesReplaced_of_notMem {value replacement : ValueId}
    {kept operation : OperationId} (unused : value ∉ (function.operation operation).operands) :
    (function.withUsesReplaced value replacement kept).operation operation =
      function.operation operation := by
  by_cases same : operation = kept
  · subst same
    exact operation_withUsesReplaced_kept function _ _ _
  · rw [operation_withUsesReplaced_of_ne function same]
    have unchanged : ((function.operation operation).operands.map fun operand =>
        if operand = value then replacement else operand) =
          (function.operation operation).operands.map id := by
      refine List.map_congr_left fun operand member => if_neg ?_
      rintro rfl
      exact unused member
    simp only [unchanged, List.map_id]

end Operands

/-! ## Changing a rule -/

/-- A rule is neither an operand nor a result. -/
theorem operation_withRule (function : Function) (changed operation : OperationId)
    (attached : Option FactorRule) :
    ((function.withRule changed attached).operation operation).operands =
        (function.operation operation).operands ∧
      ((function.withRule changed attached).operation operation).results =
        (function.operation operation).results := by
  simp only [Function.operation, withRule, List.getElem?_modify]
  cases function.operations[operation.index]? <;> simp
  split <;> simp

/-! ## Signatures -/

/-- The signature of an operation depends on the operation and the tensors it mentions. -/
theorem signature_congr {first second : Function} {operation : OperationId}
    (sameOperation : first.operation operation = second.operation operation)
    (sameOperands : ∀ value ∈ (second.operation operation).operands,
      first.tensor value = second.tensor value)
    (sameResults : ∀ value ∈ (second.operation operation).results,
      first.tensor value = second.tensor value) :
    first.signature operation = second.signature operation := by
  simp only [Function.signature, sameOperation, Signature.mk.injEq, true_and]
  exact ⟨List.map_congr_left sameOperands, List.map_congr_left sameResults⟩

end Function

end MeshSharding
