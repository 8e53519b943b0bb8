import MeshSharding.Reshard.Run
import MeshSharding.Proofs.Program.WellFormed

/-!
# What one reshard changes

A run edits a function in two ways only: an operand of an operation is resharded
before it, or a result is resharded after it. Both create one operation with one
operand and one result. This module says what the function reads like after
either edit, that both keep it well formed, and that whatever both preserve is
preserved by a whole run (`reshardFrom_induction`).
-/

set_option autoImplicit false

namespace MeshSharding

namespace Function

variable {function : Function}

/-! ## The new operation -/

section Created

variable (function) (value : ValueId) (target : TensorSharding)

@[simp]
theorem length_operations_createReshard :
    (function.createReshard value target).operations.length = function.operations.length + 1 :=
  length_operations_create _ _ _ _

@[simp]
theorem length_values_createReshard :
    (function.createReshard value target).values.length = function.values.length + 1 := by
  simp [createReshard]

@[simp]
theorem operation_createReshard_next :
    (function.createReshard value target).operation function.nextOperation =
      ⟨.reshard, [value], [function.nextValue], none⟩ := by
  rw [createReshard, operation_withSharding, operation_create_next]
  rfl

theorem operation_createReshard_of_ne {operation : OperationId}
    (differ : operation ≠ function.nextOperation) :
    (function.createReshard value target).operation operation = function.operation operation := by
  rw [createReshard, operation_withSharding]
  exact (operation_create_cases function operation).resolve_right differ

theorem tensor_createReshard_next :
    (function.createReshard value target).tensor function.nextValue =
      ⟨(function.tensor value).type, some target⟩ := by
  rw [createReshard, tensor_withSharding_self _ _ (by simp [nextValue]), tensor_create_next]

theorem tensor_createReshard_of_lt {other : ValueId}
    (known : other.index < function.values.length) :
    (function.createReshard value target).tensor other = function.tensor other := by
  rw [createReshard, tensor_withSharding_of_ne _ _ (ne_nextValue_of_lt known),
    tensor_create_of_lt _ known]

theorem origin?_createReshard_of_lt {other : ValueId}
    (known : other.index < function.values.length) :
    (function.createReshard value target).origin? other = function.origin? other := by
  rw [createReshard, origin?_withSharding, origin?_create_of_lt _ known]

theorem origin?_createReshard_next :
    (function.createReshard value target).origin? function.nextValue =
      some (.result function.nextOperation 0) := by
  rw [createReshard, origin?_withSharding, origin?_create_of_le _ (by simp [nextValue])]
  exact ⟨0, by simp, rfl, rfl⟩

end Created

/-! ## Resharding an operand -/

section Operand

variable {operation : OperationId} {change : OperandChange} {value : ValueId}

theorem reshardOperand_of_none
    (missing : (function.operation operation).operands[change.slot]? = none) :
    function.reshardOperand operation change = function := by
  simp only [reshardOperand, missing]

theorem reshardOperand_of_some
    (found : (function.operation operation).operands[change.slot]? = some value) :
    function.reshardOperand operation change =
      ((function.createReshard value change.target).withBody
        (insertedBefore operation function.nextOperation function.body)).withOperand
          ⟨operation, change.slot⟩ function.nextValue := by
  simp only [reshardOperand, found]
  rfl

variable (found : (function.operation operation).operands[change.slot]? = some value)
include found

theorem operation_lt_of_operand : operation.index < function.operations.length :=
  lt_of_mem_operands (List.mem_of_getElem? found)

theorem body_reshardOperand : (function.reshardOperand operation change).body =
    insertedBefore operation function.nextOperation function.body := by
  rw [reshardOperand_of_some found]
  rfl

theorem length_operations_reshardOperand :
    (function.reshardOperand operation change).operations.length =
      function.operations.length + 1 := by
  rw [reshardOperand_of_some found, length_operations_withOperand]
  exact length_operations_createReshard function value change.target

theorem length_values_reshardOperand :
    (function.reshardOperand operation change).values.length = function.values.length + 1 := by
  rw [reshardOperand_of_some found]
  exact length_values_createReshard function value change.target

theorem operation_reshardOperand_self :
    (function.reshardOperand operation change).operation operation =
      { function.operation operation with
        operands := (function.operation operation).operands.set change.slot
          function.nextValue } := by
  rw [reshardOperand_of_some found, operation_withOperand_self, operation_withBody,
    operation_createReshard_of_ne _ _ _ (ne_nextOperation_of_lt (operation_lt_of_operand found))]

theorem operation_reshardOperand_next :
    (function.reshardOperand operation change).operation function.nextOperation =
      ⟨.reshard, [value], [function.nextValue], none⟩ := by
  rw [reshardOperand_of_some found,
    operation_withOperand_of_ne _ (ne_nextOperation_of_lt (operation_lt_of_operand found)).symm,
    operation_withBody, operation_createReshard_next]

theorem operation_reshardOperand_of_ne {other : OperationId} (differ : other ≠ operation)
    (old : other ≠ function.nextOperation) :
    (function.reshardOperand operation change).operation other = function.operation other := by
  rw [reshardOperand_of_some found, operation_withOperand_of_ne _ differ, operation_withBody,
    operation_createReshard_of_ne _ _ _ old]

omit found in
/-- No operation changes its results when an operand is resharded. -/
theorem results_reshardOperand (operation : OperationId) (change : OperandChange)
    {other : OperationId} (old : other ≠ function.nextOperation) :
    ((function.reshardOperand operation change).operation other).results =
      (function.operation other).results := by
  cases found : (function.operation operation).operands[change.slot]? with
  | none => rw [reshardOperand_of_none found]
  | some value =>
    by_cases same : other = operation
    · rw [same, operation_reshardOperand_self found]
    · rw [operation_reshardOperand_of_ne found same old]

theorem tensor_reshardOperand_next :
    (function.reshardOperand operation change).tensor function.nextValue =
      ⟨(function.tensor value).type, some change.target⟩ := by
  rw [reshardOperand_of_some found, tensor_withOperand, tensor_withBody,
    tensor_createReshard_next]

omit found in
theorem tensor_reshardOperand_of_lt (operation : OperationId) (change : OperandChange)
    {other : ValueId}
    (known : other.index < function.values.length) :
    (function.reshardOperand operation change).tensor other = function.tensor other := by
  cases found : (function.operation operation).operands[change.slot]? with
  | none => rw [reshardOperand_of_none found]
  | some value =>
    rw [reshardOperand_of_some found, tensor_withOperand, tensor_withBody,
      tensor_createReshard_of_lt _ _ _ known]

omit found in
theorem origin?_reshardOperand_of_lt (operation : OperationId) (change : OperandChange)
    {other : ValueId}
    (known : other.index < function.values.length) :
    (function.reshardOperand operation change).origin? other = function.origin? other := by
  cases found : (function.operation operation).operands[change.slot]? with
  | none => rw [reshardOperand_of_none found]
  | some value =>
    rw [reshardOperand_of_some found, origin?_withOperand, origin?_withBody,
      origin?_createReshard_of_lt _ _ _ known]

theorem origin?_reshardOperand_next :
    (function.reshardOperand operation change).origin? function.nextValue =
      some (.result function.nextOperation 0) := by
  rw [reshardOperand_of_some found, origin?_withOperand, origin?_withBody,
    origin?_createReshard_next]

omit found in
/-- Resharding an operand keeps a function well formed. -/
theorem WellFormed.reshardOperand (wellFormed : function.WellFormed)
    (operation : OperationId) (change : OperandChange) :
    (function.reshardOperand operation change).WellFormed := by
  cases found : (function.operation operation).operands[change.slot]? with
  | none =>
    rw [reshardOperand_of_none found]
    exact wellFormed
  | some value =>
    have known := wellFormed.operand_lt operation value (List.mem_of_getElem? found)
    have placed : operation ∈ function.body :=
      (wellFormed.mem_body_iff operation).mpr (operation_lt_of_operand found)
    rw [reshardOperand_of_some found]
    refine WellFormed.withOperand ?_ _ ?_
    · exact (wellFormed.place .reshard [(function.tensor value).type]
        (by simpa using known) (insertedBefore_perm placed)).withSharding _ _
    · change function.values.length < (function.createReshard value change.target).values.length
      simp

end Operand

/-- Operations of the body stay there when an operand is resharded. -/
theorem mem_body_reshardOperand {operation other : OperationId} {change : OperandChange}
    (member : other ∈ function.body) :
    other ∈ (function.reshardOperand operation change).body := by
  cases found : (function.operation operation).operands[change.slot]? with
  | none =>
    rw [reshardOperand_of_none found]
    exact member
  | some value =>
    rw [body_reshardOperand found]
    exact mem_insertedBefore_of_mem member

/-! ## Resharding a result -/

section Result

variable (function) (anchor : OperationId) (result : ValueId) (change : ResultChange)

theorem reshardResult_eq :
    function.reshardResult anchor result change =
      (((function.createReshard result change.restored).withBody
        (insertedAfter anchor function.nextOperation function.body)).withUsesReplaced result
          function.nextValue function.nextOperation).withSharding result (some change.target) :=
  rfl

theorem body_reshardResult : (function.reshardResult anchor result change).body =
    insertedAfter anchor function.nextOperation function.body := rfl

variable {function anchor} in
/-- The reshard stands in the body, so that the next one can be put after it. -/
theorem nextOperation_mem_body_reshardResult (placed : anchor ∈ function.body) :
    function.nextOperation ∈ (function.reshardResult anchor result change).body :=
  (insertedAfter_perm placed).mem_iff.mpr List.mem_cons_self

theorem length_operations_reshardResult :
    (function.reshardResult anchor result change).operations.length =
      function.operations.length + 1 := by
  rw [reshardResult_eq]
  change ((function.createReshard result change.restored).withUsesReplaced _ _ _).operations.length
    = _
  simp

theorem length_values_reshardResult :
    (function.reshardResult anchor result change).values.length = function.values.length + 1 := by
  rw [reshardResult_eq, length_values_withSharding]
  exact length_values_createReshard function result change.restored

theorem operation_reshardResult_next :
    (function.reshardResult anchor result change).operation function.nextOperation =
      ⟨.reshard, [result], [function.nextValue], none⟩ := by
  rw [reshardResult_eq, operation_withSharding, operation_withUsesReplaced_kept,
    operation_withBody, operation_createReshard_next]

theorem operation_reshardResult_of_ne {operation : OperationId}
    (old : operation ≠ function.nextOperation) :
    (function.reshardResult anchor result change).operation operation =
      { function.operation operation with
        operands := (function.operation operation).operands.map fun operand =>
          if operand = result then function.nextValue else operand } := by
  rw [reshardResult_eq, operation_withSharding, operation_withUsesReplaced_of_ne _ old,
    operation_withBody, operation_createReshard_of_ne _ _ _ old]

/-- Operations that do not use the result stay as they are. -/
theorem operation_reshardResult_of_notMem {operation : OperationId}
    (old : operation ≠ function.nextOperation)
    (unused : result ∉ (function.operation operation).operands) :
    (function.reshardResult anchor result change).operation operation =
      function.operation operation := by
  rw [reshardResult_eq, operation_withSharding, operation_withUsesReplaced_of_notMem,
    operation_withBody, operation_createReshard_of_ne _ _ _ old]
  rw [operation_withBody, operation_createReshard_of_ne _ _ _ old]
  exact unused

variable {result}

theorem tensor_reshardResult_next (known : result.index < function.values.length) :
    (function.reshardResult anchor result change).tensor function.nextValue =
      ⟨(function.tensor result).type, some change.restored⟩ := by
  rw [reshardResult_eq, tensor_withSharding_of_ne _ _ (ne_nextValue_of_lt known).symm,
    tensor_withUsesReplaced, tensor_withBody, tensor_createReshard_next]

theorem tensor_reshardResult_self (known : result.index < function.values.length) :
    (function.reshardResult anchor result change).tensor result =
      ⟨(function.tensor result).type, some change.target⟩ := by
  rw [reshardResult_eq, tensor_withSharding_self, tensor_withUsesReplaced, tensor_withBody,
    tensor_createReshard_of_lt _ _ _ known]
  change result.index < (function.createReshard result change.restored).values.length
  rw [length_values_createReshard]
  exact Nat.lt_succ_of_lt known

theorem tensor_reshardResult_of_ne {other : ValueId}
    (known : other.index < function.values.length) (differ : other ≠ result) :
    (function.reshardResult anchor result change).tensor other = function.tensor other := by
  rw [reshardResult_eq, tensor_withSharding_of_ne _ _ differ, tensor_withUsesReplaced,
    tensor_withBody, tensor_createReshard_of_lt _ _ _ known]

/-- No known value changes its type when a result is resharded. -/
theorem type_reshardResult_of_lt {other : ValueId}
    (known : other.index < function.values.length) :
    ((function.reshardResult anchor result change).tensor other).type =
      (function.tensor other).type := by
  rw [reshardResult_eq, type_withSharding, tensor_withUsesReplaced, tensor_withBody,
    tensor_createReshard_of_lt _ _ _ known]

variable (result) in
theorem origin?_reshardResult_of_lt {other : ValueId}
    (known : other.index < function.values.length) :
    (function.reshardResult anchor result change).origin? other = function.origin? other := by
  rw [reshardResult_eq, origin?_withSharding, origin?_withUsesReplaced, origin?_withBody,
    origin?_createReshard_of_lt _ _ _ known]

theorem origin?_reshardResult_next :
    (function.reshardResult anchor result change).origin? function.nextValue =
      some (.result function.nextOperation 0) := by
  rw [reshardResult_eq, origin?_withSharding, origin?_withUsesReplaced, origin?_withBody,
    origin?_createReshard_next]

variable {function anchor}

/-- Resharding a result after an operation of the body keeps a function well formed. -/
theorem WellFormed.reshardResult (wellFormed : function.WellFormed)
    (placed : anchor ∈ function.body) (known : result.index < function.values.length)
    (change : ResultChange) : (function.reshardResult anchor result change).WellFormed := by
  rw [reshardResult_eq]
  refine (WellFormed.withUsesReplaced ?_ _ ?_ _).withSharding _ _
  · exact (wellFormed.place .reshard [(function.tensor result).type]
      (by simpa using known) (insertedAfter_perm placed)).withSharding _ _
  · change function.values.length < (function.createReshard result change.restored).values.length
    simp

end Result

/-! ## Whole runs -/

section Induction

variable (Holds : Function → Prop)

/-- What resharding operands of a list one by one preserves, resharding all of them preserves. -/
theorem reshardOperands_induction (operation : OperationId) (changes : List OperandChange)
    (step : ∀ (current : Function), ∀ change ∈ changes, Holds current →
      Holds (current.reshardOperand operation change))
    {start : Function} (holds : Holds start) :
    Holds (start.reshardOperands operation changes) := by
  induction changes generalizing start with
  | nil => exact holds
  | cons change rest ih =>
    exact ih (fun current later isLater => step current later (List.mem_cons_of_mem _ isLater))
      (step start change List.mem_cons_self holds)

/-- What resharding the results of a list one by one, after operations of the body, preserves,
resharding all of them preserves. -/
theorem reshardResults_induction (operation : OperationId) (changes : List ResultChange)
    (step : ∀ (current : Function) (anchor : OperationId) (result : ValueId),
      ∀ change ∈ changes, Holds current → anchor ∈ current.body →
      (current.operation operation).results[change.index]? = some result →
      Holds (current.reshardResult anchor result change))
    {start : Function} {anchor : OperationId}
    (holds : Holds start) (placed : anchor ∈ start.body) :
    Holds (start.reshardResults operation anchor changes) := by
  induction changes generalizing start anchor with
  | nil => exact holds
  | cons change rest ih =>
    have later := fun current anchor result later isLater =>
      step current anchor result later (List.mem_cons_of_mem _ isLater)
    cases found : (start.operation operation).results[change.index]? with
    | none =>
      simp only [reshardResults, found]
      exact ih later holds placed
    | some result =>
      simp only [reshardResults, found]
      exact ih later (step start anchor result change List.mem_cons_self holds placed found)
        (nextOperation_mem_body_reshardResult result change placed)

/-- What single reshards at an operation preserve, carrying out a decision about it preserves. -/
theorem carryOut_induction (operation : OperationId)
    (operand : ∀ (current : Function) (change : OperandChange), Holds current →
      Holds (current.reshardOperand operation change))
    (result : ∀ (current : Function) (anchor : OperationId) (value : ValueId)
      (change : ResultChange), Holds current → anchor ∈ current.body →
      value ∈ (current.operation operation).results →
      Holds (current.reshardResult anchor value change))
    (decision : Decision) {start : Function} (placed : operation ∈ start.body)
    (holds : Holds start) : Holds (start.carryOut operation decision) := by
  cases decision with
  | skip reason => exact holds
  | exit changes =>
    exact reshardOperands_induction Holds operation changes
      (fun current change _ => operand current change) holds
  | revise revision =>
    have stillPlaced : operation ∈ (start.reshardOperands operation revision.operands).body :=
      reshardOperands_induction (operation ∈ ·.body) operation revision.operands
        (fun _ _ _ member => mem_body_reshardOperand member) placed
    exact reshardResults_induction Holds operation revision.results
      (fun current anchor value change _ held anchored found =>
        result current anchor value change held anchored (List.mem_of_getElem? found))
      (reshardOperands_induction Holds operation revision.operands
        (fun current change _ => operand current change) holds) stillPlaced

/-- **What single reshards preserve, a run preserves**, also a run that ends early. The operations
whose operands and results are resharded are those that the run visits, and they stay in the
body. -/
theorem reshardFrom_induction (meshes : SymbolTable) (visited : List OperationId)
    (operand : ∀ (current : Function) (operation : OperationId) (change : OperandChange),
      operation ∈ visited → Holds current → Holds (current.reshardOperand operation change))
    (result : ∀ (current : Function) (operation anchor : OperationId) (value : ValueId)
      (change : ResultChange), operation ∈ visited → Holds current → anchor ∈ current.body →
      value ∈ (current.operation operation).results →
      Holds (current.reshardResult anchor value change))
    {start : Function} (placed : ∀ operation ∈ visited, operation ∈ start.body)
    (holds : Holds start) : Holds (reshardFrom meshes start visited).function := by
  -- the induction also carries that the operations still to be visited stand in the body
  let Carried := fun current : Function =>
    Holds current ∧ ∀ operation ∈ visited, operation ∈ current.body
  have keeps : ∀ (rest : List OperationId), (∀ operation ∈ rest, operation ∈ visited) →
      ∀ current : Function, Carried current →
        Holds (reshardFrom meshes current rest).function := by
    intro rest
    induction rest with
    | nil => exact fun _ _ both => both.1
    | cons operation rest ih =>
      intro among current both
      have isVisited := among operation (List.mem_cons_self ..)
      simp only [reshardFrom]
      split
      · exact both.1
      · rename_i decision _
        refine ih (fun other member => among other (List.mem_cons_of_mem _ member)) _ ?_
        refine carryOut_induction Carried operation
          (fun current change both => ⟨operand current operation change isVisited both.1,
            fun other member => mem_body_reshardOperand (both.2 other member)⟩)
          (fun current anchor value change both anchored isResult =>
            ⟨result current operation anchor value change isVisited both.1 anchored isResult, ?_⟩)
          decision (both.2 operation isVisited) both
        intro other member
        rw [body_reshardResult]
        exact mem_insertedAfter_of_mem (both.2 other member)
  exact keeps visited (fun _ member => member) start ⟨holds, placed⟩

end Induction

/-- A run keeps a function well formed. -/
theorem WellFormed.reshard (wellFormed : function.WellFormed) (meshes : SymbolTable) :
    (function.reshard meshes).function.WellFormed :=
  reshardFrom_induction WellFormed meshes function.body
    (fun _ operation change _ wellFormed => wellFormed.reshardOperand operation change)
    (fun _ _ _ _ change _ wellFormed placed isResult =>
      wellFormed.reshardResult placed (wellFormed.result_lt isResult) change)
    (fun _ member => member) wellFormed

end Function

end MeshSharding
