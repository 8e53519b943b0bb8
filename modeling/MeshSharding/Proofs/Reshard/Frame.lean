import MeshSharding.Proofs.Reshard.Edits

/-!
# What a run leaves alone

A run only adds. Operations and values that exist keep their kinds, rules,
results and types, arguments keep their shardings as well, and the declared
results of the function stay as declared. Every operation that is added is a
reshard with one operand and one result of the same type, and the body is the
old one with these operations put into it (`Extends`).
-/

set_option autoImplicit false

namespace MeshSharding

namespace Function

/-- A function with reshards added to the operations and values of a base. -/
structure Extends (base current : Function) : Prop where
  operations_le : base.operations.length ≤ current.operations.length
  values_le : base.values.length ≤ current.values.length
  arguments_eq : current.arguments = base.arguments
  results_eq : current.results = base.results
  kept : ∀ operation : OperationId, operation.index < base.operations.length →
    (current.operation operation).kind = (base.operation operation).kind ∧
      (current.operation operation).attached = (base.operation operation).attached ∧
      (current.operation operation).results = (base.operation operation).results
  typed : ∀ value : ValueId, value.index < base.values.length →
    (current.tensor value).type = (base.tensor value).type ∧
      current.origin? value = base.origin? value
  argument_tensor : ∀ value ∈ base.arguments, current.tensor value = base.tensor value
  inserted : ∀ operation : OperationId, base.operations.length ≤ operation.index →
    operation.index < current.operations.length → ∃ operand result,
      current.operation operation = ⟨.reshard, [operand], [result], none⟩ ∧
        (current.tensor result).type = (current.tensor operand).type
  body_filter :
    (current.body.filter fun operation => decide (operation.index < base.operations.length)) =
      base.body

namespace Extends

variable {base current : Function}

theorem refl (wellFormed : base.WellFormed) : base.Extends base where
  operations_le := Nat.le_refl _
  values_le := Nat.le_refl _
  arguments_eq := rfl
  results_eq := rfl
  kept _ _ := ⟨rfl, rfl, rfl⟩
  typed _ _ := ⟨rfl, rfl⟩
  argument_tensor _ _ := rfl
  inserted operation new old := absurd old (Nat.not_lt.mpr new)
  body_filter := by
    rw [List.filter_eq_self]
    intro operation member
    exact decide_eq_true ((wellFormed.mem_body_iff operation).mp member)

theorem value_lt (extended : base.Extends current) {value : ValueId}
    (old : value.index < base.values.length) : value.index < current.values.length :=
  Nat.lt_of_lt_of_le old extended.values_le

theorem ne_nextOperation (extended : base.Extends current) {operation : OperationId}
    (old : operation.index < base.operations.length) : operation ≠ current.nextOperation :=
  ne_nextOperation_of_lt (Nat.lt_of_lt_of_le old extended.operations_le)

/-- The operands and results of an added operation are values of the function. -/
theorem inserted_lt (wellFormed : current.WellFormed) {operation : OperationId}
    {operand result : ValueId}
    (isReshard : current.operation operation = ⟨.reshard, [operand], [result], none⟩) :
    operand.index < current.values.length ∧ result.index < current.values.length :=
  ⟨wellFormed.operand_lt operation operand (by simp [isReshard]),
    wellFormed.result_lt (show result ∈ (current.operation operation).results by simp [isReshard])⟩

theorem reshardOperand (extended : base.Extends current) (wellFormed : current.WellFormed)
    {operation : OperationId} (original : operation.index < base.operations.length)
    (change : OperandChange) : base.Extends (current.reshardOperand operation change) := by
  cases found : (current.operation operation).operands[change.slot]? with
  | none =>
    rw [reshardOperand_of_none found]
    exact extended
  | some operand =>
    have operandKnown := wellFormed.operand_lt operation operand (List.mem_of_getElem? found)
    exact {
      operations_le := by
        rw [length_operations_reshardOperand found]
        exact Nat.le_succ_of_le extended.operations_le
      values_le := by
        rw [length_values_reshardOperand found]
        exact Nat.le_succ_of_le extended.values_le
      arguments_eq := by
        rw [reshardOperand_of_some found]
        exact extended.arguments_eq
      results_eq := by
        rw [reshardOperand_of_some found]
        exact extended.results_eq
      kept := by
        intro other old
        by_cases same : other = operation
        · subst same
          rw [operation_reshardOperand_self found]
          exact extended.kept other old
        · rw [operation_reshardOperand_of_ne found same (extended.ne_nextOperation old)]
          exact extended.kept other old
      typed := by
        intro other old
        rw [tensor_reshardOperand_of_lt _ _ (extended.value_lt old),
          origin?_reshardOperand_of_lt _ _ (extended.value_lt old)]
        exact extended.typed other old
      argument_tensor := by
        intro other member
        have isArgument : other ∈ current.arguments := by rwa [extended.arguments_eq]
        rw [tensor_reshardOperand_of_lt _ _ (wellFormed.argument_lt isArgument)]
        exact extended.argument_tensor other member
      inserted := by
        intro other new created
        rw [length_operations_reshardOperand found] at created
        rcases lt_or_eq_nextOperation created with old | rfl
        · obtain ⟨source, result, isReshard, sameType⟩ := extended.inserted other new old
          have known := inserted_lt wellFormed isReshard
          have differ : other ≠ operation := by
            rintro rfl
            omega
          refine ⟨source, result, ?_, ?_⟩
          · rw [operation_reshardOperand_of_ne found differ (ne_nextOperation_of_lt old), isReshard]
          · rw [tensor_reshardOperand_of_lt _ _ known.1, tensor_reshardOperand_of_lt _ _ known.2,
              sameType]
        · refine ⟨operand, current.nextValue, operation_reshardOperand_next found, ?_⟩
          rw [tensor_reshardOperand_next found, tensor_reshardOperand_of_lt _ _ operandKnown]
      body_filter := by
        rw [body_reshardOperand found, filter_insertedBefore, extended.body_filter]
        exact decide_eq_false (Nat.not_lt.mpr extended.operations_le) }

theorem reshardResult (extended : base.Extends current) (wellFormed : current.WellFormed)
    {operation : OperationId} {result : ValueId}
    (isResult : result ∈ (current.operation operation).results) (anchor : OperationId)
    (change : ResultChange) : base.Extends (current.reshardResult anchor result change) := by
  have resultKnown := wellFormed.result_lt isResult
  exact {
    operations_le := by
      rw [length_operations_reshardResult]
      exact Nat.le_succ_of_le extended.operations_le
    values_le := by
      rw [length_values_reshardResult]
      exact Nat.le_succ_of_le extended.values_le
    arguments_eq := extended.arguments_eq
    results_eq := extended.results_eq
    kept := by
      intro other old
      rw [operation_reshardResult_of_ne _ _ _ _ (extended.ne_nextOperation old)]
      exact extended.kept other old
    typed := by
      intro other old
      rw [type_reshardResult_of_lt _ _ _ (extended.value_lt old),
        origin?_reshardResult_of_lt _ _ _ _ (extended.value_lt old)]
      exact extended.typed other old
    argument_tensor := by
      intro other member
      have isArgument : other ∈ current.arguments := by rwa [extended.arguments_eq]
      have differ : other ≠ result := by
        rintro rfl
        exact wellFormed.notMem_arguments isResult isArgument
      rw [tensor_reshardResult_of_ne _ _ _ (wellFormed.argument_lt isArgument) differ]
      exact extended.argument_tensor other member
    inserted := by
      intro other new created
      rw [length_operations_reshardResult] at created
      rcases lt_or_eq_nextOperation created with old | rfl
      · obtain ⟨source, target, isReshard, sameType⟩ := extended.inserted other new old
        have known := inserted_lt wellFormed isReshard
        refine ⟨if source = result then current.nextValue else source, target, ?_, ?_⟩
        · rw [operation_reshardResult_of_ne _ _ _ _ (ne_nextOperation_of_lt old), isReshard]
          rfl
        · rw [type_reshardResult_of_lt _ _ _ known.2, sameType]
          by_cases redirected : source = result
          · rw [if_pos redirected, tensor_reshardResult_next _ _ _ resultKnown, redirected]
          · rw [if_neg redirected, type_reshardResult_of_lt _ _ _ known.1]
      · refine ⟨result, current.nextValue, operation_reshardResult_next .., ?_⟩
        rw [tensor_reshardResult_next _ _ _ resultKnown, type_reshardResult_of_lt _ _ _ resultKnown]
    body_filter := by
      rw [body_reshardResult, filter_insertedAfter, extended.body_filter]
      exact decide_eq_false (Nat.not_lt.mpr extended.operations_le) }

/-- Resharding operands of an operation of the base extends the base. -/
theorem reshardOperands (extended : base.Extends current) (wellFormed : current.WellFormed)
    {operation : OperationId} (original : operation.index < base.operations.length)
    (changes : List OperandChange) : base.Extends (current.reshardOperands operation changes) :=
  (reshardOperands_induction (fun later => later.WellFormed ∧ base.Extends later) operation changes
    (fun _ change _ both => ⟨both.1.reshardOperand operation change,
      both.2.reshardOperand both.1 original change⟩)
    ⟨wellFormed, extended⟩).2

end Extends

end Function

end MeshSharding
