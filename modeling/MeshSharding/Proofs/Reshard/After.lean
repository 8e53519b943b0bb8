import Mathlib.Data.List.Nodup
import MeshSharding.Proofs.Reshard.Edits

/-!
# Signatures after a decision

Carrying out a decision about an operation changes its signature in one way:
operands and results get the shardings that were decided (`Signature.after`).
Other operations keep their signatures unless they use one of the results, and
then they keep all but shardings (`Signature.unsharded`).
-/

set_option autoImplicit false

namespace MeshSharding

/-- The tensor with a sharding. -/
def Tensor.withSharding (tensor : Tensor) (sharding : TensorSharding) : Tensor :=
  { tensor with sharding := some sharding }

/-- The tensor without its sharding. -/
def Tensor.unsharded (tensor : Tensor) : Tensor :=
  { tensor with sharding := none }

/-- The operands that a decision reshards. -/
def Decision.operandChanges : Decision → List OperandChange
  | .exit operands => operands
  | .skip _ => []
  | .revise revision => revision.operands

/-- The results that a decision reshards. -/
def Decision.resultChanges : Decision → List ResultChange
  | .exit _ => []
  | .skip _ => []
  | .revise revision => revision.results

/-- Tensors with other shardings in some places. -/
def retargeted (tensors : List Tensor) (changes : List (Nat × TensorSharding)) : List Tensor :=
  changes.foldl (fun changed change => changed.modify change.1 (·.withSharding change.2)) tensors

theorem getElem?_retargeted_of_notMem {tensors : List Tensor}
    {changes : List (Nat × TensorSharding)} {index : Nat}
    (untouched : index ∉ changes.map Prod.fst) : (retargeted tensors changes)[index]? =
      tensors[index]? := by
  induction changes generalizing tensors with
  | nil => rfl
  | cons change rest ih =>
    rw [List.map_cons, List.mem_cons, not_or] at untouched
    refine (ih untouched.2).trans ?_
    rw [List.getElem?_modify_ne _ _ fun same => untouched.1 same.symm]

theorem length_retargeted (tensors : List Tensor) (changes : List (Nat × TensorSharding)) :
    (retargeted tensors changes).length = tensors.length := by
  induction changes generalizing tensors with
  | nil => rfl
  | cons change rest ih => exact (ih _).trans (List.length_modify ..)

/-- Every tensor is as it was or has the sharding of a change. -/
theorem getElem?_retargeted_cases {tensors : List Tensor}
    {changes : List (Nat × TensorSharding)} {index : Nat} {tensor : Tensor}
    (found : (retargeted tensors changes)[index]? = some tensor) :
    ∃ old, tensors[index]? = some old ∧
      (tensor = old ∨ ∃ sharding, (index, sharding) ∈ changes ∧
        tensor = old.withSharding sharding) := by
  induction changes generalizing tensors with
  | nil => exact ⟨tensor, found, .inl rfl⟩
  | cons change rest ih =>
    obtain ⟨between, isBetween, outcome⟩ := ih found
    rw [List.getElem?_modify] at isBetween
    obtain ⟨old, isOld, isChanged⟩ := Option.map_eq_some_iff.mp isBetween
    refine ⟨old, isOld, ?_⟩
    rcases outcome with rfl | ⟨sharding, member, rfl⟩
    · by_cases here : change.1 = index
      · rw [if_pos here] at isChanged
        subst here
        exact .inr ⟨change.2, List.mem_cons_self .., isChanged.symm⟩
      · rw [if_neg here] at isChanged
        exact .inl isChanged.symm
    · refine .inr ⟨sharding, List.mem_cons_of_mem _ member, ?_⟩
      by_cases here : change.1 = index
      · rw [if_pos here] at isChanged
        rw [← isChanged]
        rfl
      · rw [if_neg here] at isChanged
        rw [isChanged]

/-- If no place is changed twice, every place has the sharding that it is changed to. -/
theorem getElem?_retargeted_of_mem {tensors : List Tensor}
    {changes : List (Nat × TensorSharding)} {index : Nat} {sharding : TensorSharding}
    (distinct : (changes.map Prod.fst).Nodup) (member : (index, sharding) ∈ changes) :
    (retargeted tensors changes)[index]? = tensors[index]?.map (·.withSharding sharding) := by
  induction changes generalizing tensors with
  | nil => exact absurd member List.not_mem_nil
  | cons change rest ih =>
    obtain ⟨absent, restDistinct⟩ := List.nodup_cons.mp distinct
    rcases List.mem_cons.mp member with rfl | later
    · refine (getElem?_retargeted_of_notMem absent).trans ?_
      rw [List.getElem?_modify_eq]
      rfl
    · refine (ih restDistinct later).trans ?_
      have differ : change.1 ≠ index := by
        intro same
        exact absent (List.mem_map.mpr ⟨_, later, same.symm⟩)
      rw [List.getElem?_modify_ne _ _ differ]

namespace Signature

/-- The signature without shardings. -/
def unsharded (signature : Signature) : Signature :=
  { signature with
    operands := signature.operands.map Tensor.unsharded
    results := signature.results.map Tensor.unsharded }

/-- The signature with another sharding for an operand. -/
def withOperand (signature : Signature) (change : OperandChange) : Signature :=
  { signature with
    operands := signature.operands.modify change.slot (·.withSharding change.target) }

/-- The signature with another sharding for a result. -/
def withResult (signature : Signature) (change : ResultChange) : Signature :=
  { signature with
    results := signature.results.modify change.index (·.withSharding change.target) }

/-- The signature after a decision has been carried out. -/
def after (signature : Signature) (decision : Decision) : Signature :=
  decision.resultChanges.foldl withResult (decision.operandChanges.foldl withOperand signature)

variable {signature : Signature}

theorem unsharded_modify (tensors : List Tensor) (index : Nat) (sharding : TensorSharding) :
    (tensors.modify index (·.withSharding sharding)).map Tensor.unsharded =
      tensors.map Tensor.unsharded := by
  apply List.ext_getElem?
  intro place
  rw [List.getElem?_map, List.getElem?_map, List.getElem?_modify]
  cases tensors[place]? with
  | none => rfl
  | some tensor =>
    by_cases same : index = place
    · simp only [same, if_true]
      rfl
    · simp only [same, if_false]
      rfl

theorem unsharded_withOperand (change : OperandChange) :
    (signature.withOperand change).unsharded = signature.unsharded := by
  simp only [unsharded, withOperand, unsharded_modify]

theorem unsharded_withResult (change : ResultChange) :
    (signature.withResult change).unsharded = signature.unsharded := by
  simp only [unsharded, withResult, unsharded_modify]

theorem unsharded_withOperands (changes : List OperandChange) :
    (changes.foldl withOperand signature).unsharded = signature.unsharded := by
  induction changes generalizing signature with
  | nil => rfl
  | cons change rest ih => exact ih.trans (unsharded_withOperand change)

theorem unsharded_withResults (changes : List ResultChange) :
    (changes.foldl withResult signature).unsharded = signature.unsharded := by
  induction changes generalizing signature with
  | nil => rfl
  | cons change rest ih => exact ih.trans (unsharded_withResult change)

/-- A decision changes nothing but shardings. -/
theorem unsharded_after (decision : Decision) :
    (signature.after decision).unsharded = signature.unsharded :=
  (unsharded_withResults _).trans (unsharded_withOperands _)

theorem operands_withOperands (changes : List OperandChange) :
    (changes.foldl withOperand signature).operands =
      retargeted signature.operands (changes.map fun change => (change.slot, change.target)) := by
  induction changes generalizing signature with
  | nil => rfl
  | cons change rest ih => exact ih

theorem results_withResults (changes : List ResultChange) :
    (changes.foldl withResult signature).results =
      retargeted signature.results (changes.map fun change => (change.index, change.target)) := by
  induction changes generalizing signature with
  | nil => rfl
  | cons change rest ih => exact ih

theorem results_withOperands (changes : List OperandChange) :
    (changes.foldl withOperand signature).results = signature.results := by
  induction changes generalizing signature with
  | nil => rfl
  | cons change rest ih => exact ih

theorem operands_withResults (changes : List ResultChange) :
    (changes.foldl withResult signature).operands = signature.operands := by
  induction changes generalizing signature with
  | nil => rfl
  | cons change rest ih => exact ih

theorem operands_after (decision : Decision) : (signature.after decision).operands =
    retargeted signature.operands
      (decision.operandChanges.map fun change => (change.slot, change.target)) := by
  rw [after, operands_withResults, operands_withOperands]

theorem results_after (decision : Decision) : (signature.after decision).results =
    retargeted signature.results
      (decision.resultChanges.map fun change => (change.index, change.target)) := by
  rw [after, results_withResults, results_withOperands]

end Signature

namespace Function

variable {function : Function}

theorem carryOut_eq (operation : OperationId) (decision : Decision) :
    function.carryOut operation decision =
      (function.reshardOperands operation decision.operandChanges).reshardResults operation
        operation decision.resultChanges := by
  cases decision <;> rfl

/-! ## Resharding an operand -/

section Operand

variable (wellFormed : function.WellFormed) (operation : OperationId) (change : OperandChange)
include wellFormed

theorem signature_reshardOperand_self :
    (function.reshardOperand operation change).signature operation =
      (function.signature operation).withOperand change := by
  cases found : (function.operation operation).operands[change.slot]? with
  | none =>
    rw [reshardOperand_of_none found, Signature.withOperand]
    have beyond : (function.signature operation).operands.length ≤ change.slot := by
      rw [Function.signature, List.length_map]
      exact List.getElem?_eq_none_iff.mp found
    rw [List.modify_eq_self beyond]
  | some value =>
    have slotBelow := (List.getElem?_eq_some_iff.mp found).1
    have sameResults : (function.operation operation).results.map
        (function.reshardOperand operation change).tensor =
          (function.operation operation).results.map function.tensor :=
      List.map_congr_left fun result isResult =>
        tensor_reshardOperand_of_lt _ _ (wellFormed.result_lt isResult)
    have newOperands : ((function.operation operation).operands.set change.slot
        function.nextValue).map (function.reshardOperand operation change).tensor =
          ((function.operation operation).operands.map function.tensor).modify change.slot
            (·.withSharding change.target) := by
      apply List.ext_getElem?
      intro slot
      rw [List.getElem?_map, List.getElem?_modify, List.getElem?_map]
      by_cases same : change.slot = slot
      · subst same
        rw [List.getElem?_set_self slotBelow, found]
        simp only [Option.map_some, if_true, tensor_reshardOperand_next found]
        rfl
      · rw [List.getElem?_set_ne same]
        cases present : (function.operation operation).operands[slot]? with
        | none => rfl
        | some operand =>
          have known := wellFormed.operand_lt operation operand (List.mem_of_getElem? present)
          simp only [Option.map_some, same, if_false, tensor_reshardOperand_of_lt _ _ known]
          rfl
    rw [Function.signature, operation_reshardOperand_self found, Signature.withOperand]
    simp only [sameResults, newOperands]
    rfl

/-- Resharding an operand touches no other operation. -/
theorem signature_reshardOperand_of_ne {other : OperationId} (differ : other ≠ operation)
    (old : other.index < function.operations.length) :
    (function.reshardOperand operation change).operation other = function.operation other ∧
      (function.reshardOperand operation change).signature other = function.signature other := by
  have sameOperation : (function.reshardOperand operation change).operation other =
      function.operation other := by
    cases found : (function.operation operation).operands[change.slot]? with
    | none => rw [reshardOperand_of_none found]
    | some value =>
      rw [operation_reshardOperand_of_ne found differ (ne_nextOperation_of_lt old)]
  refine ⟨sameOperation, signature_congr sameOperation ?_ ?_⟩
  · intro value isOperand
    exact tensor_reshardOperand_of_lt _ _ (wellFormed.operand_lt other value isOperand)
  · intro value isResult
    exact tensor_reshardOperand_of_lt _ _ (wellFormed.result_lt isResult)

end Operand

/-! ## Resharding a result -/

/-- The next operation has no results yet. -/
theorem ne_nextOperation_of_result {operation : OperationId} {result : ValueId}
    (isResult : result ∈ (function.operation operation).results) :
    operation ≠ function.nextOperation := by
  rintro rfl
  rw [results_of_le (by simp [nextOperation])] at isResult
  exact absurd isResult List.not_mem_nil

section Result

variable (wellFormed : function.WellFormed) (anchor : OperationId) {result : ValueId}
  (change : ResultChange)
include wellFormed

/-- Operations that have nothing to do with a result keep their signatures. -/
theorem signature_reshardResult_of_notMem {other : OperationId}
    (old : other.index < function.operations.length)
    (notUsed : result ∉ (function.operation other).operands)
    (notProduced : result ∉ (function.operation other).results) :
    (function.reshardResult anchor result change).signature other = function.signature other := by
  refine signature_congr (operation_reshardResult_of_notMem _ _ _ _
    (ne_nextOperation_of_lt old) notUsed) ?_ ?_
  · intro value isOperand
    refine tensor_reshardResult_of_ne _ _ _ (wellFormed.operand_lt other value isOperand) ?_
    rintro rfl
    exact notUsed isOperand
  · intro value isResult
    refine tensor_reshardResult_of_ne _ _ _ (wellFormed.result_lt isResult) ?_
    rintro rfl
    exact notProduced isResult

/-- The results of the operation that has the result are the same but for its sharding. -/
theorem results_reshardResult_self {operation : OperationId}
    (found : (function.operation operation).results[change.index]? = some result) :
    (function.operation operation).results.map
        (function.reshardResult anchor result change).tensor =
      ((function.operation operation).results.map function.tensor).modify change.index
        (·.withSharding change.target) := by
  have resultKnown := wellFormed.result_lt (List.mem_of_getElem? found)
  apply List.ext_getElem?
  intro index
  rw [List.getElem?_map, List.getElem?_modify, List.getElem?_map]
  by_cases same : change.index = index
  · subst same
    rw [found]
    simp only [Option.map_some, if_true, tensor_reshardResult_self _ _ _ resultKnown]
    rfl
  · cases present : (function.operation operation).results[index]? with
    | none => rfl
    | some other =>
      -- results are distinct, so this one is another value
      have differ : other ≠ result := by
        rintro rfl
        obtain ⟨below, here⟩ := List.getElem?_eq_some_iff.mp found
        obtain ⟨otherBelow, there⟩ := List.getElem?_eq_some_iff.mp present
        exact same ((List.Nodup.getElem_inj_iff (wellFormed.results_nodup operation)).mp
          (here.trans there.symm))
      have known := wellFormed.result_lt (List.mem_of_getElem? present)
      simp only [Option.map_some, same, if_false, tensor_reshardResult_of_ne _ _ _ known differ]
      rfl

/-- The operation that has the result keeps everything but its sharding. -/
theorem signature_reshardResult_self {operation : OperationId}
    (found : (function.operation operation).results[change.index]? = some result)
    (notUsed : result ∉ (function.operation operation).operands) :
    (function.reshardResult anchor result change).signature operation =
      (function.signature operation).withResult change := by
  have old : operation ≠ function.nextOperation :=
    ne_nextOperation_of_result (List.mem_of_getElem? found)
  have sameOperands : (function.operation operation).operands.map
      (function.reshardResult anchor result change).tensor =
        (function.operation operation).operands.map function.tensor := by
    apply List.map_congr_left
    intro operand isOperand
    refine tensor_reshardResult_of_ne _ _ _ (wellFormed.operand_lt operation operand isOperand) ?_
    rintro rfl
    exact notUsed isOperand
  rw [Function.signature, operation_reshardResult_of_notMem _ _ _ _ old notUsed,
    Signature.withResult]
  simp only [sameOperands, results_reshardResult_self wellFormed anchor change found]
  rfl

/-- Every operation keeps all but shardings when a result is resharded. -/
theorem unsharded_reshardResult (known : result.index < function.values.length)
    {other : OperationId} (old : other.index < function.operations.length) :
    ((function.reshardResult anchor result change).signature other).unsharded =
      (function.signature other).unsharded := by
  have sameType {value : ValueId} (valueKnown : value.index < function.values.length) :
      ((function.reshardResult anchor result change).tensor value).unsharded =
        (function.tensor value).unsharded :=
    congrArg (Tensor.mk · none) (type_reshardResult_of_lt _ _ _ valueKnown)
  have renamedType : ((function.reshardResult anchor result change).tensor
      function.nextValue).unsharded = (function.tensor result).unsharded := by
    rw [tensor_reshardResult_next _ _ _ known]
    rfl
  simp only [Signature.unsharded, Function.signature,
    operation_reshardResult_of_ne _ _ _ _ (ne_nextOperation_of_lt old), List.map_map,
    Signature.mk.injEq, true_and]
  constructor
  · apply List.map_congr_left
    intro operand isOperand
    simp only [Function.comp_apply]
    by_cases same : operand = result
    · rw [if_pos same, renamedType, same]
    · rw [if_neg same, sameType (wellFormed.operand_lt other operand isOperand)]
  · exact List.map_congr_left fun value isResult => sameType (wellFormed.result_lt isResult)

end Result

end Function

end MeshSharding
