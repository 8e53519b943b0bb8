import MeshSharding.Proofs.Program.Definition
import MeshSharding.Proofs.Reshard.After

/-!
# Reshards in a body that runs

A body in which every operand is defined before its use stays so when an operand
or a result is resharded: the new operation uses a value that is defined in
front of it, and whoever uses the new value stands behind it. The new values
have whatever property the decided shardings have (`Stage.reshardOperand`,
`Stage.reshardResult`).

For a result this needs that nothing in front of the new operation uses it, since
all uses are redirected.
-/

set_option autoImplicit false

namespace MeshSharding

namespace Function

/-! ## Bodies that run, under edits -/

section Runs

variable {first second : Function}

theorem definedBy_congr {body : List OperationId}
    (same : ∀ operation ∈ body, second.operation operation = first.operation operation) :
    second.definedBy body = first.definedBy body := by
  induction body with
  | nil => rfl
  | cons operation rest ih =>
    obtain ⟨sameFirst, sameRest⟩ := List.forall_mem_cons.mp same
    rw [definedBy_cons, definedBy_cons, sameFirst, ih sameRest]

theorem RunsFrom.congr {defined : List ValueId} {body : List OperationId}
    (runs : first.RunsFrom defined body)
    (same : ∀ operation ∈ body, second.operation operation = first.operation operation) :
    second.RunsFrom defined body := by
  induction body generalizing defined with
  | nil => trivial
  | cons operation rest ih =>
    obtain ⟨sameFirst, sameRest⟩ := List.forall_mem_cons.mp same
    obtain ⟨operands, later⟩ := runs
    refine ⟨?_, ?_⟩
    · rwa [sameFirst]
    · rw [sameFirst]
      exact ih later sameRest

/-- A body runs after a value has been replaced in it by one that is defined. -/
theorem RunsFrom.renamed {defined more : List ValueId} {body : List OperationId}
    (value : ValueId) {replacement : ValueId} (runs : first.RunsFrom defined body)
    (subset : ∀ other ∈ defined, other ∈ more) (available : replacement ∈ more)
    (same : ∀ operation ∈ body, second.operation operation =
      { first.operation operation with
        operands := (first.operation operation).operands.map fun operand =>
          if operand = value then replacement else operand }) :
    second.RunsFrom more body := by
  induction body generalizing defined more with
  | nil => trivial
  | cons operation rest ih =>
    obtain ⟨sameFirst, sameRest⟩ := List.forall_mem_cons.mp same
    obtain ⟨operands, later⟩ := runs
    rw [RunsFrom, sameFirst]
    constructor
    · intro operand isOperand
      obtain ⟨old, isOld, rfl⟩ := List.mem_map.mp isOperand
      by_cases replaced : old = value
      · rwa [if_pos replaced]
      · rw [if_neg replaced]
        exact subset old (operands old isOld)
    · refine ih later ?_ (List.mem_append_left _ available) sameRest
      intro other member
      rw [List.mem_append] at member ⊢
      exact member.imp_left (subset other)

end Runs

/-- The body runs, and the tensors of all values have a property. -/
structure Stage (Good : Tensor → Prop) (function : Function) : Prop where
  wellFormed : function.WellFormed
  runs : function.RunsFrom function.arguments function.body
  good : ∀ value : ValueId, value.index < function.values.length → Good (function.tensor value)

variable {Good : Tensor → Prop} {function : Function} {front back : List OperationId}

theorem WellFormed.notMem_front (wellFormed : function.WellFormed) {operation : OperationId}
    (body : function.body = front ++ operation :: back) : operation ∉ front := by
  have distinct := wellFormed.body_nodup
  rw [body, List.nodup_append] at distinct
  exact fun inFront => distinct.2.2 operation inFront operation (List.mem_cons_self ..) rfl

theorem WellFormed.notMem_back (wellFormed : function.WellFormed) {operation : OperationId}
    (body : function.body = front ++ operation :: back) : operation ∉ back := by
  have distinct := wellFormed.body_nodup
  rw [body, List.nodup_append] at distinct
  exact (List.nodup_cons.mp distinct.2.1).1

theorem WellFormed.lt_of_mem_body (wellFormed : function.WellFormed) {body : List OperationId}
    (isBody : function.body = body) {operation : OperationId} (member : operation ∈ body) :
    operation.index < function.operations.length := by
  rw [← wellFormed.mem_body_iff, isBody]
  exact member

/-- The tensors that an operation of the body mentions have the property too. -/
theorem Stage.good_signature (stage : function.Stage Good) (operation : OperationId) :
    ∀ tensor ∈ (function.signature operation).operands ++ (function.signature operation).results,
      Good tensor := by
  intro tensor member
  rcases List.mem_append.mp member with isOperand | isResult
  · obtain ⟨value, inOperands, rfl⟩ := List.mem_map.mp isOperand
    exact stage.good value (stage.wellFormed.operand_lt operation value inOperands)
  · obtain ⟨value, inResults, rfl⟩ := List.mem_map.mp isResult
    exact stage.good value (stage.wellFormed.result_lt inResults)

/-- Resharding an operand puts the new operation right before the one that uses it. -/
theorem Stage.reshardOperand (stage : function.Stage Good) {operation : OperationId}
    (body : function.body = front ++ operation :: back) {change : OperandChange} {value : ValueId}
    (found : (function.operation operation).operands[change.slot]? = some value)
    (good : Good ((function.tensor value).withSharding change.target)) :
    (function.reshardOperand operation change).Stage Good ∧
      (function.reshardOperand operation change).body =
        front ++ function.nextOperation :: operation :: back := by
  have absent := stage.wellFormed.notMem_front body
  have newBody : (function.reshardOperand operation change).body =
      front ++ function.nextOperation :: operation :: back := by
    rw [body_reshardOperand found, body, insertedBefore_append absent]
  have sameOperation {other : OperationId} (member : other ∈ front ++ operation :: back)
      (differ : other ≠ operation) :
      (function.reshardOperand operation change).operation other = function.operation other :=
    operation_reshardOperand_of_ne found differ
      (ne_nextOperation_of_lt (stage.wellFormed.lt_of_mem_body body member))
  have sameFront : ∀ other ∈ front,
      (function.reshardOperand operation change).operation other = function.operation other :=
    fun other inFront => sameOperation (List.mem_append_left _ inFront)
      fun same => absent (same ▸ inFront)
  have sameBack : ∀ other ∈ back,
      (function.reshardOperand operation change).operation other = function.operation other :=
    fun other inBack => sameOperation (List.mem_append_right _ (List.mem_cons_of_mem _ inBack))
      fun same => stage.wellFormed.notMem_back body (same ▸ inBack)
  have runs := stage.runs
  rw [body] at runs
  obtain ⟨frontRuns, operands, backRuns⟩ := runsFrom_append_iff.mp runs
  refine ⟨⟨stage.wellFormed.reshardOperand operation change, ?_, ?_⟩, newBody⟩
  · have sameArguments : (function.reshardOperand operation change).arguments =
        function.arguments := by
      rw [reshardOperand_of_some found]
      rfl
    rw [newBody, sameArguments, runsFrom_append_iff, definedBy_congr sameFront]
    refine ⟨frontRuns.congr sameFront, ?_⟩
    rw [RunsFrom, RunsFrom, operation_reshardOperand_next found,
      operation_reshardOperand_self found]
    refine ⟨?_, ?_, ?_⟩
    · intro operand isOperand
      rw [List.mem_singleton.mp isOperand]
      exact operands value (List.mem_of_getElem? found)
    · intro operand isOperand
      rw [List.mem_append]
      rcases List.mem_or_eq_of_mem_set isOperand with old | new
      · exact .inl (operands operand old)
      · exact .inr (List.mem_singleton.mpr new)
    · apply (backRuns.congr sameBack).mono
      intro other member
      rw [List.mem_append] at member ⊢
      exact member.imp_left (List.mem_append_left _)
  · intro other known
    rw [length_values_reshardOperand found] at known
    rcases lt_or_eq_nextValue known with old | rfl
    · rw [tensor_reshardOperand_of_lt _ _ old]
      exact stage.good other old
    · rw [tensor_reshardOperand_next found]
      exact good

/-- Resharding a result that nothing up to the anchor uses puts the new operation right after the
anchor. -/
theorem Stage.reshardResult (stage : function.Stage Good) {anchor : OperationId}
    (body : function.body = front ++ anchor :: back) {result : ValueId}
    (available : result ∈ function.definedBy (front ++ [anchor]))
    (unused : ∀ operation ∈ front ++ [anchor], result ∉ (function.operation operation).operands)
    {change : ResultChange}
    (goodTarget : Good ((function.tensor result).withSharding change.target))
    (goodRestored : Good ((function.tensor result).withSharding change.restored)) :
    (function.reshardResult anchor result change).Stage Good ∧
      (function.reshardResult anchor result change).body =
        (front ++ [anchor]) ++ function.nextOperation :: back := by
  have absent := stage.wellFormed.notMem_front body
  have newBody : (function.reshardResult anchor result change).body =
      (front ++ [anchor]) ++ function.nextOperation :: back := by
    rw [body_reshardResult, body, insertedAfter_append absent, List.append_assoc]
    rfl
  have bodyParts : function.body = (front ++ [anchor]) ++ back := by
    rw [body, List.append_assoc]
    rfl
  have sameFront : ∀ other ∈ front ++ [anchor],
      (function.reshardResult anchor result change).operation other = function.operation other :=
    fun other inFront => operation_reshardResult_of_notMem _ _ _ _
      (ne_nextOperation_of_lt (stage.wellFormed.lt_of_mem_body bodyParts
        (List.mem_append_left _ inFront))) (unused other inFront)
  have placed : anchor ∈ function.body := by
    rw [bodyParts]
    exact List.mem_append_left _ (List.mem_append_right _ (List.mem_singleton_self _))
  obtain ⟨producer, -, isResult⟩ := mem_definedBy_iff.mp available
  have resultKnown := stage.wellFormed.result_lt isResult
  have runs := stage.runs
  rw [bodyParts] at runs
  obtain ⟨frontRuns, backRuns⟩ := runsFrom_append_iff.mp runs
  refine ⟨⟨stage.wellFormed.reshardResult placed resultKnown change, ?_, ?_⟩, newBody⟩
  · change (function.reshardResult anchor result change).RunsFrom function.arguments _
    rw [newBody, runsFrom_append_iff, definedBy_congr sameFront]
    refine ⟨frontRuns.congr sameFront, ?_⟩
    rw [RunsFrom, operation_reshardResult_next]
    constructor
    · intro operand isOperand
      rw [List.mem_singleton.mp isOperand]
      exact List.mem_append_right _ available
    · refine backRuns.renamed result (fun other member => List.mem_append_left _ member)
        (List.mem_append_right _ (List.mem_singleton_self _)) ?_
      intro operation inBack
      exact operation_reshardResult_of_ne _ _ _ _ (ne_nextOperation_of_lt
        (stage.wellFormed.lt_of_mem_body bodyParts (List.mem_append_right _ inBack)))
  · intro other known
    rw [length_values_reshardResult] at known
    rcases lt_or_eq_nextValue known with old | rfl
    · by_cases same : other = result
      · rw [same, tensor_reshardResult_self _ _ _ resultKnown]
        exact goodTarget
      · rw [tensor_reshardResult_of_ne _ _ _ old same]
        exact stage.good other old
    · rw [tensor_reshardResult_next _ _ _ resultKnown]
      exact goodRestored

end Function

end MeshSharding
