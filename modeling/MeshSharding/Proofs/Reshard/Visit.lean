import MeshSharding.Proofs.Reshard.Decision
import MeshSharding.Proofs.Reshard.Stage

/-!
# Visits

A run goes through the body with a cursor. Behind the cursor stand operations
that have been dealt with and the reshards that were put around them, in front
of it those that are still to be visited. A visit keeps the signatures of what
lies behind the cursor, changes at most shardings in front of it, and leaves the
visited operation with the signature that was decided (`Visiting`).

What a property of tensors and one of operations have to satisfy so that a run
establishes them is collected in `RunSpec`; that it does is `reshardFrom_spec`.
-/

set_option autoImplicit false

namespace MeshSharding

/-- The shardings that a decision brings have a property, and no result is resharded twice. -/
structure Decision.Keeps (Good : Tensor → Prop) (signature : Signature) (decision : Decision) :
    Prop where
  operand : ∀ change ∈ decision.operandChanges, ∀ tensor,
    signature.operands[change.slot]? = some tensor → Good (tensor.withSharding change.target)
  result : ∀ change ∈ decision.resultChanges, ∀ tensor,
    signature.results[change.index]? = some tensor →
      Good (tensor.withSharding change.target) ∧ Good (tensor.withSharding change.restored)
  distinct : (decision.resultChanges.map ResultChange.index).Nodup

/-- A property of tensors and one of operations that a run establishes: each operation whose
tensors have the one allows a decision that keeps it and leaves the operation with the other. -/
structure RunSpec (meshes : SymbolTable) (declared : List Tensor) where
  Good : Tensor → Prop
  /-- What is asked of the operations of the body; shardings play no part in it. -/
  Allowed : Signature → Prop
  Done : Signature → Prop
  allowed_congr : ∀ {first second : Signature},
    first.unsharded = second.unsharded → Allowed first → Allowed second
  reshard_done : ∀ signature : Signature,
    signature.kind = .reshard → signature.attached = none → Done signature
  decides : ∀ signature : Signature, Allowed signature →
    (∀ tensor ∈ signature.operands ++ signature.results, Good tensor) →
    ∃ decision, signature.decision meshes declared = .ok decision ∧
      decision.Keeps Good signature ∧ Done (signature.after decision)

namespace Function

/-- How far the visit of an operation has come: what has been processed, what is waiting, and the
signature that the operation has by now. -/
structure Visiting (Good : Tensor → Prop) (Done : Signature → Prop) (start : Function)
    (operation : OperationId) (signature : Signature) (current : Function)
    (processed waiting : List OperationId) : Prop where
  stage : current.Stage Good
  body_eq : current.body = processed ++ waiting
  signature_eq : current.signature operation = signature
  done : ∀ other ∈ processed, other ≠ operation → Done (current.signature other)
  operations_le : start.operations.length ≤ current.operations.length
  unsharded_eq : ∀ other : OperationId, other.index < start.operations.length →
    (current.signature other).unsharded = (start.signature other).unsharded
  results_eq : (current.operation operation).results = (start.operation operation).results
  declared_eq : current.results = start.results

variable {Good : Tensor → Prop} {Done : Signature → Prop}
  (reshardDone : ∀ signature : Signature,
    signature.kind = .reshard → signature.attached = none → Done signature)
  {start current : Function} {operation : OperationId} {signature : Signature}
  {processed rest : List OperationId}

/-! ## Operands -/

/-- A change of one operand leaves what another change would bring there. -/
theorem withOperand_keeps (first : OperandChange) {change : OperandChange}
    (good : ∀ tensor, signature.operands[change.slot]? = some tensor →
      Good (tensor.withSharding change.target)) :
    ∀ tensor, (signature.withOperand first).operands[change.slot]? = some tensor →
      Good (tensor.withSharding change.target) := by
  intro tensor found
  simp only [Signature.withOperand, List.getElem?_modify] at found
  obtain ⟨old, isOld, rfl⟩ := Option.map_eq_some_iff.mp found
  have same := good old isOld
  split
  · exact same
  · exact same

include reshardDone in
theorem Visiting.reshardOperand
    (visiting : Visiting Good Done start operation signature current processed (operation :: rest))
    {change : OperandChange}
    (good : ∀ tensor, signature.operands[change.slot]? = some tensor →
      Good (tensor.withSharding change.target)) :
    ∃ before, Visiting Good Done start operation (signature.withOperand change)
      (current.reshardOperand operation change) (processed ++ before) (operation :: rest) := by
  obtain ⟨stage, body, signatureEq, done, operationsLe, unsharded, results, declared⟩ := visiting
  have newSignature : (current.reshardOperand operation change).signature operation =
      signature.withOperand change := by
    rw [signature_reshardOperand_self stage.wellFormed, signatureEq]
  cases found : (current.operation operation).operands[change.slot]? with
  | none =>
    rw [reshardOperand_of_none found] at newSignature ⊢
    refine ⟨[], ?_⟩
    rw [List.append_nil]
    exact ⟨stage, body, newSignature, done, operationsLe, unsharded, results, declared⟩
  | some value =>
    have isTensor : signature.operands[change.slot]? = some (current.tensor value) := by
      rw [← signatureEq, Function.signature, List.getElem?_map, found]
      rfl
    obtain ⟨newStage, newBody⟩ := stage.reshardOperand body found (good _ isTensor)
    have frame {other : OperationId} (old : other.index < current.operations.length)
        (differ : other ≠ operation) :=
      signature_reshardOperand_of_ne stage.wellFormed operation change differ old
    refine ⟨[current.nextOperation], newStage, ?_, newSignature, ?_, ?_, ?_, ?_, ?_⟩
    · rw [newBody, List.append_assoc]
      rfl
    · intro other member differ
      rcases List.mem_append.mp member with old | new
      · rw [(frame (stage.wellFormed.lt_of_mem_body body (List.mem_append_left _ old)) differ).2]
        exact done other old differ
      · rw [List.mem_singleton.mp new]
        apply reshardDone
        · rw [Function.signature, operation_reshardOperand_next found]
        · rw [Function.signature, operation_reshardOperand_next found]
    · rw [length_operations_reshardOperand found]
      exact Nat.le_succ_of_le operationsLe
    · intro other old
      rw [← unsharded other old]
      by_cases same : other = operation
      · rw [same, newSignature, signatureEq, Signature.unsharded_withOperand]
      · rw [(frame (Nat.lt_of_lt_of_le old operationsLe) same).2]
    · rw [operation_reshardOperand_self found]
      exact results
    · rw [reshardOperand_of_some found]
      exact declared

include reshardDone in
theorem Visiting.reshardOperands (changes : List OperandChange)
    (visiting : Visiting Good Done start operation signature current processed (operation :: rest))
    (good : ∀ change ∈ changes, ∀ tensor, signature.operands[change.slot]? = some tensor →
      Good (tensor.withSharding change.target)) :
    ∃ before, Visiting Good Done start operation (changes.foldl Signature.withOperand signature)
      (current.reshardOperands operation changes) (processed ++ before) (operation :: rest) := by
  induction changes generalizing current signature processed with
  | nil =>
    refine ⟨[], ?_⟩
    rw [List.append_nil]
    exact visiting
  | cons change others ih =>
    obtain ⟨goodChange, goodOthers⟩ := List.forall_mem_cons.mp good
    obtain ⟨first, next⟩ := visiting.reshardOperand reshardDone goodChange
    obtain ⟨later, last⟩ := ih next fun other member =>
      withOperand_keeps change (goodOthers other member)
    refine ⟨first ++ later, ?_⟩
    rw [← List.append_assoc]
    exact last

/-! ## Results -/

/-- A change of one result leaves what another change would bring there. -/
theorem withResult_keeps (first : ResultChange) {change : ResultChange}
    (good : ∀ tensor, signature.results[change.index]? = some tensor →
      Good (tensor.withSharding change.target) ∧ Good (tensor.withSharding change.restored)) :
    ∀ tensor, (signature.withResult first).results[change.index]? = some tensor →
      Good (tensor.withSharding change.target) ∧ Good (tensor.withSharding change.restored) := by
  intro tensor found
  simp only [Signature.withResult, List.getElem?_modify] at found
  obtain ⟨old, isOld, rfl⟩ := Option.map_eq_some_iff.mp found
  have same := good old isOld
  split
  · exact same
  · exact same

include reshardDone in
theorem Visiting.reshardResult {front : List OperationId} {anchor : OperationId}
    (visiting : Visiting Good Done start operation signature current (front ++ [anchor]) rest)
    (isProcessed : operation ∈ front ++ [anchor]) {change : ResultChange} {result : ValueId}
    (found : (current.operation operation).results[change.index]? = some result)
    (unused : ∀ other ∈ front ++ [anchor], result ∉ (current.operation other).operands)
    (good : ∀ tensor, signature.results[change.index]? = some tensor →
      Good (tensor.withSharding change.target) ∧ Good (tensor.withSharding change.restored)) :
    Visiting Good Done start operation (signature.withResult change)
      (current.reshardResult anchor result change)
      ((front ++ [anchor]) ++ [current.nextOperation]) rest := by
  obtain ⟨stage, body, signatureEq, done, operationsLe, unsharded, results, declared⟩ := visiting
  have isResult := List.mem_of_getElem? found
  have known := stage.wellFormed.result_lt isResult
  have isTensor : signature.results[change.index]? = some (current.tensor result) := by
    rw [← signatureEq, Function.signature, List.getElem?_map, found]
    rfl
  have anchored : current.body = front ++ anchor :: rest := by
    rw [body, List.append_assoc]
    rfl
  obtain ⟨goodTarget, goodRestored⟩ := good _ isTensor
  obtain ⟨newStage, newBody⟩ := stage.reshardResult anchored
    (mem_definedBy_iff.mpr ⟨operation, isProcessed, isResult⟩) unused goodTarget goodRestored
  have processedOld {other : OperationId} (member : other ∈ front ++ [anchor]) :=
    stage.wellFormed.lt_of_mem_body body (List.mem_append_left _ member)
  have operationOld := processedOld isProcessed
  exact {
    stage := newStage
    body_eq := by
      rw [newBody, List.append_assoc, List.append_assoc, List.append_assoc]
      rfl
    signature_eq := by
      rw [signature_reshardResult_self stage.wellFormed anchor change found
        (unused operation isProcessed), signatureEq]
    done := by
      intro other member differ
      rcases List.mem_append.mp member with old | new
      · have notProduced : result ∉ (current.operation other).results := fun alsoResult =>
          differ (stage.wellFormed.eq_of_mem_results alsoResult isResult)
        rw [signature_reshardResult_of_notMem stage.wellFormed anchor change (processedOld old)
          (unused other old) notProduced]
        exact done other old differ
      · rw [List.mem_singleton.mp new]
        apply reshardDone
        · rw [Function.signature, operation_reshardResult_next]
        · rw [Function.signature, operation_reshardResult_next]
    operations_le := by
      rw [length_operations_reshardResult]
      exact Nat.le_succ_of_le operationsLe
    unsharded_eq := by
      intro other old
      rw [← unsharded other old]
      exact unsharded_reshardResult stage.wellFormed anchor change known
        (Nat.lt_of_lt_of_le old operationsLe)
    results_eq := by
      rw [operation_reshardResult_of_ne _ _ _ _ (ne_nextOperation_of_lt operationOld)]
      exact results
    declared_eq := declared }

/-- The operation that reshards one result uses no other one, so what nothing in front uses stays
unused. -/
theorem Visiting.unused_others {front : List OperationId} {anchor : OperationId}
    (visiting : Visiting Good Done start operation signature current (front ++ [anchor]) rest)
    (isProcessed : operation ∈ front ++ [anchor]) {change other : ResultChange} {result : ValueId}
    (found : (current.operation operation).results[change.index]? = some result)
    (unused : ∀ user ∈ front ++ [anchor], result ∉ (current.operation user).operands)
    (differ : other.index ≠ change.index)
    (unusedOther : ∀ otherResult,
      (current.operation operation).results[other.index]? = some otherResult →
      ∀ user ∈ front ++ [anchor], otherResult ∉ (current.operation user).operands) :
    ∀ otherResult, ((current.reshardResult anchor result change).operation operation).results[
        other.index]? = some otherResult →
      ∀ user ∈ (front ++ [anchor]) ++ [current.nextOperation],
        otherResult ∉ ((current.reshardResult anchor result change).operation user).operands := by
  intro otherResult otherFound user isUser
  have wellFormed := visiting.stage.wellFormed
  have sameOperation {user : OperationId} (member : user ∈ front ++ [anchor]) :
      (current.reshardResult anchor result change).operation user = current.operation user := by
    have old := wellFormed.lt_of_mem_body visiting.body_eq (List.mem_append_left _ member)
    exact operation_reshardResult_of_notMem _ _ _ _ (ne_nextOperation_of_lt old)
      (unused user member)
  rw [sameOperation isProcessed] at otherFound
  rcases List.mem_append.mp isUser with inFront | isNew
  · rw [sameOperation inFront]
    exact unusedOther otherResult otherFound user inFront
  · rw [List.mem_singleton.mp isNew, operation_reshardResult_next, List.mem_singleton]
    rintro rfl
    obtain ⟨below, here⟩ := List.getElem?_eq_some_iff.mp found
    obtain ⟨otherBelow, there⟩ := List.getElem?_eq_some_iff.mp otherFound
    have sameIndex := (List.Nodup.getElem_inj_iff (wellFormed.results_nodup operation)).mp
      (here.trans there.symm)
    exact differ sameIndex.symm

include reshardDone in
theorem Visiting.reshardResults (changes : List ResultChange) {front : List OperationId}
    {anchor : OperationId}
    (visiting : Visiting Good Done start operation signature current (front ++ [anchor]) rest)
    (isProcessed : operation ∈ front ++ [anchor])
    (unused : ∀ change ∈ changes, ∀ result,
      (current.operation operation).results[change.index]? = some result →
      ∀ other ∈ front ++ [anchor], result ∉ (current.operation other).operands)
    (distinct : (changes.map ResultChange.index).Nodup)
    (good : ∀ change ∈ changes, ∀ tensor, signature.results[change.index]? = some tensor →
      Good (tensor.withSharding change.target) ∧ Good (tensor.withSharding change.restored)) :
    ∃ after, Visiting Good Done start operation (changes.foldl Signature.withResult signature)
      (current.reshardResults operation anchor changes) ((front ++ [anchor]) ++ after) rest := by
  induction changes generalizing current signature front anchor with
  | nil =>
    refine ⟨[], ?_⟩
    rw [List.append_nil]
    exact visiting
  | cons change others ih =>
    obtain ⟨unusedChange, unusedOthers⟩ := List.forall_mem_cons.mp unused
    obtain ⟨goodChange, goodOthers⟩ := List.forall_mem_cons.mp good
    obtain ⟨otherIndex, distinctOthers⟩ := List.nodup_cons.mp distinct
    have goodLater := fun other member => withResult_keeps change (goodOthers other member)
    rw [List.foldl_cons]
    cases found : (current.operation operation).results[change.index]? with
    | none =>
      have sameSignature : signature.withResult change = signature := by
        have beyond : signature.results.length ≤ change.index := by
          rw [← visiting.signature_eq, Function.signature, List.length_map]
          exact List.getElem?_eq_none_iff.mp found
        rw [Signature.withResult, List.modify_eq_self beyond]
      simp only [Function.reshardResults, found, sameSignature]
      exact ih visiting isProcessed unusedOthers distinctOthers goodOthers
    | some result =>
      simp only [Function.reshardResults, found]
      have next := visiting.reshardResult reshardDone isProcessed found
        (unusedChange result found) goodChange
      obtain ⟨later, last⟩ := ih next (List.mem_append_left _ isProcessed)
        (fun other member => visiting.unused_others isProcessed found (unusedChange result found)
          (fun sameIndex => otherIndex (List.mem_map.mpr ⟨other, member, sameIndex⟩))
          (unusedOthers other member))
        distinctOthers goodLater
      refine ⟨current.nextOperation :: later, ?_⟩
      rw [List.append_assoc] at last
      exact last

/-! ## Operations -/

include reshardDone in
/-- **A visit deals with one operation.** The operation is left with the decided signature, reshards
stand around it, and what was processed before is as it was. Behind the operation stands something
new only if the decision changes results. -/
theorem Stage.carryOut (stage : current.Stage Good)
    (body : current.body = processed ++ operation :: rest)
    (done : ∀ other ∈ processed, Done (current.signature other)) {decision : Decision}
    (keeps : decision.Keeps Good (current.signature operation)) :
    ∃ before after, Visiting Good Done current operation
        ((current.signature operation).after decision) (current.carryOut operation decision)
        (processed ++ before ++ [operation] ++ after) rest ∧
      (decision.resultChanges = [] → after = []) := by
  have begins : Visiting Good Done current operation (current.signature operation) current
      processed (operation :: rest) :=
    ⟨stage, body, rfl, fun other member _ => done other member, Nat.le_refl _, fun _ _ => rfl,
      rfl, rfl⟩
  obtain ⟨before, halfway⟩ := begins.reshardOperands reshardDone decision.operandChanges
    keeps.operand
  rw [carryOut_eq]
  -- from here on the operation counts as processed
  have passed : Visiting Good Done current operation
      (decision.operandChanges.foldl Signature.withOperand (current.signature operation))
      (current.reshardOperands operation decision.operandChanges)
      ((processed ++ before) ++ [operation]) rest :=
    { halfway with
      body_eq := by
        rw [halfway.body_eq, List.append_assoc (processed ++ before)]
        rfl
      done := by
        intro other member differ
        rcases List.mem_append.mp member with earlier | isLast
        · exact halfway.done other earlier differ
        · exact absurd (List.mem_singleton.mp isLast) differ }
  have runs := halfway.stage.runs
  rw [halfway.body_eq] at runs
  have absent := halfway.stage.wellFormed.notMem_front halfway.body_eq
  have unused : ∀ change ∈ decision.resultChanges, ∀ result,
      ((current.reshardOperands operation decision.operandChanges).operation
        operation).results[change.index]? = some result →
      ∀ other ∈ (processed ++ before) ++ [operation], result ∉
        ((current.reshardOperands operation decision.operandChanges).operation other).operands :=
    fun _ _ _ found _ member =>
      runs.not_uses halfway.stage.wellFormed absent member (List.mem_of_getElem? found)
  have goodResults := keeps.result
  rw [← Signature.results_withOperands decision.operandChanges] at goodResults
  cases noResults : decision.resultChanges with
  | nil =>
    refine ⟨before, [], ?_, fun _ => rfl⟩
    rw [List.append_nil, Signature.after, noResults]
    exact passed
  | cons change others =>
    obtain ⟨after, finished⟩ := passed.reshardResults reshardDone decision.resultChanges
      (List.mem_append_right _ (List.mem_singleton_self _)) unused keeps.distinct goodResults
    rw [noResults] at finished
    refine ⟨before, after, ?_, fun nothing => absurd nothing (List.cons_ne_nil _ _)⟩
    rw [Signature.after, noResults]
    exact finished

/-! ## Whole runs -/

theorem decision_eq_ok_iff {meshes : SymbolTable} {decision : Decision} :
    current.decision meshes operation = .ok decision ↔
      (current.signature operation).decision meshes current.results = .ok decision := by
  unfold Function.decision
  split
  · rename_i decided isOk
    rw [isOk, Except.ok.injEq, Except.ok.injEq]
  · rename_i mesh isError
    rw [isError]
    exact ⟨fun failed => (nomatch failed), fun failed => (nomatch failed)⟩
  · rename_i cause isError
    rw [isError]
    exact ⟨fun failed => (nomatch failed), fun failed => (nomatch failed)⟩

/-- The decision about a return changes no result. -/
theorem resultChanges_of_exit {meshes : SymbolTable} {declared : List Tensor}
    {decision : Decision} (isExit : signature.kind = .exit)
    (decided : signature.decision meshes declared = .ok decision) :
    decision.resultChanges = [] := by
  rw [decision_of_exit isExit] at decided
  cases decided
  rfl

/-- **A run establishes what its decisions establish.** If every operation that is to be visited is
allowed, the run ends without an error, the body runs, all tensors are good and all operations are
dealt with. Operations that were there change at most in shardings, and the return that ends the
operations to be visited ends the body. -/
theorem reshardFrom_spec {meshes : SymbolTable} {declared : List Tensor}
    (spec : RunSpec meshes declared) (stage : current.Stage spec.Good)
    (body : current.body = processed ++ rest) (sameDeclared : current.results = declared)
    (done : ∀ other ∈ processed, spec.Done (current.signature other))
    (allowed : ∀ other ∈ rest, spec.Allowed (current.signature other)) :
    (reshardFrom meshes current rest).error = none ∧
      (reshardFrom meshes current rest).function.Stage spec.Good ∧
      (∀ other ∈ (reshardFrom meshes current rest).function.body,
        spec.Done ((reshardFrom meshes current rest).function.signature other)) ∧
      (∀ other : OperationId, other.index < current.operations.length →
        ((reshardFrom meshes current rest).function.signature other).unsharded =
          (current.signature other).unsharded) ∧
      ∀ front terminator, rest = front ++ [terminator] →
        (current.operation terminator).kind = .exit →
        ∃ newFront, (reshardFrom meshes current rest).function.body =
          newFront ++ [terminator] := by
  induction rest generalizing current processed with
  | nil =>
    rw [List.append_nil] at body
    refine ⟨rfl, stage, ?_, fun _ _ => rfl, ?_⟩
    · intro other member
      rw [← body] at done
      exact done other member
    · intro front terminator isEmpty
      exact absurd isEmpty.symm (List.append_ne_nil_of_right_ne_nil _ (List.cons_ne_nil _ _))
  | cons operation rest ih =>
    obtain ⟨allowedFirst, allowedRest⟩ := List.forall_mem_cons.mp allowed
    obtain ⟨decision, decided, keeps, isDone⟩ :=
      spec.decides _ allowedFirst (stage.good_signature operation)
    have decides : current.decision meshes operation = .ok decision := by
      rw [decision_eq_ok_iff, sameDeclared]
      exact decided
    obtain ⟨before, after, visited, nothingBehind⟩ :=
      stage.carryOut spec.reshard_done body done keeps
    have known {other : OperationId} (member : other ∈ operation :: rest) :=
      stage.wellFormed.lt_of_mem_body body (List.mem_append_right _ member)
    obtain ⟨noError, finalStage, allDone, sameBut, ends⟩ := ih visited.stage visited.body_eq
      (visited.declared_eq.trans sameDeclared) (fun other member => by
        by_cases same : other = operation
        · rw [same, visited.signature_eq]
          exact isDone
        · exact visited.done other member same)
      (fun other member => spec.allowed_congr
        (visited.unsharded_eq other (known (List.mem_cons_of_mem _ member))).symm
        (allowedRest other member))
    simp only [reshardFrom, decides]
    refine ⟨noError, finalStage, allDone, fun other old => ?_,
      fun front terminator split isExit => ?_⟩
    · rw [sameBut other (Nat.lt_of_lt_of_le old visited.operations_le),
        visited.unsharded_eq other old]
    cases front with
    | nil =>
      cases split
      have nothing : after = [] := nothingBehind (resultChanges_of_exit isExit decided)
      refine ⟨processed ++ before, ?_⟩
      rw [reshardFrom, visited.body_eq, nothing, List.append_nil, List.append_nil]
    | cons first others =>
      cases split
      refine ends others terminator rfl ?_
      have sameKind := congrArg Signature.kind (visited.unsharded_eq terminator
        (known (List.mem_cons_of_mem _ (List.mem_append_right _ (List.mem_singleton_self _)))))
      exact sameKind.trans isExit

/-- What a run over a whole function establishes. -/
theorem Stage.reshard_spec {meshes : SymbolTable} (spec : RunSpec meshes current.results)
    (stage : current.Stage spec.Good)
    (allowed : ∀ operation ∈ current.body, spec.Allowed (current.signature operation)) :
    (current.reshard meshes).error = none ∧
      (current.reshard meshes).function.Stage spec.Good ∧
      (∀ operation ∈ (current.reshard meshes).function.body,
        spec.Done ((current.reshard meshes).function.signature operation)) ∧
      (∀ operation : OperationId, operation.index < current.operations.length →
        ((current.reshard meshes).function.signature operation).unsharded =
          (current.signature operation).unsharded) ∧
      ∀ front terminator, current.body = front ++ [terminator] →
        (current.operation terminator).kind = .exit →
        ∃ newFront, (current.reshard meshes).function.body = newFront ++ [terminator] :=
  reshardFrom_spec spec stage (List.nil_append current.body).symm rfl
    (fun _ member => absurd member List.not_mem_nil) allowed

end Function

end MeshSharding
