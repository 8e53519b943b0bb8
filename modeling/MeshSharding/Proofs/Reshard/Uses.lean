import MeshSharding.Proofs.Reshard.Erasure
import MeshSharding.Proofs.Reshard.Reach

/-!
# What becomes of an operand

A visit changes the operands of other operations in one way: where it reshards a
result, the uses of the result get the value that replaces it (`Holds.carryOut`).
A value is the result of one operation, and a run visits an operation once, so
an operand is replaced once at most. The events of a run therefore say what the
operands of an operation have become that the run does not visit
(`Holds.reshardFrom`).

A run over a list of operations is a run over the first of them and then one
over the others (`reshardFrom_append`), so what is said about operations that
are not visited holds for any operation, before and after its own visit.
-/

set_option autoImplicit false

namespace MeshSharding

/-- Two signatures of which one opens to the other are the same if their operands are. -/
theorem Signature.OpensTo.eq_of_operands {names : String → Prop} {old new : Signature}
    (opened : old.OpensTo names new) (same : new.operands = old.operands) : new = old := by
  cases old
  cases new
  cases opened.kind_eq
  cases opened.attached_eq
  cases opened.results_eq
  cases same
  rfl

namespace Function

variable {meshes : SymbolTable} {function : Function} {operation other : OperationId}
  {value : ValueId} {slot : Nat} {tensor : Tensor}

/-- A slot of an operation holds a value, and the value has a tensor. -/
def Holds (function : Function) (operation : OperationId) (slot : Nat) (value : ValueId)
    (tensor : Tensor) : Prop :=
  (function.operation operation).operands[slot]? = some value ∧ function.tensor value = tensor

theorem Holds.operand (holds : function.Holds operation slot value tensor) :
    (function.signature operation).operands[slot]? = some tensor := by
  rw [Function.signature, List.getElem?_map, holds.1, Option.map_some, holds.2]

theorem Holds.known (holds : function.Holds operation slot value tensor)
    (wellFormed : function.WellFormed) : value.index < function.values.length :=
  wellFormed.operand_lt operation value (List.mem_of_getElem? holds.1)

/-- What carrying out a decision makes of an extension extends the base too. -/
theorem Extends.carryOut {base current : Function} (extended : base.Extends current)
    (wellFormed : current.WellFormed) (original : operation.index < base.operations.length)
    (decision : Decision) : (current.carryOut operation decision).WellFormed ∧
      base.Extends (current.carryOut operation decision) := by
  have placed : operation ∈ current.body :=
    (wellFormed.mem_body_iff operation).mpr (Nat.lt_of_lt_of_le original extended.operations_le)
  exact carryOut_induction (fun later => later.WellFormed ∧ base.Extends later) operation
    (fun _ change both => ⟨both.1.reshardOperand operation change,
      both.2.reshardOperand both.1 original change⟩)
    (fun _ anchor _ change both anchored isResult =>
      ⟨both.1.reshardResult anchored (both.1.result_lt isResult) change,
        both.2.reshardResult both.1 isResult anchor change⟩)
    decision placed ⟨wellFormed, extended⟩

/-! ## One visit -/

/-- Resharding operands of an operation leaves the slots of others alone. -/
theorem Holds.reshardOperands (holds : function.Holds other slot value tensor)
    (wellFormed : function.WellFormed) (known : operation.index < function.operations.length)
    (old : other.index < function.operations.length) (differ : other ≠ operation)
    (changes : List OperandChange) :
    (function.reshardOperands operation changes).WellFormed ∧
      function.Extends (function.reshardOperands operation changes) ∧
      (function.reshardOperands operation changes).Holds other slot value tensor := by
  refine reshardOperands_induction
    (fun later => later.WellFormed ∧ function.Extends later ∧ later.Holds other slot value tensor)
    operation changes ?_ ⟨wellFormed, Extends.refl wellFormed, holds⟩
  rintro later change - ⟨laterFormed, extended, laterHolds⟩
  have stillOld := Nat.lt_of_lt_of_le old extended.operations_le
  have sameOperation := (signature_reshardOperand_of_ne laterFormed operation change differ
    stillOld).1
  refine ⟨laterFormed.reshardOperand operation change,
    extended.reshardOperand laterFormed known change, ?_, ?_⟩
  · rw [sameOperation]
    exact laterHolds.1
  · rw [tensor_reshardOperand_of_lt _ _ (laterHolds.known laterFormed)]
    exact laterHolds.2

/-- When a result is resharded, a slot that holds it gets the value that replaces it, and every
other slot keeps what it holds. -/
theorem Holds.reshardResult (holds : function.Holds other slot value tensor)
    (wellFormed : function.WellFormed) (old : other.index < function.operations.length)
    (anchor : OperationId) {result : ValueId} (known : result.index < function.values.length)
    (change : ResultChange) :
    let later := function.reshardResult anchor result change
    value = result ∧ later.Holds other slot function.nextValue
        (tensor.withSharding change.restored) ∨
      value ≠ result ∧ later.Holds other slot value tensor := by
  have redirected := congrArg (·.operands[slot]?)
    (operation_reshardResult_of_ne function anchor result change (ne_nextOperation_of_lt old))
  simp only [List.getElem?_map, holds.1, Option.map_some] at redirected
  by_cases same : value = result
  · subst same
    rw [if_pos rfl] at redirected
    refine .inl ⟨rfl, redirected, ?_⟩
    rw [tensor_reshardResult_next _ _ _ known, holds.2]
    rfl
  · rw [if_neg same] at redirected
    refine .inr ⟨same, redirected, ?_⟩
    rw [tensor_reshardResult_of_ne _ _ _ (holds.known wellFormed) same, holds.2]

/-- When results of an operation are resharded one after the other, a slot that holds one of them
gets the value that replaces it, and every other slot keeps what it holds. -/
theorem Holds.reshardResults (holds : function.Holds other slot value tensor)
    (wellFormed : function.WellFormed) (operation : OperationId) {anchor : OperationId}
    (placed : anchor ∈ function.body) (old : other.index < function.operations.length)
    (changes : List ResultChange) :
    let later := function.reshardResults operation anchor changes
    (∃ change ∈ changes, (function.operation operation).results[change.index]? = some value ∧
        ∃ fresh : ValueId, function.values.length ≤ fresh.index ∧
          later.Holds other slot fresh (tensor.withSharding change.restored)) ∨
      (∀ change ∈ changes, (function.operation operation).results[change.index]? ≠ some value) ∧
        later.Holds other slot value tensor := by
  induction changes generalizing function anchor value tensor with
  | nil => exact .inr ⟨fun _ member => absurd member List.not_mem_nil, holds⟩
  | cons change rest ih =>
    cases found : (function.operation operation).results[change.index]? with
    | none =>
      simp only [Function.reshardResults, found]
      rcases ih holds wellFormed placed old with ⟨later, isLater, both⟩ | ⟨others, still⟩
      · exact .inl ⟨later, List.mem_cons_of_mem _ isLater, both⟩
      · refine .inr ⟨List.forall_mem_cons.mpr ⟨?_, others⟩, still⟩
        rw [found]
        exact (Option.some_ne_none value).symm
    | some result =>
      have isResult := List.mem_of_getElem? found
      have known := wellFormed.result_lt isResult
      have nextFormed := wellFormed.reshardResult placed known change
      have nextOld : other.index <
          (function.reshardResult anchor result change).operations.length := by
        rw [length_operations_reshardResult]
        exact Nat.lt_succ_of_lt old
      have nextPlaced := nextOperation_mem_body_reshardResult result change placed
      have sameResults : ((function.reshardResult anchor result change).operation
          operation).results = (function.operation operation).results := by
        rw [operation_reshardResult_of_ne _ _ _ _ (ne_nextOperation_of_result isResult)]
      simp only [Function.reshardResults, found]
      rcases holds.reshardResult wellFormed old anchor known change with
        ⟨rfl, nextHolds⟩ | ⟨differ, nextHolds⟩
      · -- the value that replaces the result is no result of the operation, so it stays
        rcases ih nextHolds nextFormed nextPlaced nextOld with ⟨later, -, isNext, -⟩ | ⟨-, still⟩
        · rw [sameResults] at isNext
          exact absurd (wellFormed.result_lt (List.mem_of_getElem? isNext)) (Nat.lt_irrefl _)
        · exact .inl ⟨change, List.mem_cons_self, found, _, Nat.le_refl _, still⟩
      · have outcome := ih nextHolds nextFormed nextPlaced nextOld
        simp only [sameResults, length_values_reshardResult] at outcome
        rcases outcome with ⟨later, isLater, isValue, fresh, new, still⟩ | ⟨others, still⟩
        · exact .inl ⟨later, List.mem_cons_of_mem _ isLater, isValue, fresh,
            Nat.le_of_succ_le new, still⟩
        · refine .inr ⟨List.forall_mem_cons.mpr ⟨?_, others⟩, still⟩
          rw [found, Ne, Option.some.injEq]
          exact differ.symm

/-- **What a slot of another operation holds after a visit**: the value that replaces a result if
the decision reshards the result that it held, and otherwise what it held. -/
theorem Holds.carryOut (holds : function.Holds other slot value tensor)
    (wellFormed : function.WellFormed) (known : operation.index < function.operations.length)
    (old : other.index < function.operations.length) (differ : other ≠ operation)
    (decision : Decision) :
    let later := function.carryOut operation decision
    (∃ change ∈ decision.resultChanges,
        (function.operation operation).results[change.index]? = some value ∧
        ∃ fresh : ValueId, function.values.length ≤ fresh.index ∧
          later.Holds other slot fresh (tensor.withSharding change.restored)) ∨
      (∀ change ∈ decision.resultChanges,
        (function.operation operation).results[change.index]? ≠ some value) ∧
        later.Holds other slot value tensor := by
  obtain ⟨nextFormed, extended, nextHolds⟩ :=
    holds.reshardOperands wellFormed known old differ decision.operandChanges
  have placed := (nextFormed.mem_body_iff operation).mpr
    (Nat.lt_of_lt_of_le known extended.operations_le)
  have outcome := nextHolds.reshardResults nextFormed operation placed
    (Nat.lt_of_lt_of_le old extended.operations_le) decision.resultChanges
  rw [(extended.kept operation known).2.2, ← carryOut_eq] at outcome
  refine outcome.imp_left ?_
  rintro ⟨change, isChange, isValue, fresh, new, still⟩
  exact ⟨change, isChange, isValue, fresh, Nat.le_trans extended.values_le new, still⟩

/-! ## Events -/

/-- The events of a visit name the results that its decision reshards, and what they are brought
back to. -/
theorem reshardedResult_mem_visit_iff {decision : Decision} {sharding : TensorSharding} :
    .reshardedResult value sharding ∈ (function.visit operation decision).events ↔
      ∃ change ∈ decision.resultChanges,
        (function.operation operation).results[change.index]? = some value ∧
          change.restored = sharding := by
  cases decision with
  | exit changes => simp [visit, operandEvents, Decision.resultChanges]
  | skip reason => simp [visit, Decision.resultChanges]
  | revise revision => simp [visit, operandEvents, resultEvents, Decision.resultChanges]

/-- A decision reshards a result once at most. -/
theorem eq_of_resharded (wellFormed : function.WellFormed) {decision : Decision}
    (isDecision : function.decision meshes operation = .ok decision) {first second : ResultChange}
    (isFirst : first ∈ decision.resultChanges) (isSecond : second ∈ decision.resultChanges)
    (inFirst : (function.operation operation).results[first.index]? = some value)
    (inSecond : (function.operation operation).results[second.index]? = some value) :
    first = second := by
  have distinct : (decision.resultChanges.map ResultChange.index).Nodup :=
    (restores_of_decision (decision_eq_ok_iff.mp isDecision) fun _ _ _ _ => True.intro).1
  have sameIndex : first.index = second.index := by
    rw [wellFormed.result_iff] at inFirst inSecond
    rw [inFirst, Option.some.injEq, Origin.result.injEq] at inSecond
    exact inSecond.2
  exact List.inj_on_of_nodup_map distinct isFirst isSecond sameIndex

/-- A run goes on after its first visit. -/
theorem reshardFrom_cons {start : Function} {decision : Decision}
    (isDecision : start.decision meshes operation = .ok decision) (rest : List OperationId) :
    reshardFrom meshes start (operation :: rest) =
      let later := reshardFrom meshes (start.carryOut operation decision) rest
      { later with visits := start.visit operation decision :: later.visits } := by
  simp only [reshardFrom, isDecision]

/-- The events of a run are those of its first visit and those of the others. -/
theorem mem_events_cons_iff {start : Function} {rest : List OperationId} {decision : Decision}
    (isDecision : start.decision meshes operation = .ok decision) {event : ReshardEvent} :
    event ∈ (reshardFrom meshes start (operation :: rest)).events ↔
      event ∈ (start.visit operation decision).events ∨
        event ∈ (reshardFrom meshes (start.carryOut operation decision) rest).events := by
  rw [reshardFrom_cons isDecision, ReshardRun.events, List.flatMap_cons, List.mem_append]
  rfl

/-- A run reshards results of operations that it visits. -/
theorem exists_producer {start : Function} {visited : List OperationId}
    (wellFormed : start.WellFormed)
    (known : ∀ operation ∈ visited, operation.index < start.operations.length)
    {sharding : TensorSharding}
    (isEvent : .reshardedResult value sharding ∈ (reshardFrom meshes start visited).events) :
    ∃ producer ∈ visited, value ∈ (start.operation producer).results := by
  induction visited generalizing start with
  | nil => exact absurd isEvent List.not_mem_nil
  | cons operation rest ih =>
    obtain ⟨knownHere, knownLater⟩ := List.forall_mem_cons.mp known
    cases isDecision : start.decision meshes operation with
    | error cause =>
      simp only [reshardFrom, isDecision] at isEvent
      exact absurd isEvent List.not_mem_nil
    | ok decision =>
      rcases (mem_events_cons_iff isDecision).mp isEvent with here | later
      · obtain ⟨change, -, isResult, -⟩ := reshardedResult_mem_visit_iff.mp here
        exact ⟨operation, List.mem_cons_self, List.mem_of_getElem? isResult⟩
      · obtain ⟨nextFormed, extended⟩ :=
          (Extends.refl wellFormed).carryOut wellFormed knownHere decision
        obtain ⟨producer, isLater, isResult⟩ := ih nextFormed
          (fun other member => Nat.lt_of_lt_of_le (knownLater other member)
            extended.operations_le) later
        rw [(extended.kept producer (knownLater producer isLater)).2.2] at isResult
        exact ⟨producer, List.mem_cons_of_mem _ isLater, isResult⟩

/-! ## Runs -/

/-- **What has become of an operand of an operation that a run does not visit.** If the run reshards
the operand as a result, it has the sharding that the result is brought back to, and otherwise it
is as it was. -/
theorem Holds.reshardFrom {start : Function} (holds : start.Holds other slot value tensor)
    (wellFormed : start.WellFormed) (old : other.index < start.operations.length)
    {visited : List OperationId} (distinct : visited.Nodup)
    (known : ∀ operation ∈ visited, operation.index < start.operations.length)
    (notVisited : other ∉ visited) :
    let run := Function.reshardFrom meshes start visited
    (∀ sharding, .reshardedResult value sharding ∈ run.events →
        (run.function.signature other).operands[slot]? = some (tensor.withSharding sharding)) ∧
      ((∀ sharding, .reshardedResult value sharding ∉ run.events) →
        (run.function.signature other).operands[slot]? = some tensor) := by
  induction visited generalizing start value tensor with
  | nil => exact ⟨fun _ isEvent => absurd isEvent List.not_mem_nil, fun _ => holds.operand⟩
  | cons operation rest ih =>
    obtain ⟨absent, restDistinct⟩ := List.nodup_cons.mp distinct
    obtain ⟨knownHere, knownLater⟩ := List.forall_mem_cons.mp known
    rw [List.mem_cons, not_or] at notVisited
    obtain ⟨differ, notLater⟩ := notVisited
    intro run
    cases isDecision : start.decision meshes operation with
    | error cause =>
      simp only [run, Function.reshardFrom, isDecision]
      exact ⟨fun _ isEvent => absurd isEvent List.not_mem_nil, fun _ => holds.operand⟩
    | ok decision =>
      obtain ⟨nextFormed, extended⟩ :=
        (Extends.refl wellFormed).carryOut wellFormed knownHere decision
      have nextKnown : ∀ later ∈ rest,
          later.index < (start.carryOut operation decision).operations.length :=
        fun later isLater => Nat.lt_of_lt_of_le (knownLater later isLater) extended.operations_le
      have sameFunction : run.function = (Function.reshardFrom meshes
          (start.carryOut operation decision) rest).function := by
        simp only [run, reshardFrom_cons isDecision]
      have nextOld := Nat.lt_of_lt_of_le old extended.operations_le
      rw [sameFunction]
      rcases holds.carryOut wellFormed knownHere old differ decision with
        ⟨change, isChange, isResult, fresh, new, nextHolds⟩ | ⟨noChange, nextHolds⟩
      · have firstEvent : .reshardedResult value change.restored ∈ run.events :=
          (mem_events_cons_iff isDecision).mpr
            (.inl (reshardedResult_mem_visit_iff.mpr ⟨change, isChange, isResult, rfl⟩))
        have final := (ih nextHolds nextFormed nextOld restDistinct nextKnown notLater).2 ?_
        · refine ⟨?_, fun noEvent => absurd firstEvent (noEvent _)⟩
          intro sharding isEvent
          rcases (mem_events_cons_iff isDecision).mp isEvent with here | later
          · obtain ⟨second, isSecond, alsoResult, rfl⟩ := reshardedResult_mem_visit_iff.mp here
            rw [eq_of_resharded wellFormed isDecision isSecond isChange alsoResult isResult]
            exact final
          · obtain ⟨producer, isLater, alsoResult⟩ := exists_producer nextFormed nextKnown later
            rw [(extended.kept producer (knownLater producer isLater)).2.2] at alsoResult
            rw [wellFormed.eq_of_mem_results alsoResult (List.mem_of_getElem? isResult)] at isLater
            exact absurd isLater absent
        · -- the value that replaces the result is a result of no operation that is visited later
          intro sharding isEvent
          obtain ⟨producer, isLater, alsoResult⟩ := exists_producer nextFormed nextKnown isEvent
          rw [(extended.kept producer (knownLater producer isLater)).2.2] at alsoResult
          exact absurd (wellFormed.result_lt alsoResult) (Nat.not_lt.mpr new)
      · obtain ⟨resharded, kept⟩ :=
          ih nextHolds nextFormed nextOld restDistinct nextKnown notLater
        constructor
        · intro sharding isEvent
          rcases (mem_events_cons_iff isDecision).mp isEvent with here | later
          · obtain ⟨change, isChange, isResult, -⟩ := reshardedResult_mem_visit_iff.mp here
            exact absurd isResult (noChange change isChange)
          · exact resharded sharding later
        · intro noEvent
          exact kept fun sharding later =>
            noEvent sharding ((mem_events_cons_iff isDecision).mpr (.inr later))

variable (meshes) in
/-- All that a run does to an operation that it does not visit is to open operands. -/
theorem opensTo_reshardFrom {start : Function} (wellFormed : start.WellFormed)
    (old : other.index < start.operations.length) {visited : List OperationId}
    (distinct : visited.Nodup)
    (known : ∀ operation ∈ visited, operation.index < start.operations.length)
    (notVisited : other ∉ visited) : (start.signature other).OpensTo (fun _ => True)
      ((reshardFrom meshes start visited).function.signature other) :=
  (reshardFrom_reaches (fun _ => True) meshes wellFormed distinct known
    fun _ _ _ _ _ _ _ _ => trivial).1 other old notVisited

/-- A run leaves an operation alone that it does not visit and that uses no result of the operations
that it visits. -/
theorem signature_reshardFrom_of_unused {start : Function} (wellFormed : start.WellFormed)
    (old : other.index < start.operations.length) {visited : List OperationId}
    (distinct : visited.Nodup)
    (known : ∀ operation ∈ visited, operation.index < start.operations.length)
    (notVisited : other ∉ visited)
    (unused : ∀ producer ∈ visited, ∀ value ∈ (start.operation producer).results,
      value ∉ (start.operation other).operands) :
    (reshardFrom meshes start visited).function.signature other = start.signature other := by
  have opened := opensTo_reshardFrom meshes wellFormed old distinct known notVisited
  refine opened.eq_of_operands (List.ext_getElem? fun slot => ?_)
  cases found : (start.operation other).operands[slot]? with
  | none =>
    have beyond : (start.signature other).operands.length ≤ slot := by
      rw [Function.signature, List.length_map]
      exact List.getElem?_eq_none_iff.mp found
    rw [List.getElem?_eq_none beyond, List.getElem?_eq_none (opened.count_eq.trans_le beyond)]
  | some value =>
    have holds : start.Holds other slot value (start.tensor value) := ⟨found, rfl⟩
    rw [holds.operand]
    refine (holds.reshardFrom wellFormed old distinct known notVisited).2 ?_
    intro sharding isEvent
    obtain ⟨producer, isVisited, isResult⟩ := exists_producer wellFormed known isEvent
    exact unused producer isVisited value isResult (List.mem_of_getElem? found)

/-! ## A run in two parts -/

/-- A run that goes through has gone through its first part. -/
theorem error_of_append {start : Function} {first second : List OperationId}
    (noError : (reshardFrom meshes start (first ++ second)).error = none) :
    (reshardFrom meshes start first).error = none := by
  induction first generalizing start with
  | nil => rfl
  | cons operation rest ih =>
    simp only [List.cons_append, reshardFrom] at noError ⊢
    cases isDecision : start.decision meshes operation with
    | error cause =>
      rw [isDecision] at noError
      cases noError
    | ok decision =>
      rw [isDecision] at noError
      exact ih noError

/-- After a first part that goes through a run goes on with the second part. -/
theorem reshardFrom_append {start : Function} {first : List OperationId}
    (noError : (reshardFrom meshes start first).error = none) (second : List OperationId) :
    reshardFrom meshes start (first ++ second) =
      let earlier := reshardFrom meshes start first
      let later := reshardFrom meshes earlier.function second
      { later with visits := earlier.visits ++ later.visits } := by
  induction first generalizing start with
  | nil => rfl
  | cons operation rest ih =>
    cases isDecision : start.decision meshes operation with
    | error cause =>
      simp only [reshardFrom, isDecision] at noError
      cases noError
    | ok decision =>
      rw [reshardFrom_cons isDecision] at noError ⊢
      rw [List.cons_append, reshardFrom_cons isDecision, ih noError]
      rfl

end Function

end MeshSharding
