import MeshSharding.Proofs.Reshard.After
import MeshSharding.Proofs.Reshard.Frame

/-!
# What inserted reshards do

A reshard that is inserted for an operand gives its result to the one slot that
it was inserted for. A reshard that is inserted for a result takes this result
over: it is the only one that still uses it, and everyone else uses what it
makes of it. Later edits of other slots and other results leave both as they
are, within the visit that inserts them and in the visits of other operations,
so this can still be read off the function after a whole run
(`ReshardsOperand.reshardFrom`, `ReshardsResult.reshardFrom`).
-/

set_option autoImplicit false

namespace MeshSharding

namespace Function

variable {function : Function} {value : ValueId} {use : Use}

/-! ## Values that are used once -/

/-- One slot of one operation holds the value, and no other does. -/
def OnlyUse (function : Function) (value : ValueId) (use : Use) : Prop :=
  ∀ (operation : OperationId) (slot : Nat),
    (function.operation operation).operands[slot]? = some value ↔ use = ⟨operation, slot⟩

theorem mem_uses_iff : use ∈ function.uses value ↔ use.operation ∈ function.body ∧
    (function.operation use.operation).operands[use.slot]? = some value := by
  cases use
  simp only [uses, List.mem_flatMap, List.mem_filterMap, Prod.exists,
    List.mk_mem_zipIdx_iff_getElem?, Option.ite_none_right_eq_some, Option.some.injEq,
    Use.mk.injEq]
  constructor
  · rintro ⟨operation, placed, operand, slot, found, rfl, rfl, rfl⟩
    exact ⟨placed, found⟩
  · rintro ⟨placed, found⟩
    exact ⟨_, placed, value, _, found, rfl, rfl, rfl⟩

/-- Every use of a value is listed once. -/
theorem WellFormed.uses_nodup (wellFormed : function.WellFormed) (value : ValueId) :
    (function.uses value).Nodup := by
  refine List.nodup_flatMap.mpr ⟨?_, ?_⟩
  · intro operation _
    apply List.Nodup.filterMap
    · rintro ⟨first, slot⟩ ⟨second, other⟩ use inFirst inSecond
      simp only [Option.mem_def, Option.ite_none_right_eq_some, Option.some.injEq]
        at inFirst inSecond
      obtain ⟨rfl, rfl⟩ := inFirst
      obtain ⟨rfl, same⟩ := inSecond
      rw [(Use.mk.inj same).2]
    · apply List.Nodup.of_map Prod.snd
      rw [List.zipIdx_map_snd]
      exact List.nodup_range'
  · apply wellFormed.body_nodup.imp
    intro first second differ use inFirst inSecond
    simp only [List.mem_filterMap, Option.ite_none_right_eq_some, Option.some.injEq]
      at inFirst inSecond
    obtain ⟨_, -, -, rfl⟩ := inFirst
    obtain ⟨_, -, -, same⟩ := inSecond
    exact differ (Use.mk.inj same).1.symm

theorem OnlyUse.uses_eq (only : function.OnlyUse value use) (wellFormed : function.WellFormed) :
    function.uses value = [use] := by
  refine List.perm_singleton.mp ((List.perm_ext_iff_of_nodup (wellFormed.uses_nodup value)
    (List.nodup_singleton use)).mpr fun other => ?_)
  rw [mem_uses_iff, List.mem_singleton, only]
  constructor
  · rintro ⟨-, rfl⟩
    rfl
  · rintro rfl
    have held := (only other.operation other.slot).mpr rfl
    exact ⟨(wellFormed.mem_body_iff _).mpr (lt_of_mem_operands (List.mem_of_getElem? held)), rfl⟩

theorem OnlyUse.holds (only : function.OnlyUse value use) :
    (function.operation use.operation).operands[use.slot]? = some value :=
  (only use.operation use.slot).mpr rfl

theorem OnlyUse.known (only : function.OnlyUse value use) (wellFormed : function.WellFormed) :
    value.index < function.values.length :=
  wellFormed.operand_lt use.operation value (List.mem_of_getElem? only.holds)

/-- The next operation is not the one that uses a value. -/
theorem OnlyUse.ne_next (only : function.OnlyUse value use) (slot : Nat) :
    use ≠ ⟨function.nextOperation, slot⟩ := by
  rintro rfl
  exact Nat.lt_irrefl _ (lt_of_mem_operands (List.mem_of_getElem? only.holds))

/-- A value stays where it is when another slot is given something else. -/
theorem OnlyUse.reshardOperand (only : function.OnlyUse value use)
    (wellFormed : function.WellFormed) {operation : OperationId} {change : OperandChange}
    (differ : use ≠ ⟨operation, change.slot⟩) :
    (function.reshardOperand operation change).OnlyUse value use := by
  cases found : (function.operation operation).operands[change.slot]? with
  | none =>
    rw [reshardOperand_of_none found]
    exact only
  | some held =>
    have heldOther : held ≠ value := by
      rintro rfl
      exact differ ((only operation change.slot).mp found)
    have notNext : function.nextValue ≠ value := (ne_nextValue_of_lt (only.known wellFormed)).symm
    intro user slot
    by_cases isNext : user = function.nextOperation
    · rw [isNext, operation_reshardOperand_next found]
      simp [List.getElem?_singleton, heldOther, only.ne_next slot]
    · by_cases same : user = operation
      · rw [same, operation_reshardOperand_self found]
        by_cases sameSlot : change.slot = slot
        · subst sameSlot
          rw [List.getElem?_set_self (List.getElem?_eq_some_iff.mp found).1]
          simp [notNext, differ]
        · rw [List.getElem?_set_ne sameSlot]
          exact only operation slot
      · rw [operation_reshardOperand_of_ne found same isNext]
        exact only user slot

/-- A value stays where it is when another one is replaced. -/
theorem OnlyUse.reshardResult (only : function.OnlyUse value use)
    (wellFormed : function.WellFormed) (anchor : OperationId) {result : ValueId}
    (differ : result ≠ value) (change : ResultChange) :
    (function.reshardResult anchor result change).OnlyUse value use := by
  have notNext : function.nextValue ≠ value := (ne_nextValue_of_lt (only.known wellFormed)).symm
  intro user slot
  by_cases isNext : user = function.nextOperation
  · rw [isNext, operation_reshardResult_next]
    simp [List.getElem?_singleton, differ, only.ne_next slot]
  · rw [operation_reshardResult_of_ne _ _ _ _ isNext, ← only user slot, List.getElem?_map,
      Option.map_eq_some_iff]
    constructor
    · rintro ⟨held, found, isValue⟩
      split at isValue
      · exact absurd isValue notNext
      · rw [found, isValue]
    · intro found
      exact ⟨value, found, if_neg differ.symm⟩

/-! ## Reshards of operands -/

/-- An operation reshards a value for one slot of another operation and for nothing else. -/
def ReshardsOperand (function : Function) (operation : OperationId) (change : OperandChange)
    (reshard : OperationId) : Prop :=
  ∃ source value, function.operation reshard = ⟨.reshard, [source], [value], none⟩ ∧
    function.OnlyUse value ⟨operation, change.slot⟩ ∧
    (function.tensor value).sharding = some change.target

/-- An operation reshards a result of another operation, and it alone uses the result. -/
def ReshardsResult (function : Function) (operation : OperationId) (change : ResultChange)
    (reshard : OperationId) : Prop :=
  ∃ result value, (function.operation operation).results[change.index]? = some result ∧
    function.operation reshard = ⟨.reshard, [result], [value], none⟩ ∧
    function.OnlyUse result ⟨reshard, 0⟩ ∧
    (function.tensor result).sharding = some change.target ∧
    (function.tensor value).sharding = some change.restored

variable {operation reshard : OperationId} {meshes : SymbolTable}

/-- An operation that reshards a value has been created. -/
theorem lt_of_reshard {source value : ValueId}
    (isReshard : function.operation reshard = ⟨.reshard, [source], [value], none⟩) :
    reshard.index < function.operations.length := by
  have isOperand : source ∈ (function.operation reshard).operands := by simp [isReshard]
  exact lt_of_mem_operands isOperand

/-- Only one value is made of a value that one reshard alone uses. -/
theorem OnlyUse.made_eq {result made : ValueId} {other : OperationId}
    (only : function.OnlyUse result ⟨reshard, 0⟩)
    (isReshard : function.operation reshard = ⟨.reshard, [result], [value], none⟩)
    (alsoReshard : function.operation other = ⟨.reshard, [result], [made], none⟩) :
    made = value := by
  have same := (only other 0).mp (by rw [alsoReshard]; rfl)
  rw [← (Use.mk.inj same).1, isReshard] at alsoReshard
  cases alsoReshard
  rfl

section Operand

variable {change : OperandChange}

theorem reshardsOperand_next (wellFormed : function.WellFormed)
    (found : (function.operation operation).operands[change.slot]? = some value) :
    (function.reshardOperand operation change).ReshardsOperand operation change
      function.nextOperation := by
  refine ⟨value, function.nextValue, operation_reshardOperand_next found, ?_, ?_⟩
  · have unused (user : OperationId) (slot : Nat) :
        (function.operation user).operands[slot]? ≠ some function.nextValue := fun held =>
      Nat.lt_irrefl _ (wellFormed.operand_lt user _ (List.mem_of_getElem? held))
    have old : operation ≠ function.nextOperation :=
      ne_nextOperation_of_lt (operation_lt_of_operand found)
    intro user slot
    by_cases isNext : user = function.nextOperation
    · have notNext : value ≠ function.nextValue :=
        ne_nextValue_of_lt (wellFormed.operand_lt operation value (List.mem_of_getElem? found))
      rw [isNext, operation_reshardOperand_next found]
      simp [List.getElem?_singleton, notNext, old]
    · by_cases same : user = operation
      · rw [same, operation_reshardOperand_self found]
        by_cases sameSlot : change.slot = slot
        · rw [← sameSlot, List.getElem?_set_self (List.getElem?_eq_some_iff.mp found).1]
          simp
        · rw [List.getElem?_set_ne sameSlot]
          simp [unused, sameSlot]
      · rw [operation_reshardOperand_of_ne found same isNext]
        simp [unused, Ne.symm same]
  · rw [tensor_reshardOperand_next found]

theorem ReshardsOperand.reshardOperand
    (reshards : function.ReshardsOperand operation change reshard)
    (wellFormed : function.WellFormed) {other : OperationId} (apart : reshard ≠ other)
    {later : OperandChange} (differ : (⟨operation, change.slot⟩ : Use) ≠ ⟨other, later.slot⟩) :
    (function.reshardOperand other later).ReshardsOperand operation change reshard := by
  obtain ⟨source, value, isReshard, only, isTarget⟩ := reshards
  have created := lt_of_reshard isReshard
  refine ⟨source, value, ?_, only.reshardOperand wellFormed differ, ?_⟩
  · rw [(signature_reshardOperand_of_ne wellFormed other later apart created).1]
    exact isReshard
  · rw [tensor_reshardOperand_of_lt _ _ (only.known wellFormed)]
    exact isTarget

theorem ReshardsOperand.reshardResult
    (reshards : function.ReshardsOperand operation change reshard)
    (wellFormed : function.WellFormed) {producer : OperationId} (apart : reshard ≠ producer)
    (anchor : OperationId) {result : ValueId}
    (isResult : result ∈ (function.operation producer).results) (later : ResultChange) :
    (function.reshardResult anchor result later).ReshardsOperand operation change reshard := by
  obtain ⟨source, value, isReshard, only, isTarget⟩ := reshards
  have created := lt_of_reshard isReshard
  have differ : result ≠ value := by
    rintro rfl
    exact apart (wellFormed.eq_of_mem_results (by simp [isReshard]) isResult)
  have redirected := operation_reshardResult_of_ne function anchor result later
    (ne_nextOperation_of_lt created)
  rw [isReshard] at redirected
  refine ⟨_, value, redirected, only.reshardResult wellFormed anchor differ later, ?_⟩
  · rw [tensor_reshardResult_of_ne _ _ _ (only.known wellFormed) differ.symm]
    exact isTarget

end Operand

/-! ## Reshards of results -/

section Result

variable {change : ResultChange}

theorem reshardsResult_next (wellFormed : function.WellFormed) (anchor : OperationId)
    {result : ValueId}
    (found : (function.operation operation).results[change.index]? = some result) :
    (function.reshardResult anchor result change).ReshardsResult operation change
      function.nextOperation := by
  have isResult := List.mem_of_getElem? found
  have known := wellFormed.result_lt isResult
  refine ⟨result, function.nextValue, ?_, operation_reshardResult_next .., ?_, ?_, ?_⟩
  · rw [operation_reshardResult_of_ne _ _ _ _ (ne_nextOperation_of_result isResult)]
    exact found
  · intro user slot
    by_cases isNext : user = function.nextOperation
    · rw [isNext, operation_reshardResult_next]
      simp [List.getElem?_singleton, eq_comm]
    · have notNext := ne_nextValue_of_lt known
      rw [operation_reshardResult_of_ne _ _ _ _ isNext, List.getElem?_map]
      simp only [Option.map_eq_some_iff, Use.mk.injEq, Ne.symm isNext, false_and, iff_false,
        not_exists, not_and]
      intro held _
      split
      · exact notNext.symm
      · assumption
  · rw [tensor_reshardResult_self _ _ _ known]
  · rw [tensor_reshardResult_next _ _ _ known]

theorem ReshardsResult.reshardOperand
    (reshards : function.ReshardsResult operation change reshard)
    (wellFormed : function.WellFormed) {other : OperationId} (apart : reshard ≠ other)
    (later : OperandChange) :
    (function.reshardOperand other later).ReshardsResult operation change reshard := by
  obtain ⟨result, value, found, isReshard, only, isTarget, isRestored⟩ := reshards
  have created := lt_of_reshard isReshard
  have known := (Extends.inserted_lt wellFormed isReshard).2
  refine ⟨result, value, ?_, ?_, only.reshardOperand wellFormed ?_, ?_, ?_⟩
  · rw [results_reshardOperand _ _ (ne_nextOperation_of_result (List.mem_of_getElem? found))]
    exact found
  · rw [(signature_reshardOperand_of_ne wellFormed other later apart created).1]
    exact isReshard
  · exact fun same => apart (Use.mk.inj same).1
  · rw [tensor_reshardOperand_of_lt _ _ (only.known wellFormed)]
    exact isTarget
  · rw [tensor_reshardOperand_of_lt _ _ known]
    exact isRestored

theorem ReshardsResult.reshardResult
    (reshards : function.ReshardsResult operation change reshard)
    (wellFormed : function.WellFormed) {producer : OperationId} (apart : reshard ≠ producer)
    (anchor : OperationId) {other : ValueId}
    (isOther : other ∈ (function.operation producer).results)
    (differ : (function.operation operation).results[change.index]? ≠ some other)
    (later : ResultChange) :
    (function.reshardResult anchor other later).ReshardsResult operation change reshard := by
  obtain ⟨result, value, found, isReshard, only, isTarget, isRestored⟩ := reshards
  have created := lt_of_reshard isReshard
  have isValue : value ∈ (function.operation reshard).results := by simp [isReshard]
  have otherResult : other ≠ result := by
    rintro rfl
    exact differ found
  have otherValue : value ≠ other := by
    rintro rfl
    exact apart (wellFormed.eq_of_mem_results isValue isOther)
  refine ⟨result, value, ?_, ?_, only.reshardResult wellFormed anchor otherResult later, ?_, ?_⟩
  · rw [operation_reshardResult_of_ne _ _ _ _
      (ne_nextOperation_of_result (List.mem_of_getElem? found))]
    exact found
  · rw [operation_reshardResult_of_notMem _ _ _ _ (ne_nextOperation_of_lt created), isReshard]
    simpa [isReshard] using otherResult
  · rw [tensor_reshardResult_of_ne _ _ _ (only.known wellFormed) otherResult.symm]
    exact isTarget
  · rw [tensor_reshardResult_of_ne _ _ _ (wellFormed.result_lt isValue) otherValue]
    exact isRestored

end Result

/-! ## Other operands and results of the operation -/

/-- What reshards an operand goes on doing so when operands in other slots are resharded. -/
theorem ReshardsOperand.reshardOperands {change : OperandChange} {reshard : OperationId}
    (reshards : function.ReshardsOperand operation change reshard)
    (wellFormed : function.WellFormed) (apart : reshard ≠ operation)
    {changes : List OperandChange} (absent : change.slot ∉ changes.map OperandChange.slot) :
    (function.reshardOperands operation changes).ReshardsOperand operation change reshard := by
  refine (reshardOperands_induction
    (fun current => current.WellFormed ∧ current.ReshardsOperand operation change reshard)
    operation changes ?_ ⟨wellFormed, reshards⟩).2
  rintro current later isLater ⟨currentFormed, still⟩
  refine ⟨currentFormed.reshardOperand operation later,
    still.reshardOperand currentFormed apart fun same => ?_⟩
  exact absent (List.mem_map.mpr ⟨later, isLater, (Use.mk.inj same).2.symm⟩)

/-- What reshards an operand goes on doing so when results of the operation are resharded. -/
theorem ReshardsOperand.reshardResults {change : OperandChange} {reshard : OperationId}
    (reshards : function.ReshardsOperand operation change reshard)
    (wellFormed : function.WellFormed) (apart : reshard ≠ operation) {anchor : OperationId}
    (placed : anchor ∈ function.body) (changes : List ResultChange) :
    (function.reshardResults operation anchor changes).ReshardsOperand operation change
      reshard := by
  refine (reshardResults_induction
    (fun current => current.WellFormed ∧ current.ReshardsOperand operation change reshard)
    operation changes ?_ ⟨wellFormed, reshards⟩ placed).2
  rintro current anchor result later - ⟨currentFormed, still⟩ anchored found
  have isResult := List.mem_of_getElem? found
  exact ⟨currentFormed.reshardResult anchored (currentFormed.result_lt isResult) later,
    still.reshardResult currentFormed apart anchor isResult later⟩

/-- What reshards a result goes on doing so when other results are resharded. -/
theorem ReshardsResult.reshardResults {change : ResultChange} {reshard : OperationId}
    (reshards : function.ReshardsResult operation change reshard)
    (wellFormed : function.WellFormed) (apart : reshard ≠ operation) {anchor : OperationId}
    (placed : anchor ∈ function.body) {changes : List ResultChange}
    (absent : change.index ∉ changes.map ResultChange.index) :
    (function.reshardResults operation anchor changes).ReshardsResult operation change
      reshard := by
  refine (reshardResults_induction
    (fun current => current.WellFormed ∧ current.ReshardsResult operation change reshard)
    operation changes ?_ ⟨wellFormed, reshards⟩ placed).2
  rintro current anchor result later isLater ⟨currentFormed, still⟩ anchored found
  have isResult := List.mem_of_getElem? found
  refine ⟨currentFormed.reshardResult anchored (currentFormed.result_lt isResult) later,
    still.reshardResult currentFormed apart anchor isResult (fun alsoFound => ?_) later⟩
  rw [currentFormed.result_iff] at found alsoFound
  rw [found, Option.some.injEq, Origin.result.injEq] at alsoFound
  exact absent (List.mem_map.mpr ⟨later, isLater, alsoFound.2⟩)

/-! ## Runs over other operations -/

section Run

variable {visited : List OperationId} (wellFormed : function.WellFormed)
  (placed : ∀ other ∈ visited, other ∈ function.body) (notVisited : operation ∉ visited)
  (stays : reshard ∉ visited)
include wellFormed placed notVisited stays

theorem ReshardsOperand.reshardFrom {change : OperandChange}
    (reshards : function.ReshardsOperand operation change reshard) :
    (reshardFrom meshes function visited).function.ReshardsOperand operation change reshard := by
  refine (reshardFrom_induction
    (fun current => current.WellFormed ∧ current.ReshardsOperand operation change reshard)
    meshes visited ?_ ?_ placed ⟨wellFormed, reshards⟩).2
  · rintro current other later isVisited ⟨currentFormed, still⟩
    refine ⟨currentFormed.reshardOperand other later, still.reshardOperand currentFormed
      (ne_of_mem_of_not_mem isVisited stays).symm fun same => ?_⟩
    rw [Use.mk.injEq] at same
    exact notVisited (same.1 ▸ isVisited)
  · rintro current producer anchor result later isVisited ⟨currentFormed, still⟩ anchored isResult
    exact ⟨currentFormed.reshardResult anchored (currentFormed.result_lt isResult) later,
      still.reshardResult currentFormed (ne_of_mem_of_not_mem isVisited stays).symm anchor isResult
        later⟩

theorem ReshardsResult.reshardFrom {change : ResultChange}
    (reshards : function.ReshardsResult operation change reshard) :
    (reshardFrom meshes function visited).function.ReshardsResult operation change reshard := by
  refine (reshardFrom_induction
    (fun current => current.WellFormed ∧ current.ReshardsResult operation change reshard)
    meshes visited ?_ ?_ placed ⟨wellFormed, reshards⟩).2
  · rintro current other later isVisited ⟨currentFormed, still⟩
    exact ⟨currentFormed.reshardOperand other later, still.reshardOperand currentFormed
      (ne_of_mem_of_not_mem isVisited stays).symm later⟩
  · rintro current producer anchor result later isVisited ⟨currentFormed, still⟩ anchored isResult
    refine ⟨currentFormed.reshardResult anchored (currentFormed.result_lt isResult) later,
      still.reshardResult currentFormed (ne_of_mem_of_not_mem isVisited stays).symm anchor isResult
        (fun found => ?_) later⟩
    rw [← currentFormed.eq_of_mem_results isResult (List.mem_of_getElem? found)] at notVisited
    exact notVisited isVisited

end Run

end Function

end MeshSharding
