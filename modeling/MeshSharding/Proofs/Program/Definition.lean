import Mathlib.Data.List.Nodup
import MeshSharding.Proofs.Program.WellFormed
import MeshSharding.Proofs.Sharding.Suits

/-!
# Definition before use

A body runs from given values when every operand is one of them or a result of
an earlier operation. This is the part of verification that depends on the order
of the body, and it is read by cutting the body in two (`runsFrom_append_iff`).
The other parts look at operations and tensors one by one
(`verify_eq_ok_iff`).
-/

set_option autoImplicit false

namespace MeshSharding

namespace Function

variable {function : Function}

/-- The values that are results of the given operations. -/
def definedBy (function : Function) (operations : List OperationId) : List ValueId :=
  operations.flatMap fun operation => (function.operation operation).results

/-- Every operand is one of the given values or a result of an earlier operation. -/
def RunsFrom (function : Function) (defined : List ValueId) : List OperationId → Prop
  | [] => True
  | operation :: rest =>
    (∀ operand ∈ (function.operation operation).operands, operand ∈ defined) ∧
      function.RunsFrom (defined ++ (function.operation operation).results) rest

theorem mem_definedBy_iff {operations : List OperationId} {value : ValueId} :
    value ∈ function.definedBy operations ↔
      ∃ operation ∈ operations, value ∈ (function.operation operation).results :=
  List.mem_flatMap

theorem definedBy_cons (operation : OperationId) (rest : List OperationId) :
    function.definedBy (operation :: rest) =
      (function.operation operation).results ++ function.definedBy rest :=
  List.flatMap_cons

theorem runsFrom_append_iff {defined : List ValueId} {first second : List OperationId} :
    function.RunsFrom defined (first ++ second) ↔
      function.RunsFrom defined first ∧
        function.RunsFrom (defined ++ function.definedBy first) second := by
  induction first generalizing defined with
  | nil => simp [RunsFrom, definedBy]
  | cons operation rest ih =>
    rw [List.cons_append, RunsFrom, RunsFrom, ih, and_assoc, definedBy_cons, List.append_assoc]

/-- With more values to start from a body runs all the same. -/
theorem RunsFrom.mono {defined more : List ValueId} {body : List OperationId}
    (runs : function.RunsFrom defined body) (subset : ∀ value ∈ defined, value ∈ more) :
    function.RunsFrom more body := by
  induction body generalizing defined more with
  | nil => trivial
  | cons operation rest ih =>
    obtain ⟨operands, later⟩ := runs
    refine ⟨fun operand member => subset operand (operands operand member), ih later ?_⟩
    intro value member
    rw [List.mem_append] at member ⊢
    exact member.imp_left (subset value)

/-- Every operand of a body that runs is one of the given values or a result within the body. -/
theorem RunsFrom.operand_mem {defined : List ValueId} {body : List OperationId}
    (runs : function.RunsFrom defined body) {operation : OperationId} (member : operation ∈ body)
    {operand : ValueId} (isOperand : operand ∈ (function.operation operation).operands) :
    operand ∈ defined ++ function.definedBy body := by
  obtain ⟨front, back, rfl⟩ := List.append_of_mem member
  have here := (runsFrom_append_iff.mp runs).2.1 operand isOperand
  rw [List.mem_append] at here ⊢
  apply here.imp_right
  intro earlier
  rw [mem_definedBy_iff] at earlier ⊢
  obtain ⟨producer, isProducer, isResult⟩ := earlier
  exact ⟨producer, List.mem_append_left _ isProducer, isResult⟩

/-- Operations before another do not use its results. -/
theorem RunsFrom.not_uses (wellFormed : function.WellFormed) {front back : List OperationId}
    {operation : OperationId}
    (runs : function.RunsFrom function.arguments (front ++ operation :: back))
    (absent : operation ∉ front) {user : OperationId} (isUser : user ∈ front ++ [operation])
    {result : ValueId} (isResult : result ∈ (function.operation operation).results) :
    result ∉ (function.operation user).operands := by
  intro isOperand
  obtain ⟨frontRuns, operands, -⟩ := runsFrom_append_iff.mp runs
  have available : result ∈ function.arguments ++ function.definedBy front := by
    rcases List.mem_append.mp isUser with inFront | isLast
    · exact frontRuns.operand_mem inFront isOperand
    · rw [List.mem_singleton.mp isLast] at isOperand
      exact operands result isOperand
  rcases List.mem_append.mp available with isArgument | earlier
  · exact wellFormed.notMem_arguments isResult isArgument
  · obtain ⟨producer, inFront, alsoResult⟩ := mem_definedBy_iff.mp earlier
    rw [wellFormed.eq_of_mem_results alsoResult isResult] at inFront
    exact absent inFront

/-! ## Verification -/

theorem checkBody_eq_ok_iff {terminator : OperationId} {defined : List ValueId}
    {body : List OperationId} : function.checkBody terminator defined body = .ok () ↔
      (∀ operation ∈ body, (function.operation operation).kind = .exit → operation = terminator) ∧
        function.RunsFrom defined body := by
  induction body generalizing defined with
  | nil => simp [checkBody, RunsFrom]
  | cons operation rest ih =>
    rw [checkBody, RunsFrom, List.forall_mem_cons]
    by_cases misplaced : (function.operation operation).kind = .exit ∧ operation ≠ terminator
    · simp [misplaced]
    · have placed : (function.operation operation).kind = .exit → operation = terminator :=
        fun isExit => Decidable.not_not.mp fun differ => misplaced ⟨isExit, differ⟩
      simp only [misplaced, if_false]
      cases undefined : (function.operation operation).operands.find? fun operand =>
          decide (operand ∉ defined) with
      | some operand =>
        have isUndefined := List.find?_some undefined
        have isOperand := List.mem_of_find?_eq_some undefined
        refine ⟨fun failed => (nomatch failed), ?_⟩
        rintro ⟨-, operands, -⟩
        exact absurd (operands operand isOperand) (of_decide_eq_true isUndefined)
      | none =>
        have operands : ∀ operand ∈ (function.operation operation).operands, operand ∈ defined := by
          simpa using undefined
        rw [ih]
        constructor
        · rintro ⟨onlyExit, later⟩
          exact ⟨⟨placed, onlyExit⟩, operands, later⟩
        · rintro ⟨⟨-, onlyExit⟩, -, later⟩
          exact ⟨onlyExit, later⟩

theorem checkResultTypes_eq_ok_iff {returned : List ValueId} {declared : List Tensor}
    {index : Nat} (sameCount : returned.length = declared.length) :
    function.checkResultTypes index returned declared = .ok () ↔
      returned.map (fun value => (function.tensor value).type) = declared.map Tensor.type := by
  induction returned generalizing declared index with
  | nil =>
    rw [List.length_eq_zero_iff.mp sameCount.symm]
    exact ⟨fun _ => rfl, fun _ => rfl⟩
  | cons value rest ih =>
    cases declared with
    | nil => cases sameCount
    | cons first others =>
      have later : function.checkResultTypes (index + 1) rest others = .ok () ↔ _ :=
        ih (Nat.succ.inj sameCount)
      rw [List.map_cons, List.map_cons, List.cons.injEq, ← later, checkResultTypes]
      by_cases sameType : (function.tensor value).type = first.type
      · simp [sameType]
      · simp [sameType]

/-- Returned values are accepted when they have the types that the function declares. -/
theorem checkReturned_eq_ok_iff {returned : List ValueId} :
    function.checkReturned returned = .ok () ↔
      returned.map (fun value => (function.tensor value).type) =
        function.results.map Tensor.type := by
  unfold checkReturned
  by_cases sameCount : returned.length = function.results.length
  · rw [if_pos sameCount]
    exact checkResultTypes_eq_ok_iff sameCount
  · rw [if_neg sameCount]
    refine ⟨fun failed => (nomatch failed), fun sameTypes => absurd ?_ sameCount⟩
    have counts := congrArg List.length sameTypes
    rwa [List.length_map, List.length_map] at counts

theorem terminator?_eq_some_iff {terminator : OperationId} :
    function.terminator? = some terminator ↔
      (∃ front, function.body = front ++ [terminator]) ∧
        (function.operation terminator).kind = .exit := by
  rw [terminator?, Option.filter_eq_some_iff, beq_iff_eq, List.getLast?_eq_some_iff]

/-- What verification asks for: an only return at the end of the body, operands that are defined
before, returned values of the declared types, and shardings that suit their meshes. -/
structure Verifies (function : Function) (meshes : SymbolTable) (terminator : OperationId) :
    Prop where
  ends : ∃ front, function.body = front ++ [terminator]
  is_exit : (function.operation terminator).kind = .exit
  only_exit : ∀ operation ∈ function.body,
    (function.operation operation).kind = .exit → operation = terminator
  runs : function.RunsFrom function.arguments function.body
  returned : ((function.operation terminator).operands.map fun value =>
    (function.tensor value).type) = function.results.map Tensor.type
  values : ∀ value : ValueId, value.index < function.values.length →
    (function.tensor value).check meshes = .ok ()
  results : ∀ tensor ∈ function.results, tensor.check meshes = .ok ()

theorem forall_values_iff {Holds : Tensor → Prop} :
    (∀ tensor ∈ function.values.map Value.tensor, Holds tensor) ↔
      ∀ value : ValueId, value.index < function.values.length → Holds (function.tensor value) := by
  rw [List.forall_mem_map, List.forall_mem_iff_getElem]
  constructor
  · intro each value below
    rw [Function.tensor, List.getElem?_eq_getElem below]
    exact each value.index below
  · intro each index below
    have holds := each ⟨index⟩ below
    rw [Function.tensor, List.getElem?_eq_getElem below] at holds
    exact holds

theorem verify_eq_ok_iff {meshes : SymbolTable} :
    function.verify meshes = .ok () ↔ ∃ terminator, function.Verifies meshes terminator := by
  unfold verify
  constructor
  · intro accepted
    split at accepted
    · cases accepted
    · rename_i terminator isTerminator
      obtain ⟨ends, isExit⟩ := terminator?_eq_some_iff.mp isTerminator
      simp only [seq_eq_ok_iff] at accepted
      obtain ⟨body, returned, values, results⟩ := accepted
      obtain ⟨onlyExit, runs⟩ := checkBody_eq_ok_iff.mp body
      exact ⟨terminator, ends, isExit, onlyExit, runs, checkReturned_eq_ok_iff.mp returned,
        forall_values_iff.mp (Tensor.checkTensors_eq_ok_iff.mp values),
        Tensor.checkTensors_eq_ok_iff.mp results⟩
  · rintro ⟨terminator, verifies⟩
    simp only [terminator?_eq_some_iff.mpr ⟨verifies.ends, verifies.is_exit⟩, seq_eq_ok_iff]
    exact ⟨checkBody_eq_ok_iff.mpr ⟨verifies.only_exit, verifies.runs⟩,
      checkReturned_eq_ok_iff.mpr verifies.returned,
      Tensor.checkTensors_eq_ok_iff.mpr (forall_values_iff.mpr verifies.values),
      Tensor.checkTensors_eq_ok_iff.mpr verifies.results⟩

/-- The tensors of the operations of a function that verifies are accepted. -/
theorem Verifies.check_signature {meshes : SymbolTable} {terminator : OperationId}
    (verifies : function.Verifies meshes terminator)
    (wellFormed : function.WellFormed) (operation : OperationId) :
    ∀ tensor ∈ (function.signature operation).operands ++ (function.signature operation).results,
      tensor.check meshes = .ok () := by
  refine List.forall_mem_append.mpr ⟨List.forall_mem_map.mpr ?_, List.forall_mem_map.mpr ?_⟩
  · exact fun value isOperand =>
      verifies.values value (wellFormed.operand_lt operation value isOperand)
  · exact fun value isResult => verifies.values value (wellFormed.result_lt isResult)

theorem Verifies.sound_signature {meshes : SymbolTable} {terminator : OperationId}
    (verifies : function.Verifies meshes terminator)
    (wellFormed : function.WellFormed) (operation : OperationId) :
    ∀ tensor ∈ (function.signature operation).operands ++ (function.signature operation).results,
      tensor.Sound meshes :=
  fun tensor member =>
    Tensor.sound_of_check (verifies.check_signature wellFormed operation tensor member)

end Function

end MeshSharding
