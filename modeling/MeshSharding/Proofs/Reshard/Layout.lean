import MeshSharding.Proofs.ListsAndChecks
import MeshSharding.Proofs.Reshard.Consistency
import MeshSharding.Proofs.Reshard.Inserted
import MeshSharding.Proofs.Reshard.Uses

/-!
# The body after a run

A run leaves the operations that it visits in their order and puts reshards
around each of them: in front of it those for its operands, behind it those for
its results, both by increasing position (`Surrounds`). Operands are all
inserted right before the operation and results after the one inserted last, so
seen from the operation nothing ever moves. What stands in front of the
operations that are still to be visited is a row of such blocks, and since later
visits leave the reshards of earlier ones alone, the whole body is one in the
end (`reshardFrom_blocks`).

Each block has one operation more than its visit reshards operands and results,
which is what the tally of the run counts.
-/

set_option autoImplicit false

namespace MeshSharding

/-! ## What a decision changes, in order -/

/-- The operands and the results that a decision changes exist and are listed by increasing
position. -/
structure Decision.InOrder (signature : Signature) (decision : Decision) : Prop where
  slot_lt : ∀ change ∈ decision.operandChanges, change.slot < signature.operands.length
  index_lt : ∀ change ∈ decision.resultChanges, change.index < signature.results.length
  slots : (decision.operandChanges.map OperandChange.slot).Pairwise (· < ·)
  indices : (decision.resultChanges.map ResultChange.index).Pairwise (· < ·)

theorem inOrder_of_decision {meshes : SymbolTable} {declared : List Tensor}
    {signature : Signature} {decision : Decision}
    (decided : signature.decision meshes declared = .ok decision) :
    decision.InOrder signature := by
  cases decision with
  | skip reason =>
    exact ⟨fun _ member => absurd member List.not_mem_nil,
      fun _ member => absurd member List.not_mem_nil, .nil, .nil⟩
  | exit changes =>
    obtain ⟨-, rfl⟩ := kind_of_decision_exit decided
    refine ⟨?_, fun _ member => absurd member List.not_mem_nil,
      List.Pairwise.sublist (slots_exitChanges_sublist _) List.pairwise_lt_range', .nil⟩
    intro change isChange
    obtain ⟨tensor, found, -⟩ := mem_exitChanges_iff.mp isChange
    exact (List.getElem?_eq_some_iff.mp found).1
  | revise revision =>
    obtain ⟨rule, name, mesh, projection, -, -, -, -, isProjection, -, -, rfl⟩ :=
      decision_revise_cases decided
    obtain ⟨suited, operandsRead, resultsRead⟩ := Projection.ofSignature_eq_ok_iff.mp isProjection
    have inOrder (flags : List Bool) : (ChangeSet.positions flags).Pairwise (· < ·) :=
      List.Pairwise.sublist (ChangeSet.positions_sublist flags) List.pairwise_lt_range'
    refine ⟨?_, ?_, (inOrder _).sublist (slots_operandChanges_sublist _),
      (inOrder _).sublist (indices_resultChanges_sublist _)⟩
    · intro change isChange
      obtain ⟨tensor, _, found, -⟩ :=
        (mem_revision_operands_iff suited operandsRead resultsRead).mp isChange
      rw [← operandsRead.count]
      exact (List.getElem?_eq_some_iff.mp found).1
    · intro change isChange
      obtain ⟨result, _, _, found, -⟩ :=
        (mem_revision_results_iff suited operandsRead resultsRead).mp isChange
      exact (List.getElem?_eq_some_iff.mp found).1

/-! ## Blocks -/

/-- An operation with what has been inserted right in front of it and right behind it. -/
structure Block where
  before : List OperationId
  operation : OperationId
  behind : List OperationId

/-- The operations of a block in their order. -/
def Block.operations (block : Block) : List OperationId :=
  block.before ++ block.operation :: block.behind

namespace Function

/-- The block of an operation that has been visited consists of the reshards that were decided,
one for each operand that changes and one for each result that changes, by increasing position.
They were created after the first `count` operations. -/
structure Surrounds (function : Function) (count : Nat) (visit : Visit) (block : Block) :
    Prop where
  operation_eq : block.operation = visit.operation
  before : List.Forall₂ (fun change reshard => count ≤ reshard.index ∧
    function.ReshardsOperand visit.operation change reshard) visit.decision.operandChanges
      block.before
  behind : List.Forall₂ (fun change reshard => count ≤ reshard.index ∧
    function.ReshardsResult visit.operation change reshard) visit.decision.resultChanges
      block.behind
  slots : (visit.decision.operandChanges.map OperandChange.slot).Pairwise (· < ·)
  indices : (visit.decision.resultChanges.map ResultChange.index).Pairwise (· < ·)

variable {meshes : SymbolTable} {function : Function} {operation : OperationId} {count : Nat}
  {processed rest : List OperationId}

/-! ## One visit -/

/-- Operands are resharded in front of the operation, in order. -/
theorem reshardOperands_before (wellFormed : function.WellFormed)
    (body : function.body = processed ++ operation :: rest) {changes : List OperandChange}
    (slot_lt : ∀ change ∈ changes, change.slot < (function.operation operation).operands.length)
    (distinct : (changes.map OperandChange.slot).Nodup) :
    let later := function.reshardOperands operation changes
    later.WellFormed ∧ ∃ before, later.body = processed ++ before ++ operation :: rest ∧
      List.Forall₂ (fun change reshard => function.operations.length ≤ reshard.index ∧
        later.ReshardsOperand operation change reshard) changes before := by
  induction changes generalizing function processed with
  | nil => exact ⟨wellFormed, [], by rw [List.append_nil]; exact body, .nil⟩
  | cons change others ih =>
    obtain ⟨isSlot, areSlots⟩ := List.forall_mem_cons.mp slot_lt
    obtain ⟨absent, othersDistinct⟩ := List.nodup_cons.mp distinct
    have found := List.getElem?_eq_getElem isSlot
    have old := operation_lt_of_operand found
    have newBody : (function.reshardOperand operation change).body =
        (processed ++ [function.nextOperation]) ++ operation :: rest := by
      rw [body_reshardOperand found, body, insertedBefore_append (wellFormed.notMem_front body),
        List.append_assoc]
      rfl
    have nextFormed := wellFormed.reshardOperand operation change
    obtain ⟨lastFormed, before, lastBody, reshards⟩ := ih nextFormed newBody
      (fun other isOther => by
        rw [operation_reshardOperand_self found, List.length_set]
        exact areSlots other isOther)
      othersDistinct
    refine ⟨lastFormed, function.nextOperation :: before, ?_, .cons ⟨Nat.le_refl _, ?_⟩ ?_⟩
    · rw [List.append_assoc processed] at lastBody
      exact lastBody
    · exact (reshardsOperand_next wellFormed found).reshardOperands nextFormed
        (ne_nextOperation_of_lt old).symm absent
    · refine reshards.imp fun other reshard holds => ⟨?_, holds.2⟩
      have new := holds.1
      rw [length_operations_reshardOperand found] at new
      exact Nat.le_of_succ_le new

variable (operation) in
/-- Results are resharded in a row behind the anchor, in order. -/
theorem reshardResults_behind (wellFormed : function.WellFormed) {anchor : OperationId}
    (body : function.body = processed ++ anchor :: rest) {changes : List ResultChange}
    (index_lt : ∀ change ∈ changes, change.index < (function.operation operation).results.length)
    (distinct : (changes.map ResultChange.index).Nodup) :
    let later := function.reshardResults operation anchor changes
    ∃ behind, later.body = processed ++ anchor :: behind ++ rest ∧
      List.Forall₂ (fun change reshard => function.operations.length ≤ reshard.index ∧
        later.ReshardsResult operation change reshard) changes behind := by
  induction changes generalizing function processed anchor with
  | nil => exact ⟨[], by rw [List.append_assoc]; exact body, .nil⟩
  | cons change others ih =>
    obtain ⟨isIndex, areIndices⟩ := List.forall_mem_cons.mp index_lt
    obtain ⟨absent, othersDistinct⟩ := List.nodup_cons.mp distinct
    have found := List.getElem?_eq_getElem isIndex
    have isResult := List.mem_of_getElem? found
    have old := ne_nextOperation_of_result isResult
    have placed : anchor ∈ function.body := by simp [body]
    generalize (function.operation operation).results[change.index] = result at found isResult
    have nextFormed := wellFormed.reshardResult placed (wellFormed.result_lt isResult) change
    have newBody : (function.reshardResult anchor result change).body =
        (processed ++ [anchor]) ++ function.nextOperation :: rest := by
      rw [body_reshardResult, body, insertedAfter_append (wellFormed.notMem_front body),
        List.append_assoc]
      rfl
    have nextPlaced := nextOperation_mem_body_reshardResult result change placed
    obtain ⟨behind, lastBody, reshards⟩ := ih nextFormed newBody
      (fun other isOther => by
        rw [operation_reshardResult_of_ne _ _ _ _ old]
        exact areIndices other isOther)
      othersDistinct
    simp only [Function.reshardResults, found]
    refine ⟨function.nextOperation :: behind, ?_, .cons ⟨Nat.le_refl _, ?_⟩ ?_⟩
    · rw [lastBody]
      simp
    · exact (reshardsResult_next wellFormed anchor found).reshardResults nextFormed old.symm
        nextPlaced absent
    · refine reshards.imp fun other reshard holds => ⟨?_, holds.2⟩
      have new := holds.1
      rw [length_operations_reshardResult] at new
      exact Nat.le_of_succ_le new

/-- **A visit puts a block in the place of its operation.** -/
theorem carryOut_surrounds (wellFormed : function.WellFormed)
    (body : function.body = processed ++ operation :: rest) {decision : Decision}
    (decided : function.decision meshes operation = .ok decision) :
    let later := function.carryOut operation decision
    ∃ block, later.body = processed ++ block.operations ++ rest ∧
      later.Surrounds function.operations.length (function.visit operation decision) block := by
  obtain ⟨slot_lt, index_lt, slots, indices⟩ :=
    inOrder_of_decision (decision_eq_ok_iff.mp decided)
  simp only [Function.signature, List.length_map] at slot_lt index_lt
  have old : operation.index < function.operations.length :=
    wellFormed.lt_of_mem_body body (List.mem_append_right _ List.mem_cons_self)
  obtain ⟨halfFormed, before, halfBody, resharded⟩ :=
    reshardOperands_before wellFormed body slot_lt (slots.imp Nat.ne_of_lt)
  have extended := (Extends.refl wellFormed).reshardOperands wellFormed old decision.operandChanges
  have placed : operation ∈
      (function.reshardOperands operation decision.operandChanges).body := by simp [halfBody]
  have sameResults := (extended.kept operation old).2.2
  obtain ⟨behind, lastBody, alsoResharded⟩ := reshardResults_behind operation halfFormed halfBody
    (by rwa [sameResults]) (indices.imp Nat.ne_of_lt)
  rw [carryOut_eq]
  refine ⟨⟨before, operation, behind⟩, ?_, rfl, ?_, ?_, slots, indices⟩
  · rw [lastBody]
    simp [Block.operations]
  · refine resharded.imp fun change reshard holds => ⟨holds.1, ?_⟩
    have apart : reshard ≠ operation := by
      rintro rfl
      exact Nat.not_lt.mpr holds.1 old
    exact holds.2.reshardResults halfFormed apart placed _
  · exact alsoResharded.imp fun change reshard holds =>
      ⟨Nat.le_trans extended.operations_le holds.1, holds.2⟩

/-! ## The run -/

theorem Surrounds.mono {visit : Visit} {block : Block} {more : Nat}
    (surrounds : function.Surrounds more visit block) (fewer : count ≤ more) :
    function.Surrounds count visit block where
  operation_eq := surrounds.operation_eq
  before := surrounds.before.imp fun _ _ holds => ⟨Nat.le_trans fewer holds.1, holds.2⟩
  behind := surrounds.behind.imp fun _ _ holds => ⟨Nat.le_trans fewer holds.1, holds.2⟩
  slots := surrounds.slots
  indices := surrounds.indices

/-- A block stays a block when other operations are visited that were there before. -/
theorem Surrounds.reshardFrom {visit : Visit} {block : Block} {visited : List OperationId}
    (surrounds : function.Surrounds count visit block) (wellFormed : function.WellFormed)
    (placed : ∀ other ∈ visited, other ∈ function.body)
    (original : ∀ other ∈ visited, other.index < count)
    (notVisited : visit.operation ∉ visited) :
    (reshardFrom meshes function visited).function.Surrounds count visit block where
  operation_eq := surrounds.operation_eq
  before := surrounds.before.imp fun _ reshard holds =>
    ⟨holds.1, holds.2.reshardFrom wellFormed placed notVisited
      fun member => Nat.not_lt.mpr holds.1 (original reshard member)⟩
  behind := surrounds.behind.imp fun _ reshard holds =>
    ⟨holds.1, holds.2.reshardFrom wellFormed placed notVisited
      fun member => Nat.not_lt.mpr holds.1 (original reshard member)⟩
  slots := surrounds.slots
  indices := surrounds.indices

/-- **A run that goes through puts a block in the place of every operation that it visits.** -/
theorem reshardFrom_blocks (wellFormed : function.WellFormed)
    (body : function.body = processed ++ rest) (original : ∀ other ∈ rest, other.index < count)
    (grown : count ≤ function.operations.length)
    (noError : (reshardFrom meshes function rest).error = none) :
    let run := reshardFrom meshes function rest
    run.visits.map Visit.operation = rest ∧
      ∃ blocks, run.function.body = processed ++ blocks.flatMap Block.operations ∧
        List.Forall₂ (run.function.Surrounds count) run.visits blocks := by
  induction rest generalizing function processed with
  | nil => exact ⟨rfl, [], body, .nil⟩
  | cons operation rest ih =>
    cases isDecision : function.decision meshes operation with
    | error cause =>
      simp only [Function.reshardFrom, isDecision] at noError
      cases noError
    | ok decision =>
      have old : operation.index < function.operations.length :=
        wellFormed.lt_of_mem_body body (List.mem_append_right _ List.mem_cons_self)
      obtain ⟨block, nextBody, surrounds⟩ := carryOut_surrounds wellFormed body isDecision
      obtain ⟨nextFormed, extended⟩ :=
        (Extends.refl wellFormed).carryOut wellFormed old decision
      obtain ⟨-, laterOriginal⟩ := List.forall_mem_cons.mp original
      rw [reshardFrom_cons isDecision] at noError ⊢
      obtain ⟨visits, blocks, lastBody, later⟩ := ih nextFormed nextBody laterOriginal
        (Nat.le_trans grown extended.operations_le) noError
      refine ⟨congrArg (operation :: ·) visits, block :: blocks, ?_, .cons ?_ later⟩
      · rw [List.flatMap_cons, ← List.append_assoc]
        exact lastBody
      · exact (surrounds.mono grown).reshardFrom nextFormed
          (fun other isLater => by
            rw [nextBody]
            exact List.mem_append_right _ isLater)
          laterOriginal (wellFormed.notMem_back body)

/-- A run over the whole body makes it a row of blocks. -/
theorem reshard_blocks (wellFormed : function.WellFormed)
    (noError : (function.reshard meshes).error = none) :
    let run := function.reshard meshes
    run.visits.map Visit.operation = function.body ∧
      ∃ blocks, run.function.body = blocks.flatMap Block.operations ∧
        List.Forall₂ (run.function.Surrounds function.operations.length) run.visits blocks :=
  reshardFrom_blocks wellFormed (List.nil_append function.body).symm
    (fun other => (wellFormed.mem_body_iff other).mp) (Nat.le_refl _) noError

/-! ## Counting -/

/-- A block has as many operations besides its own as its visit inserts. -/
theorem Surrounds.length_operations {visit : Visit} {block : Block}
    (surrounds : function.Surrounds count visit block) :
    block.operations.length = 1 + visit.decision.reshardCount := by
  have counted : visit.decision.reshardCount =
      visit.decision.operandChanges.length + visit.decision.resultChanges.length := by
    cases visit.decision <;> rfl
  rw [Block.operations, List.length_append, List.length_cons, ← surrounds.before.length_eq,
    ← surrounds.behind.length_eq, counted]
  omega

end Function

theorem ReshardRun.tally_cons (function : Function) (visit : Visit) (rest : List Visit)
    (error : Option ReshardError) : (ReshardRun.mk function (visit :: rest) error).tally =
      (Tally.ofDecision visit.decision).add (ReshardRun.mk function rest error).tally := rfl

/-- A run counts its visits, and each of them among the outcomes. -/
theorem ReshardRun.visited_tally (run : ReshardRun) : run.tally.visited = run.visits.length ∧
    run.tally.visited = run.tally.exits + run.tally.withoutRule + run.tally.withoutMesh +
      run.tally.overflowing + run.tally.consistent + run.tally.revised := by
  obtain ⟨function, visits, error⟩ := run
  induction visits with
  | nil => exact ⟨rfl, rfl⟩
  | cons visit rest ih =>
    obtain ⟨visited, outcomes⟩ := ih
    have one := Tally.visited_ofDecision visit.decision
    simp only [tally_cons, Tally.add, Tally.visited_ofDecision_eq, List.length_cons]
      at one visited ⊢
    omega

namespace Function

variable {meshes : SymbolTable} {function : Function} {operation : OperationId} {count : Nat}

/-- The blocks of a run have as many operations as the run counts visits and reshards. -/
theorem length_blocks (run : ReshardRun) {blocks : List Block}
    (surrounded : List.Forall₂ (function.Surrounds count) run.visits blocks) :
    (blocks.flatMap Block.operations).length = run.visits.length + run.tally.reshards := by
  obtain ⟨last, visits, error⟩ := run
  dsimp only at surrounded ⊢
  induction surrounded with
  | nil => rfl
  | cons surrounds _ ih =>
    rw [List.flatMap_cons, List.length_append, surrounds.length_operations, ih, List.length_cons,
      ReshardRun.tally_cons]
    simp only [Tally.add, Tally.reshards_ofDecision]
    omega

/-! ## A fork whose results are used on -/

/-- Three operands and two results that are all sharded alike. -/
def forkRule : FactorRule :=
  { shiftRule with
    operands := [[[0], [1]], [[0], [1]], [[0], [1]]]
    results := [[[0], [1]], [[0], [1]]]
    mapped_lt := by decide }

/-- The fork agrees on axes that one of its operands and both of its results do not have. The sum
uses the first result twice, and both results are returned, the first one twice. -/
def forkHistory : List Edit :=
  [.addArgument (closedMatrix [.whole "x"] []),
    .addArgument (closedMatrix [] []),
    .addResult (closedMatrix [.whole "y"] []),
    .addResult ⟨⟨[4, 4], .f32⟩, none⟩,
    .addResult ⟨⟨[4, 4], .f32⟩, none⟩,
    .addResult (closedMatrix [] [.whole "y"]),
    .append (.custom "fork") [⟨0⟩, ⟨0⟩, ⟨1⟩] [⟨[4, 4], .f32⟩, ⟨[4, 4], .f32⟩],
    .setRule ⟨0⟩ (some forkRule),
    .setSharding ⟨2⟩ (closedMatrix [.whole "y"] []).sharding,
    .append (.elementwise .add) [⟨2⟩, ⟨2⟩] [⟨[4, 4], .f32⟩],
    .setSharding ⟨4⟩ (closedMatrix [] [.whole "x"]).sharding,
    .append .exit [⟨2⟩, ⟨2⟩, ⟨3⟩, ⟨4⟩] []]

/-! ## The whole body -/

/-- **What the body is after a run.** If the run goes through, it has visited every operation of the
body once and in order, and the body is a row of blocks, one for each visit: the reshards that the
visit decided on for operands, the operation, and those for results, each by increasing position.
The body has grown by as many operations as the tally counts reshards, and the visited operations
are as many as the body had and as the six outcomes together count. The function need not verify
for this. -/
theorem reshard_layout (name : String) (history : List Edit) (meshes : SymbolTable)
    (noError : ((ofHistory name history).reshard meshes).error = none) :
    let function := ofHistory name history
    let run := function.reshard meshes
    run.visits.map Visit.operation = function.body ∧
      (∃ blocks, run.function.body = blocks.flatMap Block.operations ∧
        List.Forall₂ (run.function.Surrounds function.operations.length) run.visits blocks) ∧
      run.function.body.length = function.body.length + run.tally.reshards ∧
      run.tally.visited = function.body.length ∧
      run.tally.visited = run.tally.exits + run.tally.withoutRule + run.tally.withoutMesh +
        run.tally.overflowing + run.tally.consistent + run.tally.revised := by
  intro function run
  obtain ⟨visits, blocks, body, surrounded⟩ := reshard_blocks (wellFormed_ofHistory ..) noError
  obtain ⟨visited, outcomes⟩ := run.visited_tally
  have visitCount : run.visits.length = function.body.length :=
    (List.length_map _).symm.trans (congrArg List.length visits)
  refine ⟨visits, ⟨blocks, body, surrounded⟩, ?_, visited.trans visitCount, outcomes⟩
  rw [body, length_blocks run surrounded, visitCount]

/-- Of the eight reshards one stands in front of the fork and two behind it, three around the sum,
and two in front of the return. -/
theorem fork_laid_out :
    let run := (ofHistory "main" forkHistory).reshard squareMeshes
    run.tally.reshards = 8 ∧ run.function.body.length = 11 ∧
      ∃ blocks, blocks.flatMap Block.operations =
          [⟨3⟩, ⟨0⟩, ⟨4⟩, ⟨5⟩, ⟨6⟩, ⟨7⟩, ⟨1⟩, ⟨8⟩, ⟨9⟩, ⟨10⟩, ⟨2⟩] ∧
        List.Forall₂ (run.function.Surrounds 3) run.visits blocks := by
  intro run
  obtain ⟨-, ⟨blocks, body, surrounded⟩, grown, -⟩ :=
    reshard_layout "main" forkHistory squareMeshes (by decide +kernel)
  have counted : run.tally.reshards = 8 := by decide +kernel
  have bodyBefore : (ofHistory "main" forkHistory).body.length = 3 := by decide +kernel
  refine ⟨counted, ?_, blocks, body.symm.trans (by decide +kernel), surrounded⟩
  rw [grown, counted, bodyBefore]

end Function

end MeshSharding
