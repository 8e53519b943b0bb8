import MeshSharding.Proofs.Reshard.Consistency
import MeshSharding.Proofs.Reshard.Reach

/-!
# Runs decide locally

What a run does with an operation depends on this operation alone. When an
operation is visited, earlier visits have at most opened some of its operands.
On one mesh this makes no difference to what is changed, so every operation is
dealt with as if it were the only one to be visited, and the order of the visits
does not matter (`reshardFrom_decides_locally`).

With several meshes it would: an opened operand can take the common mesh away
from an operation. What is revised is revised as the operation was at the start
all the same (`revision_at_start`).
-/

set_option autoImplicit false

namespace MeshSharding

/-- If decisions are the same, or both are to leave the operation alone, they change the same. -/
theorem Decision.changes_eq_of_alike {first second : Decision} {reason other : SkipReason}
    (alike : first = second ∨ first = .skip reason ∧ second = .skip other) :
    first.operandChanges = second.operandChanges ∧ first.resultChanges = second.resultChanges := by
  rcases alike with rfl | ⟨rfl, rfl⟩ <;> exact ⟨rfl, rfl⟩

namespace Function

variable {function : Function} {meshes : SymbolTable} {terminator : OperationId}

/-- The shardings of all values name one mesh. -/
def OnMesh (function : Function) (meshName : String) : Prop :=
  ∀ value ∈ function.values, ∀ sharding ∈ value.tensor.sharding, sharding.mesh = meshName

instance (function : Function) (meshName : String) : Decidable (function.OnMesh meshName) :=
  inferInstanceAs (Decidable (∀ value ∈ function.values, ∀ sharding ∈ value.tensor.sharding,
    sharding.mesh = meshName))

theorem OnMesh.tensor {meshName : String} (onMesh : function.OnMesh meshName) (value : ValueId)
    {sharding : TensorSharding} (present : (function.tensor value).sharding = some sharding) :
    sharding.mesh = meshName := by
  unfold Function.tensor at present
  cases found : function.values[value.index]? with
  | none =>
    rw [found] at present
    cases present
  | some known =>
    rw [found] at present
    exact onMesh known (List.mem_of_getElem? found) sharding present

theorem OnMesh.signature {meshName : String} (onMesh : function.OnMesh meshName)
    (operation : OperationId) {sharding : TensorSharding}
    (present : some sharding ∈ (function.signature operation).shardings) :
    sharding.mesh = meshName := by
  rw [Signature.shardings, Function.signature, ← List.map_append, List.map_map] at present
  obtain ⟨value, -, isSharding⟩ := List.mem_map.mp present
  exact onMesh.tensor value isSharding

/-- **What a visit revises is revised as the operation was at the start, and in the end the
operation is what this makes of it, but for opened operands.** -/
theorem revision_at_start (wellFormed : function.WellFormed) {visit : Visit}
    (isVisit : visit ∈ (function.reshard meshes).visits) {revision : Revision}
    (isRevision : visit.decision = .revise revision) :
    visit.operation ∈ function.body ∧
      (function.signature visit.operation).decision meshes function.results =
        .ok (.revise revision) ∧
      ((function.signature visit.operation).after (.revise revision)).OpensTo (fun _ => True)
        ((function.reshard meshes).function.signature visit.operation) := by
  obtain ⟨isOperation, signature, opened, decided, final⟩ := reshard_reaches wellFormed isVisit
  rw [isRevision] at decided final
  exact ⟨isOperation, opened.revise decided, final⟩

/-- **On one mesh a run decides locally, in whatever order the operations are visited.** It goes
through and visits each operation once, and for each of them it reshards the operands and the
results, to the shardings, that are decided for the operation in the function as it was at the
start. In the end the operation is what this decision makes of it, but for operands without a
sharding that have been opened. -/
theorem reshardFrom_decides_locally (name : String) (history : List Edit) (meshes : SymbolTable)
    (meshName : String) (verified : (ofHistory name history).verify meshes = .ok ())
    (onMesh : (ofHistory name history).OnMesh meshName)
    (suited : (ofHistory name history).AttachesOnly fun _ => True)
    (order : List OperationId) (anyOrder : order.Perm (ofHistory name history).body) :
    let function := ofHistory name history
    let run := reshardFrom meshes function order
    run.error = none ∧ run.visits.map Visit.operation = order ∧
      ∀ visit ∈ run.visits, ∃ decided,
        function.decision meshes visit.operation = .ok decided ∧
        visit.decision.operandChanges = decided.operandChanges ∧
        visit.decision.resultChanges = decided.resultChanges ∧
        (visit.decision = decided ∨
          visit.decision = .skip .consistent ∧ decided = .skip .noCommonMesh) ∧
        ((function.signature visit.operation).after decided).OpensTo (· = meshName)
          (run.function.signature visit.operation) := by
  intro function run
  have wellFormed : function.WellFormed := wellFormed_ofHistory name history
  obtain ⟨terminator, verifies⟩ := verify_eq_ok_iff.mp verified
  let names : String → Prop := fun other =>
    other = meshName ∧ ∃ mesh, meshes.mesh? other = some mesh
  -- every operation decides alike on all signatures that a visit can meet
  have alike {operation : OperationId} (member : operation ∈ function.body) {signature : Signature}
      (opened : (function.signature operation).OpensTo names signature) :=
    opened.decides_alike function.results (fun _ allowed => allowed)
      (fun _ present => onMesh.signature operation present)
      (fun _ isRule => (suited.rule (fun _ _ => trivial) member isRule).1)
      (verifies.sound_signature wellFormed operation)
  have inBody {operation : OperationId} (member : operation ∈ order) : operation ∈ function.body :=
    anyOrder.mem_iff.mp member
  obtain ⟨-, visits, ends⟩ := reshardFrom_reaches names meshes wellFormed
    (anyOrder.nodup_iff.mpr wellFormed.body_nodup)
    (fun operation member => (wellFormed.mem_body_iff operation).mp (inBody member))
    (fun operation member signature opened other mesh isName isMesh => by
      refine ⟨?_, mesh, isMesh⟩
      obtain ⟨⟨sharding, present⟩, named⟩ := commonMesh?_eq_some_iff.mp isName
      rw [← named sharding present]
      rcases opened.sharding_of_new present with before | isAllowed
      · exact onMesh.signature operation before
      · exact isAllowed.1)
  have goesThrough : run.error = none ∧ run.visits.map Visit.operation = order := by
    refine ends.resolve_right ?_
    rintro ⟨operation, member, signature, opened, undecided⟩
    obtain ⟨_, decision, -, isDecision, -⟩ := alike (inBody member) opened
    exact undecided decision isDecision
  refine ⟨goesThrough.1, goesThrough.2, ?_⟩
  intro visit isVisit
  obtain ⟨member, signature, opened, isDecision, final⟩ := visits visit isVisit
  obtain ⟨decided, decision, decidedFirst, decidedLater, same⟩ := alike (inBody member) opened
  rw [isDecision] at decidedLater
  cases decidedLater
  obtain ⟨sameOperands, sameResults⟩ := Decision.changes_eq_of_alike same
  refine ⟨decided, decision_eq_ok_iff.mpr decidedFirst, sameOperands, sameResults, same, ?_⟩
  rw [Signature.after, ← sameOperands, ← sameResults]
  exact final.mono fun _ allowed => allowed.1

/-- The return is visited first and the product last, although the product opens the operand of the
shift. -/
theorem product_decided_backwards :
    let function := ofHistory "main" productHistory
    let run := reshardFrom squareMeshes function [⟨2⟩, ⟨1⟩, ⟨0⟩]
    run.tally.reshards = 3 ∧ ∀ visit ∈ run.visits, ∃ decided,
      function.decision squareMeshes visit.operation = .ok decided ∧
        visit.decision.operandChanges = decided.operandChanges ∧
        visit.decision.resultChanges = decided.resultChanges := by
  intro function run
  obtain ⟨-, -, decides⟩ := reshardFrom_decides_locally "main" productHistory squareMeshes "mesh"
    product_verifies (by decide +kernel) (by decide +kernel) [⟨2⟩, ⟨1⟩, ⟨0⟩] (by decide +kernel)
  refine ⟨by decide +kernel, ?_⟩
  intro visit isVisit
  obtain ⟨decided, isDecided, sameOperands, sameResults, -⟩ := decides visit isVisit
  exact ⟨decided, isDecided, sameOperands, sameResults⟩

end Function

end MeshSharding
