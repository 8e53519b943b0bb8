import MeshSharding.Program.Module
import MeshSharding.Projection.Factors
import MeshSharding.Vote.Election

/-!
# What to do with an operation

An operation can be computed on the devices of a mesh if each of its factors is
sharded alike in all its tensors. Where that is not so, the tensors agree on
axes for every factor by election; the operands that change are resharded before
the operation, and the results that change are resharded after it, back to the
sharding they had. The operands of a return are resharded to the declared
shardings of the function's results.

The decision is a function of the signature of the operation alone, given the
declared meshes and results. It changes nothing; carrying it out is a matter of
its own.
-/

set_option autoImplicit false

namespace MeshSharding

/-- Why an operation is left as it is. -/
inductive SkipReason where
  /-- The operation has no rule. -/
  | noRule
  /-- The tensors have no shardings, or shardings on several meshes. -/
  | noCommonMesh
  /-- Some factor has axes beyond it. -/
  | overflow
  /-- Every factor is sharded alike everywhere. -/
  | consistent
  deriving DecidableEq

/-- A new sharding for an operand, in front of the operation. -/
structure OperandChange where
  slot : Nat
  target : TensorSharding
  deriving DecidableEq

/-- A new sharding for a result, and the one it has again after the operation. -/
structure ResultChange where
  index : Nat
  target : TensorSharding
  restored : TensorSharding
  deriving DecidableEq

/-- The outcome of an election and the changes of operands and results that follow from it. -/
structure Revision where
  commitments : List FactorAxes
  agreed : List AxisSequence
  operands : List OperandChange
  results : List ResultChange
  deriving DecidableEq

/-- What to do with an operation. -/
inductive Decision where
  /-- The operands of a return are resharded. -/
  | exit (operands : List OperandChange)
  | skip (reason : SkipReason)
  /-- The tensors are brought to the axes on which they agree. -/
  | revise (revision : Revision)
  deriving DecidableEq

/-- Why there is no decision. -/
inductive DecisionError where
  /-- The mesh of the shardings is not declared. -/
  | unknownMesh (mesh : String)
  /-- The operation has no projection along its rule. -/
  | projection (cause : ProjectionError)
  deriving DecidableEq

/-! ## Returns -/

/-- The sharding that a returned value has to be brought to, if it has to change. A value and a
result that are both fully replicated are taken as they are. -/
def exitTarget? (declared current : Option TensorSharding) : Option TensorSharding :=
  if TensorSharding.IsFullyReplicated current ∧ TensorSharding.IsFullyReplicated declared then none
  else if declared = current then none
  else
    match declared with
    | some target => some target
    | none => current.map TensorSharding.fullyReplicatedLike

/-- The changes of returned values from the given position on. -/
def exitChanges (declared : List Tensor) (returned : List Tensor) : List OperandChange :=
  returned.zipIdx.filterMap fun operand =>
    (exitTarget? (declared[operand.2]?.bind Tensor.sharding) operand.1.sharding).map
      (OperandChange.mk operand.2)

/-! ## Operations with a rule -/

/-- Axes for every factor from the first on, without overflow. -/
def assignmentsOf (agreed : List AxisSequence) : List Assignment :=
  agreed.zipIdx.map fun axes => ⟨axes.2, axes.1, []⟩

/-- The shardings of those operands of a projection that have changed. -/
def operandChanges (mesh : Mesh) (name : String) (rule : FactorRule) (changed : List Nat)
    (projection : Projection) : List OperandChange :=
  changed.filterMap fun slot => do
    let tensor ← projection.operands[slot]?
    let mapping ← rule.operands[slot]?
    return ⟨slot, tensor.toSharding mesh name mapping⟩

/-- The shardings of those results of a projection that have changed, with the shardings of the
results as they are. A result without a sharding counts as fully open. -/
def resultChanges (mesh : Mesh) (name : String) (rule : FactorRule) (results : List Tensor)
    (changed : List Nat) (projection : Projection) : List ResultChange :=
  changed.filterMap fun index => do
    let result ← results[index]?
    let tensor ← projection.results[index]?
    let mapping ← rule.results[index]?
    return ⟨index, tensor.toSharding mesh name mapping,
      result.sharding.getD (.fullyOpen name result.rank)⟩

/-- The changes that an election among the tensors of a projection brings. -/
def Projection.revision (mesh : Mesh) (name : String) (rule : FactorRule) (results : List Tensor)
    (projection : Projection) : Revision :=
  let agreed := projection.agreedAxes mesh rule.factorCount
  let assignments := assignmentsOf agreed
  let changes := projection.changesOfAll
    (.unchanged rule.operands.length rule.results.length) assignments
  let assigned := projection.assignAll assignments
  { commitments := projection.commitments mesh rule.factorCount
    agreed
    operands := operandChanges mesh name rule (ChangeSet.positions changes.operands) assigned
    results := resultChanges mesh name rule results (ChangeSet.positions changes.results) assigned }

/-- What to do with an operation of which the projection is known. -/
def Projection.decision (mesh : Mesh) (name : String) (rule : FactorRule) (results : List Tensor)
    (projection : Projection) : Decision :=
  if projection.Overflows then .skip .overflow
  else if projection.IsConsistent then .skip .consistent
  else .revise (projection.revision mesh name rule results)

/-- What to do with an operation, given the declared meshes and the declared results of the
function. -/
def Signature.decision (meshes : SymbolTable) (declared : List Tensor) (signature : Signature) :
    Except DecisionError Decision :=
  if signature.kind = .exit then .ok (.exit (exitChanges declared signature.operands))
  else
    match signature.rule? with
    | none => .ok (.skip .noRule)
    | some rule =>
      match signature.mesh? with
      | none => .ok (.skip .noCommonMesh)
      | some name =>
        match meshes.mesh? name with
        | none => .error (.unknownMesh name)
        | some mesh =>
          match Projection.ofSignature mesh rule signature with
          | .error cause => .error (.projection cause)
          | .ok projection => .ok (projection.decision mesh name rule signature.results)

end MeshSharding
