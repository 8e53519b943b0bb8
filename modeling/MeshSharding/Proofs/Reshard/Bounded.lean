import MeshSharding.Proofs.Reshard.Decides
import MeshSharding.Proofs.Vote.Bounded

/-!
# Numbers stay small

The dimensions of a sharding that verifies may have any number of shards: nothing
compares it with the sizes of tensors, and the references of one sharding can
multiply to more than a machine word holds. What is computed for an operation
stays small all the same. Handing axes out to factors gives none of them more
shards than its size, so every candidate of the election has a number of shards
that divides the size of a factor (`Projection.ComputesWithin`).

The sizes of factors are given with an attached rule, or they are sizes of
dimensions (`Function.SizesBelow.sizes_lt`). In a function whose sizes fit into a
machine word all numbers of its projections do, so an election goes through, all
divisions of sizes are exact, and no product along an axis exceeds the axis
(`Function.decides_within_axes`). That holds as well if a tensor uses a factor
twice or has axes beyond its factors.
-/

set_option autoImplicit false

namespace MeshSharding

variable {mesh : Mesh} {sizes : List Nat} {limit : Nat}

/-! ## Elections -/

namespace Projection

/-- In an election among the tensors, and in writing what comes of it, the sizes of candidates are
their numbers of shards, divide the sizes of their factors and are below a limit, every question has
an answer, and nothing is refused if it is done with care. -/
structure ComputesWithin (mesh : Mesh) (sizes : List Nat) (limit : Nat) (projection : Projection) :
    Prop where
  within : projection.WithinWord mesh
  electable : projection.Electable mesh sizes.length
  candidates : ∀ candidate ∈ projection.candidates mesh sizes.length,
    candidate.Divides mesh sizes ∧ candidate.size < limit ∧
      candidate.size = AxisSequence.shards mesh candidate.choice.axes
  rounds : ∀ round ∈ MeshSharding.rounds mesh (projection.candidates mesh sizes.length),
    round.Exact mesh sizes ∧ ∀ candidate ∈ round.pool,
      candidate.size < limit ∧ AxisSequence.shards mesh candidate.choice.axes < limit
  commitments : ∀ first ∈ projection.commitments mesh sizes.length,
    ∀ second ∈ projection.commitments mesh sizes.length,
      AxisSequence.overlapsWithin? mesh first.axes second.axes =
        some (decide (first.Overlaps second))
  written : ∀ tensor ∈ (projection.assignAll
      (assignmentsOf (projection.agreedAxes mesh sizes.length))).tensors, ∀ name mapping,
    tensor.toShardingWithin? mesh name mapping = some (tensor.toSharding mesh name mapping)

variable {projection : Projection}

theorem computesWithin (fits : ∀ tensor ∈ projection.tensors, tensor.Fits mesh)
    (divides : ∀ tensor ∈ projection.tensors, tensor.DividesSizes mesh sizes)
    (below : ∀ size ∈ sizes, size < limit) (isWord : limit ≤ UInt64.size) :
    projection.ComputesWithin mesh sizes limit := by
  have belowWord : ∀ size ∈ sizes, size < UInt64.size :=
    fun size member => Nat.lt_of_lt_of_le (below size member) isWord
  have within := withinWord_of_divides fits divides belowWord
  have all : ∀ candidate ∈ projection.candidates mesh sizes.length,
      candidate.Divides mesh sizes ∧
        candidate.size = AxisSequence.shards mesh candidate.choice.axes :=
    divides_candidates fits divides belowWord
  have exactly := rounds_exact fun candidate member => (all candidate member).1
  refine ⟨within, within.electable (hasShards_of_fits fits), fun candidate member => ?_,
    fun round isRound => ?_, ?_, ?_⟩
  · obtain ⟨candidateDivides, isSize⟩ := all candidate member
    exact ⟨candidateDivides, candidateDivides.size_lt below, isSize⟩
  · refine ⟨exactly round isRound, fun candidate inPool => ?_⟩
    have candidateDivides := (exactly round isRound).pool candidate inPool
    exact ⟨candidateDivides.size_lt below, candidateDivides.choice.shards_lt below⟩
  · have committed : ∀ choice ∈ projection.commitments mesh sizes.length,
        choice.Divides mesh sizes :=
      List.forall_mem_map.mpr fun round isRound => (exactly round isRound).commitment
    exact fun first isFirst second isSecond =>
      AxisSequence.overlapsWithin?_eq_some (committed first isFirst).fits
        (committed second isSecond).fits
  · rw [assignAll_eq, tensors, ← List.map_append]
    refine List.forall_mem_map.mpr fun tensor isTensor name mapping => ?_
    exact ((fits tensor isTensor).assigned
      (fits_agreedAxes fits)).toShardingWithin?_eq_some name mapping

end Projection

/-! ## Functions -/

namespace Function

/-- All sizes of dimensions of values, and all sizes of factors in attached rules, are below a
limit. -/
structure SizesBelow (limit : Nat) (function : Function) : Prop where
  values : ∀ value ∈ function.values, ∀ size ∈ value.tensor.type.shape, size < limit
  attached : ∀ operation ∈ function.operations, ∀ rule ∈ operation.attached,
    ∀ size ∈ rule.sizes, size < limit

instance (limit : Nat) (function : Function) : Decidable (function.SizesBelow limit) :=
  decidable_of_iff
    ((∀ value ∈ function.values, ∀ size ∈ value.tensor.type.shape, size < limit) ∧
      ∀ operation ∈ function.operations, ∀ rule ∈ operation.attached, ∀ size ∈ rule.sizes,
        size < limit)
    ⟨fun ⟨values, attached⟩ => ⟨values, attached⟩, fun ⟨values, attached⟩ => ⟨values, attached⟩⟩

namespace SizesBelow

variable {function : Function} (below : function.SizesBelow limit)
include below

theorem tensor (value : ValueId) : ∀ size ∈ (function.tensor value).type.shape, size < limit := by
  rw [Function.tensor]
  cases found : function.values[value.index]? with
  | none => exact fun _ member => absurd member List.not_mem_nil
  | some own => exact below.values own (List.mem_of_getElem? found)

/-- The sizes of the factors of an operation are below the limit. -/
theorem sizes_lt {operation : OperationId} {rule : FactorRule}
    (isRule : (function.signature operation).rule? = some rule) :
    ∀ size ∈ rule.sizes, size < limit := by
  unfold Signature.rule? at isRule
  split at isRule
  · rename_i attached isAttached
    cases isRule
    have isOwn : (function.operation operation).attached = some rule := isAttached
    rw [Function.operation] at isOwn
    cases found : function.operations[operation.index]? with
    | none =>
      rw [found] at isOwn
      cases isOwn
    | some own =>
      rw [found] at isOwn
      exact below.attached own (List.mem_of_getElem? found) rule isOwn
  · intro size member
    obtain ⟨shape, isShape, inShape⟩ := FactorRule.ofKind?_mem_sizes isRule size member
    obtain ⟨operand, isOperand, rfl⟩ := List.mem_map.mp isShape
    obtain ⟨value, -, rfl⟩ := List.mem_map.mp isOperand
    exact below.tensor value size inShape

end SizesBelow

/-- **What is computed for an operation stays within the axes and within a machine word.** In a
function that verifies and whose sizes fit into a word, let an operation have a rule that suits its
ranks, and a common mesh. Then it has a projection. This is found although every product along an
axis that exceeds the axis is refused; the election goes through; its candidates and those of all
its rounds have sizes that divide the sizes of their factors, by divisions that are exact, and that
fit into a word without a loss; and neither voting nor writing the agreed shardings needs a product
that exceeds its axis. -/
theorem decides_within_axes (name : String) (history : List Edit) (meshes : SymbolTable)
    (verified : (ofHistory name history).verify meshes = .ok ())
    (below : (ofHistory name history).SizesBelow UInt64.size) (operation : OperationId)
    (rule : FactorRule) (meshName : String)
    (isRule : ((ofHistory name history).signature operation).rule? = some rule)
    (suited : ((ofHistory name history).signature operation).SuitedBy rule)
    (isName : ((ofHistory name history).signature operation).mesh? = some meshName) :
    ∃ mesh projection, meshes.mesh? meshName = some mesh ∧
      Projection.ofSignature mesh rule ((ofHistory name history).signature operation) =
        .ok projection ∧
      Projection.ofSignatureWithin? mesh rule ((ofHistory name history).signature operation) =
        some projection ∧
      projection.ComputesWithin mesh rule.sizes UInt64.size := by
  obtain ⟨terminator, verifies⟩ := verify_eq_ok_iff.mp verified
  have sound := verifies.sound_signature (wellFormed_ofHistory name history) operation
  obtain ⟨mesh, isMesh, suits⟩ := exists_mesh isName sound
  obtain ⟨projection, isProjection⟩ := exists_projection suits suited
  refine ⟨mesh, projection, isMesh, isProjection,
    Projection.ofSignatureWithin?_eq_some suits isProjection, ?_⟩
  refine Projection.computesWithin (fun tensor isTensor => ?_) (fun tensor isTensor => ?_)
    (below.sizes_lt isRule) (Nat.le_refl _)
  all_goals
    obtain ⟨mapping, isMapping, source, isSource, isRead⟩ :=
      Projection.read_of_mem isProjection isTensor
  · exact TensorProjection.fits_of_read isRead (suits source isSource)
      (rule.mapped_lt mapping isMapping)
  · exact TensorProjection.dividesSizes_of_read isRead

/-- A mesh of twenty-eight silos of thirteen bins. -/
def siloMesh : Mesh :=
  ⟨[⟨"silo", 28, by decide, by decide, by decide⟩,
    ⟨"bin", 13, by decide, by decide, by decide⟩], by decide⟩

/-- Vectors are blended, each seen as four rows. -/
def blendRule : FactorRule where
  sizes := [4, 91]
  operands := [[[0, 1]], [[0, 1]]]
  results := [[[0, 1]]]
  reduction := []
  isCustom := true
  mapped_lt := by decide
  reduction_lt := by decide

/-- A vector of three hundred and sixty-four elements over the mesh. -/
def grain (axes : AxisSequence) : Tensor :=
  ⟨⟨[364], .f32⟩, some ⟨"mesh", [⟨axes, true⟩], []⟩⟩

/-- Only the first vector is sharded along the bins as well. -/
def blendHistory : List Edit :=
  [.addArgument (grain [.whole "silo", .whole "bin"]),
    .addArgument (grain [.whole "silo"]),
    .addResult ⟨⟨[364], .f32⟩, none⟩,
    .append (.custom "blend") [⟨0⟩, ⟨1⟩] [⟨[364], .f32⟩],
    .setRule ⟨0⟩ (some blendRule),
    .setSharding ⟨2⟩ (grain [.whole "silo"]).sharding,
    .append .exit [⟨2⟩] []]

/-- The silos are cut in two for the rows and what is in them. A number of shards is divided by one
committed earlier before the bins get their turn, and the result has both parts joined again. -/
theorem blend_within_silos :
    ∃ projection,
      Projection.ofSignatureWithin? siloMesh blendRule
          ((ofHistory "main" blendHistory).signature ⟨0⟩) = some projection ∧
        projection.ComputesWithin siloMesh blendRule.sizes UInt64.size ∧
        projection.agreedAxes siloMesh 2 =
          [[.part "silo" 1 4], [.part "silo" 4 7, .whole "bin"]] := by
  obtain ⟨mesh, projection, isMesh, isProjection, isRead, within⟩ :=
    decides_within_axes "main" blendHistory ⟨[("mesh", siloMesh)], by decide⟩ (by decide +kernel)
      (by decide +kernel) ⟨0⟩ blendRule "mesh" (by decide +kernel) (by decide +kernel)
      (by decide +kernel)
  have sameMesh : mesh = siloMesh := by
    have isDeclared : SymbolTable.mesh? ⟨[("mesh", siloMesh)], by decide⟩ "mesh" =
      some siloMesh := by decide +kernel
    exact Option.some.inj (isMesh.symm.trans isDeclared)
  subst sameMesh
  have agreed : ∀ other ∈ (Projection.ofSignature siloMesh blendRule
      ((ofHistory "main" blendHistory).signature ⟨0⟩)).toOption,
      other.agreedAxes siloMesh 2 = [[.part "silo" 1 4], [.part "silo" 4 7, .whole "bin"]] := by
    decide +kernel
  exact ⟨projection, isRead, within, agreed projection (by rw [isProjection]; rfl)⟩

end Function

end MeshSharding
