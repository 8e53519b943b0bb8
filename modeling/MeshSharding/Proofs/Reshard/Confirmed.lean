import MeshSharding.Proofs.Reshard.Locality
import MeshSharding.Proofs.Rule.Meeting
import MeshSharding.Proofs.Vote.Concord

/-!
# Elections confirm what is consistent

A run holds no election for an operation that is consistent. If it did, nothing
would come of it: the tensors would be left with the axes that they have, and
neither an operand nor a result would be resharded
(`election_confirms_consistent`).

To be consistent is to compare each factor with itself. The election also keeps
the axes of different factors apart, and what it commits for one factor could
stand in the way of another. It does not, because a rule that follows from kind
and shapes lets any two factors meet in a tensor, and the sharding of that
tensor verifies.
-/

set_option autoImplicit false

namespace MeshSharding

open AxisSequence (Suits)

variable {mesh : Mesh}

/-! ## What is read off tensors that suit the mesh -/

namespace TensorProjection

/-- Along a mapping that uses no factor twice, the axes of different factors are apart. -/
theorem keepsApart_of_read {sizes : List Nat} {mapping : TensorMapping} {tensor : Tensor}
    {projection : TensorProjection} (suits : tensor.DimsSuit mesh)
    (isRead : TensorProjection.ofSharding mesh sizes mapping tensor.sharding = .ok projection)
    (below : ∀ factor ∈ mapping.factors, factor < sizes.length)
    (distinct : mapping.factors.Nodup) : projection.KeepsApart := by
  obtain ⟨entries, entriesOk, rfl⟩ := ofSharding_eq_ok_iff.mp isRead
  obtain ⟨again, againOk, entriesSuit, -⟩ := tensorEntries_spec suits.suits below
  rw [entriesOk] at againOk
  cases againOk
  intro first second differ overlap
  have isEntry {factor : Nat} {reference : AxisRef}
      (member : reference ∈ axesOf ⟨filledSlots sizes.length entries,
        (tensor.sharding.map TensorSharding.replicated).getD []⟩ factor) :
      ∃ entry ∈ entries, entry.1 = factor ∧ reference ∈ entry.2.allAxes := by
    obtain ⟨sharding, found, isAxes⟩ := exists_factor?_of_axesOf (List.ne_nil_of_mem member)
    rw [isAxes] at member
    exact ⟨(factor, sharding), (factor?_eq_some_iff entriesOk below distinct).mp found, rfl,
      List.mem_append_left _ member⟩
  obtain ⟨reference, inSecond, own, inFirst, overlaps⟩ := overlap
  obtain ⟨firstEntry, isFirst, rfl, ownMember⟩ := isEntry inFirst
  obtain ⟨secondEntry, isSecond, rfl, referenceMember⟩ := isEntry inSecond
  have ordered : entries.Pairwise fun earlier later => later.1 ≠ earlier.1 →
      ¬ AxisSequence.Overlaps later.2.allAxes earlier.2.allAxes := by
    apply (AxisSequence.suits_flatMap_iff.mp entriesSuit).2.imp
    intro _ _ apart _ overlap
    exact apart overlap.symm
  exact apart_of_pairwise Prod.fst (fun entry => entry.2.allAxes) ordered isFirst isSecond differ
    ⟨reference, referenceMember, own, ownMember, overlaps⟩

/-- A tensor read along a mapping maps only factors below the count. -/
theorem Along.lt_of_factor? {factorCount factor : Nat} {mapping : TensorMapping}
    {tensor : TensorProjection} {sharding : FactorSharding}
    (along : tensor.Along mesh factorCount mapping)
    (found : tensor.factor? factor = some sharding) : factor < factorCount := by
  have slot := Option.join_eq_some_iff.mp found
  rw [← along.count]
  exact (List.getElem?_eq_some_iff.mp slot).1

end TensorProjection

/-! ## Along a rule -/

namespace Projection

section Rule

variable {rule : FactorRule} {signature : Signature} {projection : Projection}
  (suits : ∀ tensor ∈ signature.operands ++ signature.results, tensor.DimsSuit mesh)
  (once : rule.UsesFactorsOnce)
  (isProjection : Projection.ofSignature mesh rule signature = .ok projection)
include suits once isProjection

/-- Every tensor of a projection is read along a mapping of the rule and keeps factors apart. -/
theorem along_of_mem {tensor : TensorProjection} (member : tensor ∈ projection.tensors) :
    ∃ mapping, tensor.Along mesh rule.factorCount mapping ∧ tensor.KeepsApart := by
  obtain ⟨mapping, isMapping, source, isSource, isRead⟩ := read_of_mem isProjection member
  have below := rule.mapped_lt mapping isMapping
  exact ⟨mapping, (suits source isSource).along isRead below (once mapping isMapping),
    TensorProjection.keepsApart_of_read (suits source isSource) isRead below
      (once mapping isMapping)⟩

theorem factorsBelow_of_read : projection.FactorsBelow rule.factorCount := by
  intro tensor isTensor entry isEntry
  obtain ⟨mapping, along, -⟩ := along_of_mem suits once isProjection isTensor
  exact along.lt_of_factor? (TensorProjection.mem_entries_iff.mp isEntry)

theorem hasShards_of_read : projection.HasShards := by
  intro tensor isTensor entry isEntry reference isReference
  obtain ⟨mapping, along, -⟩ := along_of_mem suits once isProjection isTensor
  have entrySuits := along.suits entry.1 entry.2 (TensorProjection.mem_entries_iff.mp isEntry)
  exact (entrySuits.fits reference (List.mem_append_left _ isReference)).hasShards

/-- Factors that meet in the rule meet in the projection. -/
theorem factorsMeet_of_read (meet : rule.FactorsMeet) :
    projection.FactorsMeet rule.factorCount := by
  intro first firstBelow second secondBelow
  obtain ⟨mapping, isMapping, hasFirst, hasSecond⟩ := meet first firstBelow second secondBelow
  obtain ⟨tensor, isTensor, source, isSource, isRead⟩ := read_of_mapping isProjection isMapping
  have along := (suits source isSource).along isRead (rule.mapped_lt mapping isMapping)
    (once mapping isMapping)
  exact ⟨tensor, isTensor, (along.isSome_iff first).mpr hasFirst,
    (along.isSome_iff second).mpr hasSecond⟩

/-- The tensors of a projection keep factors apart. -/
theorem keepsApart_of_read : ∀ tensor ∈ projection.tensors, tensor.KeepsApart := by
  intro tensor isTensor
  obtain ⟨-, -, keepsApart⟩ := along_of_mem suits once isProjection isTensor
  exact keepsApart

/-- An election among tensors that agree leaves every factor with the axes that it has. -/
theorem agreedAxes_of_isConsistent (meet : rule.FactorsMeet)
    (consistent : projection.IsConsistent) {factor : Nat} {axes : AxisSequence}
    (isAgreed : (projection.agreedAxes mesh rule.factorCount)[factor]? = some axes) :
    projection.AgreesOn factor axes := by
  have isFactor : factor < rule.factorCount := by
    have below := (List.getElem?_eq_some_iff.mp isAgreed).1
    rwa [agreedAxes, List.length_map, List.length_range] at below
  rw [agreedAxes_getElem? isFactor] at isAgreed
  cases isAgreed
  exact agreesOn_lastCommitted consistent (keepsApart_of_read suits once isProjection)
    (factorsMeet_of_read suits once isProjection meet)
    (factorsBelow_of_read suits once isProjection) isFactor

end Rule

variable {projection : Projection}

/-- Axes on which all tensors agree change none of them, unless some factor overflows. -/
theorem changesOfAll_of_agreesOn {agreed : List AxisSequence} (within : ¬ projection.Overflows)
    (agrees : ∀ factor axes, agreed[factor]? = some axes → projection.AgreesOn factor axes) :
    projection.changesOfAll (.unchanged projection.operands.length projection.results.length)
        (assignmentsOf agreed) =
      .unchanged projection.operands.length projection.results.length := by
  have same : ∀ tensor ∈ projection.tensors, ¬ tensor.ChangedBy (assignmentsOf agreed) := by
    intro tensor isTensor changed
    obtain ⟨assignment, isAssignment, changes⟩ := TensorProjection.changedBy_iff.mp changed
    obtain ⟨isAgreed, isEmpty⟩ := mem_assignmentsOf_iff.mp isAssignment
    obtain ⟨sharding, found, otherAxes | otherOverflow⟩ :=
      TensorProjection.changesOne_iff.mp changes
    · obtain ⟨-, sameAxes⟩ := agrees assignment.factor assignment.axes isAgreed
      exact otherAxes (sameAxes tensor isTensor sharding found)
    · rw [isEmpty] at otherOverflow
      exact within ⟨tensor, isTensor, _, TensorProjection.mem_entries_iff.mpr found, otherOverflow⟩
  have unflagged {tensors : List TensorProjection} (all : ∀ tensor ∈ tensors,
      tensor ∈ projection.tensors) : (tensors.map fun tensor =>
        decide (tensor.ChangedBy (assignmentsOf agreed))) =
      List.replicate tensors.length false :=
    List.map_eq_replicate_iff.mpr fun tensor member =>
      decide_eq_false (same tensor (all tensor member))
  rw [changesOfAll_unchanged _ rfl rfl, unflagged fun _ => List.mem_append_left _,
    unflagged fun _ => List.mem_append_right _]
  rfl

end Projection

namespace Function

/-- **An election confirms what is consistent.** In a function that verifies, let an operation have
a rule that follows from its kind and shapes, and a common mesh. It has a projection, and if this
neither overflows nor is inconsistent, then an election among its tensors goes through, leaves every
factor with the axes along which all tensors shard it, and changes no operand and no result. -/
theorem election_confirms_consistent (name : String) (history : List Edit) (meshes : SymbolTable)
    (verified : (ofHistory name history).verify meshes = .ok ()) (operation : OperationId)
    (rule : FactorRule) (meshName : String)
    (unattached : ((ofHistory name history).operation operation).attached = none)
    (once : ((ofHistory name history).operation operation).kind.ListsOnce)
    (isRule : ((ofHistory name history).signature operation).rule? = some rule)
    (isName : ((ofHistory name history).signature operation).mesh? = some meshName) :
    ∃ mesh projection, meshes.mesh? meshName = some mesh ∧
      Projection.ofSignature mesh rule ((ofHistory name history).signature operation) =
        .ok projection ∧
      (¬ projection.Overflows → projection.IsConsistent →
        projection.Electable mesh rule.factorCount ∧
        (projection.agreedAxes mesh rule.factorCount).length = rule.factorCount ∧
        (∀ factor axes, (projection.agreedAxes mesh rule.factorCount)[factor]? = some axes →
          projection.AgreesOn factor axes) ∧
        projection.changesOfAll (.unchanged rule.operands.length rule.results.length)
            (assignmentsOf (projection.agreedAxes mesh rule.factorCount)) =
          .unchanged rule.operands.length rule.results.length) := by
  have wellFormed := wellFormed_ofHistory name history
  obtain ⟨terminator, verifies⟩ := verify_eq_ok_iff.mp verified
  have synthesized : FactorRule.ofKind? ((ofHistory name history).signature operation).kind
      (((ofHistory name history).signature operation).operands.map fun tensor => tensor.type.shape)
      (((ofHistory name history).signature operation).results.map fun tensor =>
        tensor.type.shape) = some rule := by
    rwa [Signature.rule?, show ((ofHistory name history).signature operation).attached = none from
      unattached] at isRule
  have meet : rule.FactorsMeet := FactorRule.ofKind?_factorsMeet once synthesized
  obtain ⟨simple, accepted⟩ := FactorRule.ofKind?_isSimple synthesized
  rw [List.map_map, List.map_map] at accepted
  have suited : ((ofHistory name history).signature operation).SuitedBy rule := accepted
  obtain ⟨mesh, isMesh, suits⟩ := exists_mesh isName (verifies.sound_signature wellFormed operation)
  obtain ⟨projection, isProjection⟩ := exists_projection suits suited
  refine ⟨mesh, projection, isMesh, isProjection, ?_⟩
  intro within consistent
  have agrees : ∀ factor axes, (projection.agreedAxes mesh rule.factorCount)[factor]? = some axes →
      projection.AgreesOn factor axes :=
    fun _ _ => Projection.agreedAxes_of_isConsistent suits simple.1 isProjection meet consistent
  have electable : projection.Electable mesh rule.factorCount :=
    Projection.electable_of_isConsistent
      (Projection.hasShards_of_read suits simple.1 isProjection) consistent
      (Projection.keepsApart_of_read suits simple.1 isProjection)
      (Projection.factorsMeet_of_read suits simple.1 isProjection meet)
      (Projection.factorsBelow_of_read suits simple.1 isProjection)
  refine ⟨electable, ?_, agrees, ?_⟩
  · rw [Projection.agreedAxes, List.length_map, List.length_range]
  · obtain ⟨-, operandsRead, resultsRead⟩ := Projection.ofSignature_eq_ok_iff.mp isProjection
    rw [operandsRead.mapping_count, ← operandsRead.count, resultsRead.mapping_count,
      ← resultsRead.count]
    exact Projection.changesOfAll_of_agreesOn within agrees

/-- A batched product, with the batch along one axis and the sum along the other. -/
def batchedHistory : List Edit :=
  [.addArgument ⟨⟨[4, 2, 4], .f32⟩, some ⟨"mesh", [⟨[.whole "x"], true⟩, ⟨[], false⟩,
      ⟨[.whole "y"], true⟩], []⟩⟩,
    .addArgument ⟨⟨[4, 4, 2], .f32⟩, some ⟨"mesh", [⟨[.whole "x"], true⟩, ⟨[.whole "y"], true⟩,
      ⟨[], false⟩], []⟩⟩,
    .addResult ⟨⟨[4, 2, 2], .f32⟩, none⟩,
    .append (.dotGeneral ⟨[0], [0], [2], [1]⟩) [⟨0⟩, ⟨1⟩] [⟨[4, 2, 2], .f32⟩],
    .setSharding ⟨2⟩ (some ⟨"mesh", [⟨[.whole "x"], true⟩, ⟨[], false⟩, ⟨[], false⟩], []⟩),
    .append .exit [⟨2⟩] []]

theorem batched_confirmed :
    ∃ rule projection,
      Projection.ofSignature squareMesh rule ((ofHistory "main" batchedHistory).signature ⟨0⟩) =
        .ok projection ∧
      projection.AgreesOn 3 [.whole "y"] ∧
      projection.changesOfAll (.unchanged 2 1)
        (assignmentsOf (projection.agreedAxes squareMesh rule.factorCount)) = .unchanged 2 1 := by
  have isSome : ((ofHistory "main" batchedHistory).signature ⟨0⟩).rule?.isSome := by
    decide +kernel
  obtain ⟨rule, isRule⟩ := Option.isSome_iff_exists.mp isSome
  obtain ⟨mesh, projection, isMesh, isProjection, confirms⟩ := election_confirms_consistent "main"
    batchedHistory squareMeshes (by decide +kernel) ⟨0⟩ rule "mesh" (by decide +kernel)
    (by decide +kernel) isRule (by decide +kernel)
  have sameMesh : squareMeshes.mesh? "mesh" = some squareMesh := by decide +kernel
  rw [sameMesh] at isMesh
  cases isMesh
  have facts : ∀ own ∈ ((ofHistory "main" batchedHistory).signature ⟨0⟩).rule?,
      own.operands.length = 2 ∧ own.results.length = 1 ∧
      ∀ other ∈ (Projection.ofSignature squareMesh own
          ((ofHistory "main" batchedHistory).signature ⟨0⟩)).toOption,
        ¬ other.Overflows ∧ other.IsConsistent ∧
          (other.agreedAxes squareMesh own.factorCount)[3]? = some [.whole "y"] := by
    decide +kernel
  obtain ⟨operandCount, resultCount, closed⟩ := facts rule isRule
  obtain ⟨within, consistent, isAgreed⟩ := closed projection (by rw [isProjection]; rfl)
  obtain ⟨-, -, agrees, unchanged⟩ := confirms within consistent
  rw [operandCount, resultCount] at unchanged
  exact ⟨rule, projection, isProjection, agrees 3 _ isAgreed, unchanged⟩

end Function

end MeshSharding
