import MeshSharding.Proofs.Projection.Shares
import MeshSharding.Proofs.Rule.Regular

/-!
# Projecting an operation

An operation has a projection exactly when the rule suits its ranks and each of
its tensors can be read along its mapping (`ofSignature_eq_ok_iff`). The ranks
are all that a rule asks of an operation (`Signature.SuitedBy`); whether a tensor
can be read depends on its sharding and its mapping.
-/

set_option autoImplicit false

namespace MeshSharding

variable {mesh : Mesh} {sizes : List Nat} {mappings : List TensorMapping} {tensors : List Tensor}
  {projections : List TensorProjection}

/-- The projections are what the tensors are read as along the mappings, one by one. -/
structure ReadAs (mesh : Mesh) (sizes : List Nat) (mappings : List TensorMapping)
    (tensors : List Tensor) (projections : List TensorProjection) : Prop where
  mapping_count : mappings.length = tensors.length
  count : projections.length = tensors.length
  each : ∀ (index : Nat) (mapping : TensorMapping) (tensor : Tensor)
    (projection : TensorProjection), mappings[index]? = some mapping →
      tensors[index]? = some tensor → projections[index]? = some projection →
      TensorProjection.ofSharding mesh sizes mapping tensor.sharding = .ok projection

theorem readAs_cons_iff {mapping : TensorMapping} {tensor : Tensor}
    {projection : TensorProjection} :
    ReadAs mesh sizes (mapping :: mappings) (tensor :: tensors) (projection :: projections) ↔
      TensorProjection.ofSharding mesh sizes mapping tensor.sharding = .ok projection ∧
        ReadAs mesh sizes mappings tensors projections := by
  constructor
  · rintro ⟨mappingCount, count, each⟩
    refine ⟨each 0 mapping tensor projection rfl rfl rfl, Nat.succ.inj mappingCount,
      Nat.succ.inj count, fun index => each (index + 1)⟩
  · rintro ⟨first, mappingCount, count, each⟩
    refine ⟨congrArg Nat.succ mappingCount, congrArg Nat.succ count, ?_⟩
    intro index
    cases index with
    | zero =>
      intro _ _ _ isMapping isTensor isProjection
      cases isMapping
      cases isTensor
      cases isProjection
      exact first
    | succ index => exact each index

theorem tensorProjections_eq_ok_iff (sameCount : mappings.length = tensors.length) :
    tensorProjections mesh sizes mappings tensors = .ok projections ↔
      ReadAs mesh sizes mappings tensors projections := by
  induction mappings generalizing tensors projections with
  | nil =>
    rw [List.length_eq_zero_iff.mp sameCount.symm]
    constructor
    · intro isOk
      cases isOk
      exact ⟨rfl, rfl, fun index => by simp⟩
    · rintro ⟨-, count, -⟩
      rw [List.length_eq_zero_iff.mp count]
      rfl
  | cons mapping rest ih =>
    cases tensors with
    | nil => cases sameCount
    | cons tensor others =>
      rw [tensorProjections, bind_eq_ok_iff]
      constructor
      · rintro ⟨first, isFirst, chain⟩
        obtain ⟨later, isLater, isOk⟩ := bind_eq_ok_iff.mp chain
        cases isOk
        exact readAs_cons_iff.mpr ⟨isFirst, (ih (Nat.succ.inj sameCount)).mp isLater⟩
      · intro reads
        cases projections with
        | nil => cases reads.count
        | cons first later =>
          obtain ⟨isFirst, laterReads⟩ := readAs_cons_iff.mp reads
          refine ⟨first, isFirst, ?_⟩
          rw [(ih (Nat.succ.inj sameCount)).mpr laterReads]
          rfl

theorem exists_readAs (sameCount : mappings.length = tensors.length)
    (readable : ∀ (index : Nat) (mapping : TensorMapping) (tensor : Tensor),
      mappings[index]? = some mapping → tensors[index]? = some tensor →
      ∃ projection, TensorProjection.ofSharding mesh sizes mapping tensor.sharding =
        .ok projection) :
    ∃ projections, ReadAs mesh sizes mappings tensors projections := by
  induction mappings generalizing tensors with
  | nil =>
    rw [List.length_eq_zero_iff.mp sameCount.symm]
    exact ⟨[], rfl, rfl, fun index => by simp⟩
  | cons mapping rest ih =>
    cases tensors with
    | nil => cases sameCount
    | cons tensor others =>
      obtain ⟨first, isFirst⟩ := readable 0 mapping tensor rfl rfl
      obtain ⟨later, reads⟩ := ih (Nat.succ.inj sameCount) fun index => readable (index + 1)
      exact ⟨first :: later, readAs_cons_iff.mpr ⟨isFirst, reads⟩⟩

namespace ReadAs

variable (reads : ReadAs mesh sizes mappings tensors projections)
include reads

/-- The tensor and the mapping of a projection. -/
theorem of_projection {index : Nat} {projection : TensorProjection}
    (found : projections[index]? = some projection) :
    ∃ mapping tensor, mappings[index]? = some mapping ∧ tensors[index]? = some tensor ∧
      TensorProjection.ofSharding mesh sizes mapping tensor.sharding = .ok projection := by
  have below : index < projections.length := (List.getElem?_eq_some_iff.mp found).1
  have isTensor := List.getElem?_eq_getElem (show index < tensors.length by
    rw [← reads.count]
    exact below)
  have isMapping := List.getElem?_eq_getElem (show index < mappings.length by
    rw [reads.mapping_count, ← reads.count]
    exact below)
  exact ⟨_, _, isMapping, isTensor, reads.each _ _ _ _ isMapping isTensor found⟩

theorem of_mem {projection : TensorProjection} (member : projection ∈ projections) :
    ∃ mapping ∈ mappings, ∃ tensor ∈ tensors,
      TensorProjection.ofSharding mesh sizes mapping tensor.sharding = .ok projection := by
  obtain ⟨index, found⟩ := List.mem_iff_getElem?.mp member
  obtain ⟨mapping, tensor, isMapping, isTensor, isRead⟩ := reads.of_projection found
  exact ⟨mapping, List.mem_of_getElem? isMapping, tensor, List.mem_of_getElem? isTensor, isRead⟩

/-- Every mapping is that of a projection. -/
theorem of_mapping {mapping : TensorMapping} (member : mapping ∈ mappings) :
    ∃ projection ∈ projections, ∃ tensor ∈ tensors,
      TensorProjection.ofSharding mesh sizes mapping tensor.sharding = .ok projection := by
  obtain ⟨index, isMapping⟩ := List.mem_iff_getElem?.mp member
  have below : index < projections.length := by
    rw [reads.count, ← reads.mapping_count]
    exact (List.getElem?_eq_some_iff.mp isMapping).1
  obtain ⟨_, tensor, alsoMapping, isTensor, isRead⟩ :=
    reads.of_projection (List.getElem?_eq_getElem below)
  rw [isMapping] at alsoMapping
  cases alsoMapping
  exact ⟨_, List.getElem_mem below, tensor, List.mem_of_getElem? isTensor, isRead⟩

end ReadAs

/-! ## Operations -/

namespace Signature

/-- The mappings of the rule have the ranks of the operands and of the results. -/
def SuitedBy (signature : Signature) (rule : FactorRule) : Prop :=
  rule.check (signature.operands.map Tensor.rank) (signature.results.map Tensor.rank) = .ok ()

instance (signature : Signature) (rule : FactorRule) : Decidable (signature.SuitedBy rule) :=
  inferInstanceAs (Decidable (_ = _))

variable {signature : Signature} {rule : FactorRule}

theorem SuitedBy.operand_count (suits : signature.SuitedBy rule) :
    rule.operands.length = signature.operands.length := by
  have ranks := congrArg List.length (FactorRule.check_eq_ok_iff.mp suits).1
  rwa [List.length_map, List.length_map] at ranks

theorem SuitedBy.result_count (suits : signature.SuitedBy rule) :
    rule.results.length = signature.results.length := by
  have ranks := congrArg List.length (FactorRule.check_eq_ok_iff.mp suits).2
  rwa [List.length_map, List.length_map] at ranks

theorem SuitedBy.operand_rank (suits : signature.SuitedBy rule) {index : Nat}
    {mapping : TensorMapping} {tensor : Tensor} (isMapping : rule.operands[index]? = some mapping)
    (isTensor : signature.operands[index]? = some tensor) : mapping.length = tensor.rank := by
  have ranks := congrArg (·[index]?) (FactorRule.check_eq_ok_iff.mp suits).1
  simp only [List.getElem?_map, isMapping, isTensor, Option.map_some] at ranks
  exact Option.some.inj ranks

theorem SuitedBy.result_rank (suits : signature.SuitedBy rule) {index : Nat}
    {mapping : TensorMapping} {tensor : Tensor} (isMapping : rule.results[index]? = some mapping)
    (isTensor : signature.results[index]? = some tensor) : mapping.length = tensor.rank := by
  have ranks := congrArg (·[index]?) (FactorRule.check_eq_ok_iff.mp suits).2
  simp only [List.getElem?_map, isMapping, isTensor, Option.map_some] at ranks
  exact Option.some.inj ranks

end Signature

namespace Projection

variable {signature : Signature} {rule : FactorRule} {projection : Projection}

/-- An operation has a projection when the rule suits it and each of its tensors can be read. -/
theorem ofSignature_eq_ok_iff : Projection.ofSignature mesh rule signature = .ok projection ↔
    signature.SuitedBy rule ∧
      ReadAs mesh rule.sizes rule.operands signature.operands projection.operands ∧
      ReadAs mesh rule.sizes rule.results signature.results projection.results := by
  unfold Projection.ofSignature
  constructor
  · intro isOk
    split at isOk
    · cases isOk
    · rename_i suits
      obtain ⟨operands, operandsRead, chain⟩ := bind_eq_ok_iff.mp isOk
      obtain ⟨results, resultsRead, isProjection⟩ := bind_eq_ok_iff.mp chain
      cases isProjection
      have suited : signature.SuitedBy rule := suits
      exact ⟨suited, (tensorProjections_eq_ok_iff suited.operand_count).mp operandsRead,
        (tensorProjections_eq_ok_iff suited.result_count).mp resultsRead⟩
  · rintro ⟨suits, operandsRead, resultsRead⟩
    have accepted : rule.check (signature.operands.map Tensor.rank)
      (signature.results.map Tensor.rank) = .ok () := suits
    rw [accepted]
    simp only [(tensorProjections_eq_ok_iff suits.operand_count).mpr operandsRead,
      (tensorProjections_eq_ok_iff suits.result_count).mpr resultsRead, ok_bind]
    rfl

section Read

variable (isProjection : Projection.ofSignature mesh rule signature = .ok projection)
include isProjection

/-- Every tensor of a projection is read along a mapping of the rule. -/
theorem read_of_mem {own : TensorProjection} (member : own ∈ projection.tensors) :
    ∃ mapping ∈ rule.operands ++ rule.results, ∃ tensor ∈ signature.operands ++ signature.results,
      TensorProjection.ofSharding mesh rule.sizes mapping tensor.sharding = .ok own := by
  obtain ⟨-, operandsRead, resultsRead⟩ := ofSignature_eq_ok_iff.mp isProjection
  rcases List.mem_append.mp member with isOperand | isResult
  · obtain ⟨mapping, isMapping, tensor, isTensor, isRead⟩ := operandsRead.of_mem isOperand
    exact ⟨mapping, List.mem_append_left _ isMapping, tensor, List.mem_append_left _ isTensor,
      isRead⟩
  · obtain ⟨mapping, isMapping, tensor, isTensor, isRead⟩ := resultsRead.of_mem isResult
    exact ⟨mapping, List.mem_append_right _ isMapping, tensor, List.mem_append_right _ isTensor,
      isRead⟩

/-- Along every mapping of the rule some tensor of the projection is read. -/
theorem read_of_mapping {mapping : TensorMapping}
    (member : mapping ∈ rule.operands ++ rule.results) :
    ∃ own ∈ projection.tensors, ∃ tensor ∈ signature.operands ++ signature.results,
      TensorProjection.ofSharding mesh rule.sizes mapping tensor.sharding = .ok own := by
  obtain ⟨-, operandsRead, resultsRead⟩ := ofSignature_eq_ok_iff.mp isProjection
  rcases List.mem_append.mp member with isOperand | isResult
  · obtain ⟨own, isOwn, tensor, isTensor, isRead⟩ := operandsRead.of_mapping isOperand
    exact ⟨own, List.mem_append_left _ isOwn, tensor, List.mem_append_left _ isTensor, isRead⟩
  · obtain ⟨own, isOwn, tensor, isTensor, isRead⟩ := resultsRead.of_mapping isResult
    exact ⟨own, List.mem_append_right _ isOwn, tensor, List.mem_append_right _ isTensor, isRead⟩

end Read

end Projection

end MeshSharding
