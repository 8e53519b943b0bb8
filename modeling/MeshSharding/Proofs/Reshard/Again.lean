import MeshSharding.Proofs.Projection.ReadBack
import MeshSharding.Proofs.Reshard.Decides

/-!
# Reading an operation again

After a revision the tensors of an operation carry the agreed axes, dimension by
dimension. This does not mean that they are read with these axes: a dimension
lists the axes of its factors without saying where those of one factor end. They
are read so, without overflow, exactly when every factor that stands in a
dimension before one with axes is used up by its own
(`shardedAlong_again_iff`).

The agreed axes of a factor begin axes that some tensor had for it, so the factor
takes all of them when they are offered to it (`takenWhole_agreed`). A tensor
that the revision does not change has the agreed axes already.
-/

set_option autoImplicit false

namespace MeshSharding

open AxisSequence (Suits Merged joined)

variable {mesh : Mesh} {name : String}

/-- The dimensions of a tensor that suits the mesh suit it and are merged. -/
theorem Tensor.DimsSuit.dims {tensor : Tensor} (suits : tensor.DimsSuit mesh) :
    ∀ dim ∈ (tensor.sharding.map TensorSharding.dims).getD [],
      Suits mesh dim.axes ∧ Merged dim.axes := by
  intro dim member
  refine ⟨(AxisSequence.suits_flatMap_iff.mp suits.suits).1 dim member, ?_⟩
  cases present : tensor.sharding with
  | none =>
    rw [present] at member
    exact absurd member List.not_mem_nil
  | some sharding =>
    rw [present] at member
    exact (suits sharding present).merged dim member

/-- The axes on which a factor is agreed, given those of the factors from the first on. -/
def agreedFor (agreed : List AxisSequence) (factor : Nat) : AxisSequence :=
  agreed[factor]?.getD []

theorem Projection.agreedFor_eq {rule : FactorRule} {projection : Projection} {factor : Nat}
    (below : factor < rule.sizes.length) :
    agreedFor (projection.agreedAxes mesh rule.factorCount) factor =
      lastCommitted (projection.commitments mesh rule.factorCount) factor :=
  congrArg (·.getD []) (Projection.agreedAxes_getElem? below)

/-- In every dimension a factor that stands before one with axes is used up by its own axes. -/
def FactorRule.FilledBy (mesh : Mesh) (axesFor : Nat → AxisSequence) (rule : FactorRule) : Prop :=
  ∀ mapping ∈ rule.operands ++ rule.results, ∀ dim ∈ mapping,
    dim.FilledBy mesh rule.sizes axesFor

instance (mesh : Mesh) (axesFor : Nat → AxisSequence) (rule : FactorRule) :
    Decidable (rule.FilledBy mesh axesFor) :=
  inferInstanceAs (Decidable (∀ mapping ∈ rule.operands ++ rule.results, ∀ dim ∈ mapping,
    dim.FilledBy mesh rule.sizes axesFor))

/-- In a simple rule no factor stands before another. -/
theorem FactorRule.IsSimple.filledBy {rule : FactorRule} (simple : rule.IsSimple)
    (axesFor : Nat → AxisSequence) : rule.FilledBy mesh axesFor :=
  fun mapping isMapping dim isDim =>
    DimMapping.filledBy_of_length_le (simple.2 mapping isMapping dim isDim)

/-- The factors of all tensors have the given axes, and none has axes beyond it. -/
def Projection.ShardedAlong (axesFor : Nat → AxisSequence) (projection : Projection) : Prop :=
  ∀ tensor ∈ projection.tensors, tensor.ShardedAlong axesFor

instance (axesFor : Nat → AxisSequence) (projection : Projection) :
    Decidable (projection.ShardedAlong axesFor) :=
  inferInstanceAs (Decidable (∀ tensor ∈ projection.tensors, tensor.ShardedAlong axesFor))

/-- Where all tensors have the same axes, they agree. -/
theorem Projection.ShardedAlong.isConsistent {axesFor : Nat → AxisSequence}
    {projection : Projection} (along : projection.ShardedAlong axesFor) :
    projection.IsConsistent := by
  intro first isFirst second isSecond entry isEntry other isOther sameFactor
  rw [(along first isFirst entry isEntry).1, (along second isSecond other isOther).1, sameFactor]

theorem agreedFor_of_mem {rule : FactorRule} {projection : Projection} {mapping : TensorMapping}
    (isMapping : mapping ∈ rule.operands ++ rule.results) :
    ∀ factor ∈ mapping.factors, (projection.agreedAxes mesh rule.factorCount)[factor]? =
      some (agreedFor (projection.agreedAxes mesh rule.factorCount) factor) := by
  intro factor member
  rw [Projection.agreedFor_eq (rule.mapped_lt mapping isMapping factor member)]
  exact agreedAxes_of_mem isMapping factor member

/-- The changes bring exactly those tensors that the agreement changes to the agreed axes, each along
its mapping. -/
structure Projection.Retargets (mesh : Mesh) (name : String) (rule : FactorRule)
    (projection : Projection) (mappings : List TensorMapping) (tensors : List Tensor)
    (own : List TensorProjection) (changes : List (Nat × TensorSharding)) : Prop where
  inRule : ∀ mapping ∈ mappings, mapping ∈ rule.operands ++ rule.results
  reads : ReadAs mesh rule.sizes mappings tensors own
  along : ∀ (index : Nat) (mapping : TensorMapping) (tensor : TensorProjection),
    mappings[index]? = some mapping → own[index]? = some tensor →
    tensor.Along mesh rule.sizes.length mapping
  distinct : (changes.map Prod.fst).Nodup
  change_iff : ∀ {index : Nat} {target : TensorSharding}, (index, target) ∈ changes ↔
    ∃ tensor mapping, own[index]? = some tensor ∧ mappings[index]? = some mapping ∧
      tensor.ChangedBy (assignmentsOf (projection.agreedAxes mesh rule.factorCount)) ∧
      target = projection.retargeted mesh name rule mapping tensor

/-- What is changed is a tensor that has been read along a mapping, and it has the new sharding
afterwards. -/
theorem exists_of_retargets {rule : FactorRule} {projection : Projection}
    {mappings : List TensorMapping} {tensors : List Tensor} {own : List TensorProjection}
    {changes : List (Nat × TensorSharding)}
    (retargets : projection.Retargets mesh name rule mappings tensors own changes)
    {index : Nat} {target : TensorSharding} (isChange : (index, target) ∈ changes) :
    ∃ mapping tensor read, mappings[index]? = some mapping ∧ tensors[index]? = some tensor ∧
      own[index]? = some read ∧
      TensorProjection.ofSharding mesh rule.sizes mapping tensor.sharding = .ok read ∧
      target = projection.retargeted mesh name rule mapping read ∧
      (retargeted tensors changes)[index]? = some (tensor.withSharding target) := by
  obtain ⟨read, mapping, isRead, isMapping, -, isTarget⟩ := retargets.change_iff.mp isChange
  obtain ⟨alsoMapping, tensor, sameMapping, isTensor, readOk⟩ :=
    retargets.reads.of_projection isRead
  rw [isMapping] at sameMapping
  cases sameMapping
  refine ⟨mapping, tensor, read, isMapping, isTensor, isRead, readOk, isTarget, ?_⟩
  rw [getElem?_retargeted_of_mem retargets.distinct isChange, isTensor]
  rfl

/-- A tensor that the agreement does not change has the agreed axes. -/
theorem shardedAlong_of_unchanged {rule : FactorRule} {projection : Projection}
    {mapping : TensorMapping} {own : TensorProjection}
    (isMapping : mapping ∈ rule.operands ++ rule.results)
    (along : own.Along mesh rule.sizes.length mapping)
    (unchanged : ¬ own.ChangedBy (assignmentsOf (projection.agreedAxes mesh rule.factorCount))) :
    own.ShardedAlong (agreedFor (projection.agreedAxes mesh rule.factorCount)) := by
  rintro ⟨factor, sharding⟩ isEntry
  have found := TensorProjection.mem_entries_iff.mp isEntry
  have isMapped : factor ∈ mapping.factors := by
    rw [← along.isSome_iff, found]
    rfl
  have isAgreed : (projection.agreedAxes mesh rule.factorCount)[factor]? = some _ :=
    agreedFor_of_mem isMapping factor isMapped
  have assigned : (own.assigned (assignmentsOf
      (projection.agreedAxes mesh rule.factorCount))).factor? factor = _ :=
    TensorProjection.factor?_assigned_agreed isAgreed
  rw [TensorProjection.assigned_eq_self unchanged, found] at assigned
  have same : sharding = Assignment.update ⟨factor, _, []⟩ sharding := Option.some.inj assigned
  exact ⟨congrArg FactorSharding.axes same, congrArg FactorSharding.overflow same⟩

section Again

variable {rule : FactorRule} {signature : Signature} {projection : Projection}
  (suits : ∀ tensor ∈ signature.operands ++ signature.results, tensor.DimsSuit mesh)
  (isProjection : Projection.ofSignature mesh rule signature = .ok projection)
include suits isProjection

/-! ## The agreed axes of a factor -/

/-- A factor takes all of the axes on which it is agreed, and they are merged. -/
theorem takenWhole_agreed {factor size : Nat} (isSize : rule.sizes[factor]? = some size) :
    TakenWhole mesh size (agreedFor (projection.agreedAxes mesh rule.factorCount) factor) := by
  rw [Projection.agreedFor_eq (List.getElem?_eq_some_iff.mp isSize).1]
  have begins : lastCommitted (projection.commitments mesh rule.factorCount) factor = [] ∨ _ :=
    Projection.lastCommitted_prefix factor
  rcases begins with unsharded | ⟨own, isOwn, begins⟩
  · rw [unsharded]
    exact takenWhole_nil mesh size
  · cases found : own.factor? factor with
    | none =>
      rw [TensorProjection.axesOf, found] at begins
      rw [List.prefix_nil.mp begins]
      exact takenWhole_nil mesh size
    | some sharding =>
      -- the tensor that brought the axes up has taken them whole
      obtain ⟨mapping, -, tensor, isTensor, isRead⟩ := Projection.read_of_mem isProjection isOwn
      obtain ⟨entries, entriesOk, rfl⟩ := TensorProjection.ofSharding_eq_ok_iff.mp isRead
      obtain ⟨ownSize, isOwnSize, whole⟩ := takenWhole_of_tensorEntries entriesOk
        (suits tensor isTensor).dims (mem_of_filledSlots found)
      rw [isSize] at isOwnSize
      cases isOwnSize
      rw [axesOf_eq found] at begins
      exact whole.of_begins begins

/-! ## Tensors -/

variable (once : rule.UsesFactorsOnce)
include once

/-- The agreed axes of the factors of a tensor suit the mesh together. -/
theorem suits_agreedFor {mapping : TensorMapping}
    (isMapping : mapping ∈ rule.operands ++ rule.results) : Suits mesh
      (mapping.factors.flatMap (agreedFor (projection.agreedAxes mesh rule.factorCount))) := by
  have sameAxes : mapping.factors.flatMap (agreedFor (projection.agreedAxes mesh
      rule.factorCount)) = mapping.factors.flatMap
        (lastCommitted (projection.commitments mesh rule.factorCount)) := by
    apply List.flatMap_congr
    intro factor member
    exact Projection.agreedFor_eq (rule.mapped_lt mapping isMapping factor member)
  rw [sameAxes]
  exact suits_agreed (suits_axesOf suits once isProjection) (once mapping isMapping)

/-- So do those of the factors of one dimension. -/
theorem suits_agreedFor_dim {mapping : TensorMapping} {dim : DimMapping}
    (isMapping : mapping ∈ rule.operands ++ rule.results) (isDim : dim ∈ mapping) :
    Suits mesh (dim.flatMap (agreedFor (projection.agreedAxes mesh rule.factorCount))) := by
  have together := suits_agreedFor suits isProjection once isMapping
  rw [TensorMapping.factors, List.flatten_eq_flatMap, List.flatMap_assoc] at together
  exact (AxisSequence.suits_flatMap_iff.mp together).1 dim isDim

/-- The operands are brought to the agreed axes by a revision. -/
theorem retargets_operands : projection.Retargets mesh name rule rule.operands signature.operands
    projection.operands ((projection.revision mesh name rule signature.results).operands.map
      fun change => (change.slot, change.target)) := by
  obtain ⟨suited, operandsRead, resultsRead⟩ := Projection.ofSignature_eq_ok_iff.mp isProjection
  exact {
    inRule := fun mapping isMapping => List.mem_append_left _ isMapping
    reads := operandsRead
    along := fun index mapping own isMapping isOwn =>
      along_operand suits once isProjection isMapping isOwn
    distinct := operandTargets_nodup
    change_iff := mem_operandTargets_iff suited operandsRead resultsRead }

/-- The results are brought to the agreed axes by a revision. -/
theorem retargets_results : projection.Retargets mesh name rule rule.results signature.results
    projection.results ((projection.revision mesh name rule signature.results).results.map
      fun change => (change.index, change.target)) := by
  obtain ⟨suited, operandsRead, resultsRead⟩ := Projection.ofSignature_eq_ok_iff.mp isProjection
  exact {
    inRule := fun mapping isMapping => List.mem_append_right _ isMapping
    reads := resultsRead
    along := fun index mapping own isMapping isOwn =>
      along_result suits once isProjection isMapping isOwn
    distinct := resultTargets_nodup
    change_iff := mem_resultTargets_iff suited operandsRead resultsRead }

/-- A tensor that has been brought to the agreed axes is read with them if its dimensions are
filled. -/
theorem shardedAlong_of_retargeted {mapping : TensorMapping} {own read : TensorProjection}
    (isMapping : mapping ∈ rule.operands ++ rule.results)
    (along : own.Along mesh rule.sizes.length mapping)
    (filled : ∀ dim ∈ mapping, dim.FilledBy mesh rule.sizes
      (agreedFor (projection.agreedAxes mesh rule.factorCount)))
    (isRead : TensorProjection.ofSharding mesh rule.sizes mapping
      (some (projection.retargeted mesh name rule mapping own)) = .ok read) :
    read.ShardedAlong (agreedFor (projection.agreedAxes mesh rule.factorCount)) := by
  refine TensorProjection.shardedAlong_of_filled isRead ?_
    (fun dim isDim => suits_agreedFor_dim suits isProjection once isMapping isDim)
    (fun factor size isSize => takenWhole_agreed suits isProjection isSize) filled
  intro index dim isDim
  simp only [Option.map_some, Option.getD_some, Projection.retargeted,
    TensorProjection.toSharding, List.getElem?_map, isDim]
  exact axes_dimSharding_assigned (agreedFor_of_mem isMapping)
    (fun factor member => (along.isSome_iff factor).mpr member) (List.mem_of_getElem? isDim)

/-- Tensors that have been brought to the agreed axes, and no others, are read with these axes if
their dimensions are filled. -/
theorem shardedAlong_of_retargets {mappings : List TensorMapping} {tensors : List Tensor}
    {own again : List TensorProjection} {changes : List (Nat × TensorSharding)}
    (retargets : projection.Retargets mesh name rule mappings tensors own changes)
    (filled : rule.FilledBy mesh (agreedFor (projection.agreedAxes mesh rule.factorCount)))
    (readAgain : ReadAs mesh rule.sizes mappings (retargeted tensors changes) again) :
    ∀ read ∈ again,
      read.ShardedAlong (agreedFor (projection.agreedAxes mesh rule.factorCount)) := by
  intro read member
  obtain ⟨index, isRead⟩ := List.mem_iff_getElem?.mp member
  obtain ⟨mapping, tensor, isMapping, isTensor, readOk⟩ := readAgain.of_projection isRead
  have isRule := retargets.inRule mapping (List.mem_of_getElem? isMapping)
  have below : index < own.length := by
    rw [retargets.reads.count, ← retargets.reads.mapping_count]
    exact (List.getElem?_eq_some_iff.mp isMapping).1
  have isOwn : own[index]? = some own[index] := List.getElem?_eq_getElem below
  have along := retargets.along index mapping _ isMapping isOwn
  by_cases changed : own[index].ChangedBy
      (assignmentsOf (projection.agreedAxes mesh rule.factorCount))
  · have isChange := retargets.change_iff.mpr ⟨_, mapping, isOwn, isMapping, changed, rfl⟩
    rw [getElem?_retargeted_of_mem retargets.distinct isChange] at isTensor
    obtain ⟨old, -, rfl⟩ := Option.map_eq_some_iff.mp isTensor
    exact shardedAlong_of_retargeted suits isProjection once isRule along (filled mapping isRule)
      readOk
  · have untouched : index ∉ changes.map Prod.fst := by
      intro touched
      obtain ⟨⟨place, target⟩, isTouched, rfl⟩ := List.mem_map.mp touched
      obtain ⟨other, _, isOther, _, otherChanged, _⟩ := retargets.change_iff.mp isTouched
      rw [isOwn] at isOther
      cases isOther
      exact changed otherChanged
    rw [getElem?_retargeted_of_notMem untouched] at isTensor
    have sameRead := retargets.reads.each index mapping tensor _ isMapping isTensor isOwn
    rw [readOk] at sameRead
    cases sameRead
    exact shardedAlong_of_unchanged isRule along changed

/-! ## The operation -/

/-- **After a revision all tensors are read with the agreed axes, and without overflow, if and only
if in every dimension the factors before one with axes are used up.** -/
theorem shardedAlong_again_iff {again : Projection}
    (isAgain : Projection.ofSignature mesh rule (signature.after
      (.revise (projection.revision mesh name rule signature.results))) = .ok again) :
    again.ShardedAlong (agreedFor (projection.agreedAxes mesh rule.factorCount)) ↔
      rule.FilledBy mesh (agreedFor (projection.agreedAxes mesh rule.factorCount)) := by
  constructor
  · intro along mapping isMapping
    obtain ⟨own, isOwn, tensor, -, isRead⟩ := Projection.read_of_mapping isAgain isMapping
    exact TensorProjection.filled_of_shardedAlong isRead (rule.mapped_lt mapping isMapping)
      (once mapping isMapping) (along own isOwn)
  · intro filled
    obtain ⟨-, operandsAgain, resultsAgain⟩ := Projection.ofSignature_eq_ok_iff.mp isAgain
    rw [Signature.operands_after] at operandsAgain
    rw [Signature.results_after] at resultsAgain
    exact List.forall_mem_append.mpr
      ⟨shardedAlong_of_retargets suits isProjection once
          (retargets_operands suits isProjection once) filled operandsAgain,
        shardedAlong_of_retargets suits isProjection once
          (retargets_results suits isProjection once) filled resultsAgain⟩

end Again

end MeshSharding
