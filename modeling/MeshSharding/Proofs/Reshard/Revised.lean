import MeshSharding.Proofs.Reshard.Locality

/-!
# Revised operations

An election knows the factors of an operation and the axes that each tensor has
for them. It knows neither which factors share a dimension nor which axes a
tensor lists as replicated, and so two things that one would like of a revised
operation hold under a condition only.

Read again, its tensors have the agreed axes if and only if these use up every
factor that stands in a dimension before one with axes
(`reshard_reads_agreed_iff`). Where a major factor is agreed to have no axes, the
axes of the minor factor are read as those of the major one, and the operation is
revised in the next run again (`columns_read_as_rows`).

A new sharding is accepted if and only if the agreed axes of the factors of its
tensor do not overlap the replicated axes, which the tensor keeps
(`reshard_accepted_iff`). Another tensor may well have brought them up for a
factor (`replicated_along_again`).
-/

set_option autoImplicit false

namespace MeshSharding

open AxisSequence (Suits)

variable {mesh : Mesh} {name : String} {meshes : SymbolTable}

/-! ## Replicated axes -/

/-- The replicated axes of the tensor's sharding, if it has one. -/
def Tensor.replicated (tensor : Tensor) : AxisSequence :=
  (tensor.sharding.map TensorSharding.replicated).getD []

/-- The replicated axes of an accepted tensor suit its mesh. -/
theorem Tensor.suits_replicated {tensor : Tensor} (accepted : tensor.check meshes = .ok ())
    (declared : meshes.mesh? name = some mesh)
    (named : ∀ sharding, tensor.sharding = some sharding → sharding.mesh = name) :
    Suits mesh tensor.replicated := by
  cases present : tensor.sharding with
  | none =>
    rw [replicated, present]
    exact AxisSequence.suits_nil
  | some sharding =>
    obtain ⟨own, isOwn, checked⟩ := Tensor.check_eq_ok_iff.mp accepted sharding present
    rw [named sharding present, declared] at isOwn
    cases isOwn
    rw [replicated, present]
    exact (AxisSequence.suits_append_iff.mp
      (TensorSharding.check_eq_ok_iff.mp checked).2.2).2.1

/-- What a tensor is brought to keeps its replicated axes, and is accepted unless some dimension
overlaps them, which comes from a factor of the tensor whose agreed axes do. -/
structure Tensor.BroughtTo (mesh : Mesh) (agreed : List AxisSequence) (mapping : TensorMapping)
    (tensor : Tensor) (target : TensorSharding) : Prop where
  replicated_eq : target.replicated = tensor.replicated
  check_iff : target.check mesh tensor.rank = .ok () ↔
    ∀ dim ∈ target.dims, ¬ AxisSequence.Overlaps dim.axes target.replicated
  apart_iff : (∀ dim ∈ target.dims, ¬ AxisSequence.Overlaps dim.axes target.replicated) ↔
    ∀ factor ∈ mapping.factors, ¬ AxisSequence.Overlaps (agreedFor agreed factor) target.replicated

/-- A sharding whose dimensions suit the mesh is accepted if these do not overlap the replicated
axes. -/
theorem TensorSharding.DimsSuit.check_iff {sharding : TensorSharding} {rank : Nat}
    (suits : sharding.DimsSuit mesh rank) (replicated : Suits mesh sharding.replicated) :
    sharding.check mesh rank = .ok () ↔
      ∀ dim ∈ sharding.dims, ¬ AxisSequence.Overlaps dim.axes sharding.replicated := by
  rw [TensorSharding.check_eq_ok_iff, TensorSharding.axes, AxisSequence.suits_append_iff,
    AxisSequence.not_overlaps_flatMap_iff]
  exact ⟨fun accepted => accepted.2.2.2.2,
    fun apart => ⟨suits.rank_eq, suits.merged, suits.suits, replicated, apart⟩⟩

section Brought

variable {rule : FactorRule} {signature : Signature} {projection : Projection}
  (suits : ∀ tensor ∈ signature.operands ++ signature.results, tensor.DimsSuit mesh)
  (isProjection : Projection.ofSignature mesh rule signature = .ok projection)
  (once : rule.UsesFactorsOnce)
include suits isProjection once

/-- The dimensions of a tensor that has been brought to the agreed axes overlap what these axes
overlap. -/
theorem overlaps_retargeted_iff {mapping : TensorMapping} {own : TensorProjection}
    (isMapping : mapping ∈ rule.operands ++ rule.results)
    (along : own.Along mesh rule.sizes.length mapping) {axes : AxisSequence}
    (fits : ∀ reference ∈ axes, reference.Fits mesh) :
    (∀ dim ∈ (projection.retargeted mesh name rule mapping own).dims,
        ¬ AxisSequence.Overlaps dim.axes axes) ↔
      ∀ factor ∈ mapping.factors, ¬ AxisSequence.Overlaps
        (agreedFor (projection.agreedAxes mesh rule.factorCount) factor) axes := by
  have byDim : ∀ dim ∈ mapping, ¬ AxisSequence.Overlaps
      (TensorProjection.dimSharding mesh (own.assigned (assignmentsOf
        (projection.agreedAxes mesh rule.factorCount))) dim).axes axes ↔
      ∀ factor ∈ dim, ¬ AxisSequence.Overlaps
        (agreedFor (projection.agreedAxes mesh rule.factorCount) factor) axes := by
    intro dim isDim
    have dimSuits := suits_agreedFor_dim suits isProjection once isMapping isDim
    rw [axes_dimSharding_assigned (agreedFor_of_mem isMapping)
      (fun factor member => (along.isSome_iff factor).mpr member) isDim,
      dimSuits.overlaps_joined_iff fits, AxisSequence.not_overlaps_flatMap_iff]
  rw [Projection.retargeted, TensorProjection.toSharding, List.forall_mem_map,
    TensorMapping.factors]
  constructor
  · intro apart factor member
    obtain ⟨dim, isDim, inDim⟩ := List.mem_flatten.mp member
    exact (byDim dim isDim).mp (apart dim isDim) factor inDim
  · intro apart dim isDim
    exact (byDim dim isDim).mpr fun factor inDim =>
      apart factor (List.mem_flatten.mpr ⟨dim, isDim, inDim⟩)

/-- What is brought to the agreed axes is brought there as it should, but for replicated axes. -/
theorem broughtTo_of_retargets {mappings : List TensorMapping} {tensors : List Tensor}
    {own : List TensorProjection} {changes : List (Nat × TensorSharding)}
    (retargets : projection.Retargets mesh name rule mappings tensors own changes)
    (replicated : ∀ tensor ∈ tensors, Suits mesh tensor.replicated)
    (ranks : ∀ (index : Nat) (mapping : TensorMapping) (tensor : Tensor),
      mappings[index]? = some mapping → tensors[index]? = some tensor →
      mapping.length = tensor.rank)
    {index : Nat} {target : TensorSharding} (isChange : (index, target) ∈ changes) :
    ∃ mapping tensor, mappings[index]? = some mapping ∧ tensors[index]? = some tensor ∧
      (retargeted tensors changes)[index]? = some (tensor.withSharding target) ∧
      tensor.BroughtTo mesh (projection.agreedAxes mesh rule.factorCount) mapping target := by
  obtain ⟨mapping, tensor, read, isMapping, isTensor, isRead, readOk, isTarget, isNew⟩ :=
    exists_of_retargets retargets isChange
  have inRule := retargets.inRule mapping (List.mem_of_getElem? isMapping)
  have along := retargets.along index mapping read isMapping isRead
  have dimsSuit : target.DimsSuit mesh tensor.rank := by
    rw [isTarget, ← ranks index mapping tensor isMapping isTensor]
    exact dimsSuit_retargeted inRule once along (suits_axesOf suits once isProjection)
  have sameReplicated : target.replicated = tensor.replicated := by
    obtain ⟨entries, -, rfl⟩ := TensorProjection.ofSharding_eq_ok_iff.mp readOk
    rw [isTarget, replicated_retargeted]
    rfl
  have replicatedSuits : Suits mesh target.replicated := by
    rw [sameReplicated]
    exact replicated tensor (List.mem_of_getElem? isTensor)
  refine ⟨mapping, tensor, isMapping, isTensor, isNew, sameReplicated,
    dimsSuit.check_iff replicatedSuits, ?_⟩
  rw [isTarget] at replicatedSuits ⊢
  exact overlaps_retargeted_iff suits isProjection once inRule along replicatedSuits.fits

end Brought

/-! ## Reading a revised operation -/

/-- The shape of a tensor as its factors have it. -/
def FactorRule.shapeOf (rule : FactorRule) (mapping : TensorMapping) : Shape :=
  mapping.map fun dim => dim.foldr (fun factor size => rule.sizes[factor]?.getD 1 * size) 1

/-- Every dimension has factors, and their sizes multiply to its own. -/
def Signature.TiledBy (signature : Signature) (rule : FactorRule) : Prop :=
  (∀ mapping ∈ rule.operands ++ rule.results, ∀ dim ∈ mapping, dim ≠ []) ∧
    rule.operands.map rule.shapeOf = signature.operands.map (·.type.shape) ∧
    rule.results.map rule.shapeOf = signature.results.map (·.type.shape)

instance (signature : Signature) (rule : FactorRule) : Decidable (signature.TiledBy rule) :=
  inferInstanceAs (Decidable (_ ∧ _ ∧ _))

namespace Function

/-- **What a run agrees on is read again if and only if major factors are used up.** When an
operation of a function that verifies has been revised, along a rule that uses no factor twice in a
tensor, it has a projection in the function that the run leaves. In this all tensors have the agreed
axes for their factors, and none overflows, exactly if in every dimension the factors before one
with axes are used up by theirs. -/
theorem reshard_reads_agreed_iff (name : String) (history : List Edit) (meshes : SymbolTable)
    (verified : (ofHistory name history).verify meshes = .ok ()) (visit : Visit)
    (isVisit : visit ∈ ((ofHistory name history).reshard meshes).visits) (revision : Revision)
    (isRevision : visit.decision = .revise revision) (rule : FactorRule)
    (isRule : ((ofHistory name history).signature visit.operation).rule? = some rule)
    (once : rule.UsesFactorsOnce) :
    let function := ofHistory name history
    let run := function.reshard meshes
    ∃ meshName mesh again, (function.signature visit.operation).mesh? = some meshName ∧
      meshes.mesh? meshName = some mesh ∧
      Projection.ofSignature mesh rule (run.function.signature visit.operation) = .ok again ∧
      (again.ShardedAlong (agreedFor revision.agreed) ↔
        rule.FilledBy mesh (agreedFor revision.agreed)) := by
  intro function run
  obtain ⟨_, verifies⟩ := verify_eq_ok_iff.mp verified
  have wellFormed : function.WellFormed := wellFormed_ofHistory name history
  have sound := verifies.sound_signature wellFormed visit.operation
  obtain ⟨-, decided, final⟩ := revision_at_start wellFormed isVisit isRevision
  obtain ⟨own, meshName, mesh, projection, -, isOwn, isName, isMesh, suits, isProjection, rfl⟩ :=
    projection_of_revise sound decided
  rw [isRule] at isOwn
  cases isOwn
  obtain ⟨-, again, isAgain⟩ := exists_again sound isMesh isName isProjection
    (keeps_revision suits once isProjection (followsShardings_sound meshes) isMesh sound)
  exact ⟨meshName, mesh, again, isName, isMesh, final.projection_iff.mpr isAgain,
    shardedAlong_again_iff suits isProjection once isAgain⟩

/-- A matrix is flattened; the result has no sharding. -/
def flattenedHistory (rows columns : AxisSequence) : List Edit :=
  [.addArgument (closedMatrix rows columns),
    .addResult ⟨⟨[16], .f32⟩, none⟩,
    .append (.custom "flatten") [⟨0⟩] [⟨[16], .f32⟩],
    .setRule ⟨0⟩ (some flattenRule),
    .append .exit [⟨1⟩] []]

/-- Axes of one factor are committed, and the result gets them. -/
def flattenRevision (choice : FactorAxes) (agreed : List AxisSequence) : Revision where
  commitments := [choice]
  agreed
  operands := []
  results := [⟨0, ⟨"mesh", [⟨choice.axes, false⟩], []⟩, .fullyOpen "mesh" 1⟩]

/-- The four rows are sharded along both axes, which uses them up. -/
theorem rows_read_again :
    let run := (ofHistory "main" (flattenedHistory [.whole "x", .whole "y"] [])).reshard
      squareMeshes
    let revision := flattenRevision ⟨0, [.whole "x", .whole "y"]⟩ [[.whole "x", .whole "y"], []]
    ∃ visit ∈ run.visits, visit.decision = .revise revision ∧ ∃ again,
      Projection.ofSignature squareMesh flattenRule (run.function.signature visit.operation) =
        .ok again ∧ again.ShardedAlong (agreedFor revision.agreed) := by
  intro run revision
  obtain ⟨visit, isVisit, isOperation, isRevision⟩ : ∃ visit ∈ run.visits,
      visit.operation = ⟨0⟩ ∧ visit.decision = .revise revision := by decide +kernel
  have isRule : ((ofHistory "main" (flattenedHistory [.whole "x", .whole "y"] [])).signature
      visit.operation).rule? = some flattenRule := by
    rw [isOperation]
    decide +kernel
  have onMesh : ((ofHistory "main" (flattenedHistory [.whole "x", .whole "y"] [])).signature
      visit.operation).mesh?.bind squareMeshes.mesh? = some squareMesh := by
    rw [isOperation]
    decide +kernel
  obtain ⟨meshName, mesh, again, isName, isMesh, isAgain, read_iff⟩ :=
    reshard_reads_agreed_iff "main" (flattenedHistory [.whole "x", .whole "y"] []) squareMeshes
      (by decide +kernel) visit isVisit revision isRevision flattenRule isRule (by decide +kernel)
  rw [isName, Option.bind_some, isMesh] at onMesh
  cases onMesh
  exact ⟨visit, isVisit, isRevision, again, isAgain, read_iff.mpr (by decide +kernel)⟩

/-- The four rows are not sharded, so they take the axis on which the columns are agreed, although
the rule accounts for all dimensions and uses each factor once. A second run revises the operation
again. -/
theorem columns_read_as_rows :
    let function := ofHistory "main" (flattenedHistory [] [.whole "x"])
    let run := function.reshard squareMeshes
    let revision := flattenRevision ⟨1, [.whole "x"]⟩ [[], [.whole "x"]]
    function.verify squareMeshes = .ok () ∧
      (function.operation ⟨0⟩).attached = some flattenRule ∧
      (function.signature ⟨0⟩).TiledBy flattenRule ∧ flattenRule.UsesFactorsOnce ∧
      (∃ visit ∈ run.visits, visit.operation = ⟨0⟩ ∧ visit.decision = .revise revision) ∧
      (∃ again, Projection.ofSignature squareMesh flattenRule (run.function.signature ⟨0⟩) =
        .ok again ∧ ¬ again.ShardedAlong (agreedFor revision.agreed)) ∧
      (run.function.reshard squareMeshes).tally.revised = 1 := by
  intro function run revision
  let again : Projection := {
    operands := [⟨[some ⟨[], [], true, true⟩, some ⟨[.whole "x"], [], true, true⟩], []⟩]
    results := [⟨[some ⟨[.whole "x"], [], false, false⟩, some ⟨[], [], false, true⟩], []⟩] }
  exact ⟨by decide +kernel, by decide +kernel, by decide +kernel, by decide +kernel,
    by decide +kernel, ⟨again, by decide +kernel, by decide +kernel⟩, by decide +kernel⟩

/-! ## New shardings of a revised operation -/

/-- **A new sharding is accepted if and only if no agreed axes of its tensor overlap the replicated
ones.** When an operation of a function that verifies and attaches only rules that use no factor
twice in a tensor has been revised, its tensors have been brought to their new shardings. These keep
the replicated axes. They are accepted exactly if no dimension overlaps these, and this is so exactly
if the agreed axes of no factor of the tensor overlap them. -/
theorem reshard_accepted_iff (name : String) (history : List Edit) (meshes : SymbolTable)
    (verified : (ofHistory name history).verify meshes = .ok ())
    (once : (ofHistory name history).AttachesOnly FactorRule.UsesFactorsOnce) (visit : Visit)
    (isVisit : visit ∈ ((ofHistory name history).reshard meshes).visits) (revision : Revision)
    (isRevision : visit.decision = .revise revision) :
    let function := ofHistory name history
    let run := function.reshard meshes
    let before := function.signature visit.operation
    let after := run.function.signature visit.operation
    ∃ rule meshName mesh, before.rule? = some rule ∧ before.mesh? = some meshName ∧
      meshes.mesh? meshName = some mesh ∧
      (∀ change ∈ revision.operands, ∃ mapping old new,
        rule.operands[change.slot]? = some mapping ∧ before.operands[change.slot]? = some old ∧
        after.operands[change.slot]? = some new ∧ new.sharding = some change.target ∧
        old.BroughtTo mesh revision.agreed mapping change.target) ∧
      (∀ change ∈ revision.results, ∃ mapping old new,
        rule.results[change.index]? = some mapping ∧ before.results[change.index]? = some old ∧
        after.results[change.index]? = some new ∧ new.sharding = some change.target ∧
        old.BroughtTo mesh revision.agreed mapping change.target) := by
  intro function run before after
  obtain ⟨_, verifies⟩ := verify_eq_ok_iff.mp verified
  have wellFormed : function.WellFormed := wellFormed_ofHistory name history
  have accepted := verifies.check_signature wellFormed visit.operation
  obtain ⟨isOperation, decided, final⟩ := revision_at_start wellFormed isVisit isRevision
  obtain ⟨rule, meshName, mesh, projection, -, isRule, isName, isMesh, suits, isProjection, rfl⟩ :=
    projection_of_revise (verifies.sound_signature wellFormed visit.operation) decided
  obtain ⟨suited, ruleOnce⟩ := once.rule (fun _ simple => simple.1) isOperation isRule
  have replicated : ∀ tensor ∈ before.operands ++ before.results, Suits mesh tensor.replicated := by
    intro tensor member
    refine Tensor.suits_replicated (accepted tensor member) isMesh ?_
    intro sharding present
    exact (commonMesh?_eq_some_iff.mp isName).2 sharding
      (List.mem_map.mpr ⟨tensor, member, present⟩)
  refine ⟨rule, meshName, mesh, isRule, isName, isMesh, ?_, ?_⟩
  · intro change isChange
    obtain ⟨mapping, old, isMapping, isOld, isNew, brought⟩ := broughtTo_of_retargets suits
      isProjection ruleOnce (retargets_operands suits isProjection ruleOnce)
      (fun tensor member => replicated tensor (List.mem_append_left _ member))
      (fun _ _ _ => suited.operand_rank) (List.mem_map.mpr ⟨change, isChange, rfl⟩)
    obtain ⟨new, isFinal, opened⟩ := final.operand_of_old
      ((congrArg (·[change.slot]?) (Signature.operands_after _)).trans isNew)
    exact ⟨mapping, old, new, isMapping, isOld, isFinal, opened.sharding_eq rfl, brought⟩
  · intro change isChange
    obtain ⟨mapping, old, isMapping, isOld, isNew, brought⟩ := broughtTo_of_retargets suits
      isProjection ruleOnce (retargets_results suits isProjection ruleOnce)
      (fun tensor member => replicated tensor (List.mem_append_right _ member))
      (fun _ _ _ => suited.result_rank) (List.mem_map.mpr ⟨change, isChange, rfl⟩)
    have isFinal := congrArg (·[change.index]?)
      (final.results_eq.trans (Signature.results_after _))
    exact ⟨mapping, old, _, isMapping, isOld, isFinal.trans isNew, rfl, brought⟩

/-- A vector that is sharded along an axis is added to one that is replicated along some. -/
def sumHistory (replicated : AxisSequence) : List Edit :=
  [.addArgument ⟨⟨[4], .f32⟩, some ⟨"mesh", [⟨[.whole "x"], true⟩], []⟩⟩,
    .addArgument ⟨⟨[4], .f32⟩, some ⟨"mesh", [⟨[], true⟩], replicated⟩⟩,
    .addResult ⟨⟨[4], .f32⟩, none⟩,
    .append (.elementwise .add) [⟨0⟩, ⟨1⟩] [⟨[4], .f32⟩],
    .append .exit [⟨2⟩] []]

/-- The second operand and the result get the axis of the first operand. -/
def sumRevision (replicated : AxisSequence) : Revision where
  commitments := [⟨0, [.whole "x"]⟩]
  agreed := [[.whole "x"]]
  operands := [⟨1, ⟨"mesh", [⟨[.whole "x"], true⟩], replicated⟩⟩]
  results := [⟨0, ⟨"mesh", [⟨[.whole "x"], false⟩], []⟩, .fullyOpen "mesh" 1⟩]

/-- The second operand is replicated along the other axis. -/
theorem replicated_elsewhere :
    let run := (ofHistory "main" (sumHistory [.whole "y"])).reshard squareMeshes
    let target : TensorSharding := ⟨"mesh", [⟨[.whole "x"], true⟩], [.whole "y"]⟩
    (∃ visit ∈ run.visits, visit.decision = .revise (sumRevision [.whole "y"])) ∧
      ⟨1, target⟩ ∈ (sumRevision [.whole "y"]).operands ∧ target.check squareMesh 1 = .ok () := by
  intro run target
  obtain ⟨visit, isVisit, isOperation, isRevision⟩ : ∃ visit ∈ run.visits, visit.operation = ⟨0⟩ ∧
      visit.decision = .revise (sumRevision [.whole "y"]) := by decide +kernel
  have onMesh : ((ofHistory "main" (sumHistory [.whole "y"])).signature
      visit.operation).mesh?.bind squareMeshes.mesh? = some squareMesh := by
    rw [isOperation]
    decide +kernel
  have isOperand : ((ofHistory "main" (sumHistory [.whole "y"])).signature
      visit.operation).operands[1]? =
        some ⟨⟨[4], .f32⟩, some ⟨"mesh", [⟨[], true⟩], [.whole "y"]⟩⟩ := by
    rw [isOperation]
    decide +kernel
  obtain ⟨rule, meshName, mesh, isRule, isName, isMesh, operands, -⟩ :=
    reshard_accepted_iff "main" (sumHistory [.whole "y"]) squareMeshes (by decide +kernel)
      (by decide +kernel) visit isVisit (sumRevision [.whole "y"]) isRevision
  rw [isName, Option.bind_some, isMesh] at onMesh
  cases onMesh
  obtain ⟨mapping, old, -, -, isOld, -, -, brought⟩ :=
    operands ⟨1, target⟩ (List.mem_singleton_self _)
  rw [isOperand] at isOld
  cases isOld
  exact ⟨⟨visit, isVisit, isRevision⟩, List.mem_singleton_self _,
    brought.check_iff.mpr (by decide +kernel)⟩

/-- The replicated axis of the second operand is the axis of the first one, and the new sharding,
which is not accepted, has it twice. What the run leaves does not verify. -/
theorem replicated_along_again :
    let function := ofHistory "main" (sumHistory [.whole "x"])
    let run := function.reshard squareMeshes
    let target : TensorSharding := ⟨"mesh", [⟨[.whole "x"], true⟩], [.whole "x"]⟩
    function.verify squareMeshes = .ok () ∧ (∀ operation ∈ function.body,
      (function.operation operation).attached = none) ∧
      run.error = none ∧
      (∃ visit ∈ run.visits, visit.operation = ⟨0⟩ ∧
        visit.decision = .revise (sumRevision [.whole "x"])) ∧
      target ∈ (sumRevision [.whole "x"]).operands.map OperandChange.target ∧
      (∃ dim ∈ target.dims, AxisSequence.Overlaps dim.axes target.replicated) ∧
      target.check squareMesh 1 ≠ .ok () ∧ run.function.verify squareMeshes ≠ .ok () := by
  decide +kernel

end Function

end MeshSharding
