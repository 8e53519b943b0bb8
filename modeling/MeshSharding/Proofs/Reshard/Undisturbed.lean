import MeshSharding.Proofs.Projection.WriteBack
import MeshSharding.Proofs.Reshard.Revised

/-!
# Dimensions that an election leaves alone

A new sharding is not the old one with some axes replaced. It is written from the
factors, so all that it says about a dimension has to come through the factors of
the dimension. Along a simple rule and without overflow a factor has the axes of
its dimension and knows whether the dimension is closed
(`factor?_of_dim_singleton`); hence a dimension with a factor is always written
with the flag it had, and with the axes it had if these are what the election
agrees on.

A dimension without a factor has nothing to come through. It is written as open
and without axes, whatever it was. So a revised tensor has all dimensions as they
were that the election leaves alone if and only if those without a factor were
open and without axes before (`reshard_disturbs_iff`). In other tensors the run
removes axes that no tensor disagrees about (`columns_dropped`).
-/

set_option autoImplicit false

namespace MeshSharding

open AxisSequence (Suits Merged)

variable {mesh : Mesh} {name : String} {meshes : SymbolTable} {sizes : List Nat}

/-- The sharding of a dimension of a tensor; open and without axes if the tensor has none. -/
def Tensor.dim (tensor : Tensor) (index : Nat) : DimSharding :=
  (((tensor.sharding.map TensorSharding.dims).getD [])[index]?).getD .openEmpty

/-- Nothing of the tensor overflows. -/
def TensorProjection.Holds (own : TensorProjection) : Prop :=
  ∀ entry ∈ own.entries, entry.2.overflow = []

theorem Projection.holds_of_not_overflows {projection : Projection}
    (within : ¬ projection.Overflows) {own : TensorProjection}
    (member : own ∈ projection.tensors) : own.Holds :=
  fun entry isEntry => Decidable.not_not.mp fun overflows =>
    within ⟨own, member, entry, isEntry, overflows⟩

/-! ## A dimension with one factor -/

/-- The only factor of a dimension takes all axes unless some overflow. -/
theorem dimEntries_singleton {factor : Nat} {axes : AxisSequence} {isClosed : Bool}
    {entries : List (Nat × FactorSharding)}
    (isOk : dimEntries mesh sizes isClosed axes [factor] = .ok entries) :
    ∃ sharding, entries = [(factor, sharding)] ∧ sharding.isClosed = isClosed ∧
      (sharding.overflow = [] → sharding.axes = axes) := by
  obtain ⟨size, share, later, -, taken, laterOk, rfl⟩ := dimEntries_cons_eq_ok isOk
  cases laterOk
  exact ⟨_, rfl, rfl, (takes_iff.mpr taken).partOf.taken_eq⟩

/-- A factor is read with the axes and the flag of its dimension. -/
theorem factor?_of_dim_singleton {mapping : TensorMapping} {tensor : Tensor}
    {own : TensorProjection}
    (isRead : TensorProjection.ofSharding mesh sizes mapping tensor.sharding = .ok own)
    (declared : ∀ factor ∈ mapping.factors, factor < sizes.length)
    (distinct : mapping.factors.Nodup) (holds : own.Holds) {index factor : Nat}
    (isDim : mapping[index]? = some [factor]) :
    ∃ sharding, own.factor? factor = some sharding ∧ sharding.axes = (tensor.dim index).axes ∧
      sharding.isClosed = (tensor.dim index).isClosed := by
  obtain ⟨entries, entriesOk, rfl⟩ := TensorProjection.ofSharding_eq_ok_iff.mp isRead
  obtain ⟨ownEntries, ownOk, within⟩ := dimEntries_of_tensorEntries entriesOk isDim
  obtain ⟨sharding, rfl, sameFlag, whole⟩ := dimEntries_singleton ownOk
  have found : TensorProjection.factor? ⟨filledSlots sizes.length entries,
      (tensor.sharding.map TensorSharding.replicated).getD []⟩ factor = some sharding :=
    (TensorProjection.factor?_eq_some_iff entriesOk declared distinct).mpr
      (within (List.mem_singleton_self _))
  exact ⟨sharding, found, whole (holds _ (TensorProjection.mem_entries_iff.mpr found)), sameFlag⟩

/-- A dimension with one factor is written with the axes assigned to it and its own flag. -/
theorem dimSharding_assigned_singleton {own : TensorProjection} {agreed : List AxisSequence}
    {factor : Nat} {axes : AxisSequence} {sharding : FactorSharding}
    (found : own.factor? factor = some sharding) (isAgreed : agreed[factor]? = some axes) :
    (own.assigned (assignmentsOf agreed)).dimSharding mesh [factor] =
      ⟨AxisSequence.joined mesh axes, sharding.isClosed⟩ := by
  have shares : (own.assigned (assignmentsOf agreed)).sharesOf [factor] =
      [{ sharding with
        axes
        overflow := [] }] := by
    rw [TensorProjection.sharesOf, List.filterMap_cons_some]
    · rfl
    · rw [TensorProjection.factor?_assigned_agreed isAgreed, found]
      rfl
  simp [TensorProjection.dimSharding, shares]

/-- A dimension without a factor is written as open and without axes. -/
theorem dimSharding_nil (own : TensorProjection) : own.dimSharding mesh [] = .openEmpty := rfl

/-! ## Revised tensors -/

/-- The dimensions of a tensor of which all factors keep their axes are as they were. -/
def Tensor.UndisturbedIn (agreed : List AxisSequence) (mapping : TensorMapping)
    (own : TensorProjection) (tensor : Tensor) (target : TensorSharding) : Prop :=
  ∀ (index : Nat) (dim : DimMapping), mapping[index]? = some dim →
    (∀ factor ∈ dim, agreedFor agreed factor = own.axesOf factor) →
    target.dims[index]? = some (tensor.dim index)

/-- What the new sharding of a tensor says about each dimension. -/
structure Tensor.RewrittenTo (mesh : Mesh) (agreed : List AxisSequence) (mapping : TensorMapping)
    (own : TensorProjection) (tensor : Tensor) (target : TensorSharding) : Prop where
  count : target.dims.length = mapping.length
  mapped : ∀ (index factor : Nat), mapping[index]? = some [factor] →
    target.dims[index]? = some ⟨AxisSequence.joined mesh (agreedFor agreed factor),
      (tensor.dim index).isClosed⟩
  left : ∀ (index factor : Nat), mapping[index]? = some [factor] →
    agreedFor agreed factor = own.axesOf factor → target.dims[index]? = some (tensor.dim index)
  unmapped : ∀ index : Nat, mapping[index]? = some [] → target.dims[index]? = some .openEmpty
  undisturbed_iff : tensor.UndisturbedIn agreed mapping own target ↔
    ∀ index : Nat, mapping[index]? = some [] → tensor.dim index = .openEmpty

/-- A dimension of a tensor that suits the mesh is merged. -/
theorem Tensor.DimsSuit.merged_dim {tensor : Tensor} (suits : tensor.DimsSuit mesh) (index : Nat) :
    Merged (tensor.dim index).axes := by
  rw [Tensor.dim]
  cases found : ((tensor.sharding.map TensorSharding.dims).getD [])[index]? with
  | none => exact .nil
  | some dim => exact (suits.dims dim (List.mem_of_getElem? found)).2

/-- What has been read without overflow is rewritten dimension by dimension. -/
theorem Tensor.rewrittenTo_of_read {mapping : TensorMapping} {tensor : Tensor}
    {own : TensorProjection} {agreed : List AxisSequence}
    (isRead : TensorProjection.ofSharding mesh sizes mapping tensor.sharding = .ok own)
    (declared : ∀ factor ∈ mapping.factors, factor < sizes.length)
    (distinct : mapping.factors.Nodup) (few : ∀ dim ∈ mapping, dim.length ≤ 1) (holds : own.Holds)
    (suits : tensor.DimsSuit mesh)
    (known : ∀ factor ∈ mapping.factors, agreed[factor]? = some (agreedFor agreed factor)) :
    tensor.RewrittenTo mesh agreed mapping own
      ((own.assigned (assignmentsOf agreed)).toSharding mesh name mapping) := by
  -- the dimensions are written one by one
  have isWritten {index : Nat} {dim : DimMapping} (isDim : mapping[index]? = some dim) :
      (mapping.map ((own.assigned (assignmentsOf agreed)).dimSharding mesh))[index]? =
        some ((own.assigned (assignmentsOf agreed)).dimSharding mesh dim) := by
    rw [List.getElem?_map, isDim, Option.map_some]
  have factorOf {index factor : Nat} (isDim : mapping[index]? = some [factor]) :=
    factor?_of_dim_singleton isRead declared distinct holds isDim
  have mapped (index factor : Nat) (isDim : mapping[index]? = some [factor]) :
      (mapping.map ((own.assigned (assignmentsOf agreed)).dimSharding mesh))[index]? =
        some ⟨AxisSequence.joined mesh (agreedFor agreed factor), (tensor.dim index).isClosed⟩ := by
    obtain ⟨sharding, found, -, sameFlag⟩ := factorOf isDim
    have isFactor : factor ∈ mapping.factors :=
      List.mem_flatten.mpr ⟨_, List.mem_of_getElem? isDim, List.mem_singleton_self _⟩
    rw [isWritten isDim, dimSharding_assigned_singleton found (known factor isFactor), sameFlag]
  have left (index factor : Nat) (isDim : mapping[index]? = some [factor])
      (same : agreedFor agreed factor = own.axesOf factor) :
      (mapping.map ((own.assigned (assignmentsOf agreed)).dimSharding mesh))[index]? =
        some (tensor.dim index) := by
    obtain ⟨sharding, found, sameAxes, -⟩ := factorOf isDim
    rw [mapped index factor isDim, same, axesOf_eq found, sameAxes,
      AxisSequence.joined_eq_self (suits.merged_dim index)]
  have unmapped (index : Nat) (isDim : mapping[index]? = some []) :
      (mapping.map ((own.assigned (assignmentsOf agreed)).dimSharding mesh))[index]? =
        some .openEmpty := by
    rw [isWritten isDim, dimSharding_nil]
  refine ⟨List.length_map _, mapped, left, unmapped, ?_, ?_⟩
  · intro undisturbed index isDim
    have kept := undisturbed index [] isDim fun factor member => absurd member List.not_mem_nil
    exact (Option.some.inj ((unmapped index isDim).symm.trans kept)).symm
  · intro wereOpen index dim isDim keptFactors
    have fewHere := few dim (List.mem_of_getElem? isDim)
    cases dim with
    | nil => exact (unmapped index isDim).trans (by rw [wereOpen index isDim])
    | cons factor rest =>
      obtain rfl : rest = [] :=
        List.length_eq_zero_iff.mp (Nat.le_zero.mp (Nat.le_of_succ_le_succ fewHere))
      exact left index factor isDim (keptFactors factor (List.mem_singleton_self _))

/-- **A revised tensor is rewritten dimension by dimension.** -/
theorem rewrittenTo_of_retargets {rule : FactorRule} {projection : Projection}
    (simple : rule.IsSimple) (within : ¬ projection.Overflows)
    {mappings : List TensorMapping} {tensors : List Tensor} {own : List TensorProjection}
    {changes : List (Nat × TensorSharding)}
    (retargets : projection.Retargets mesh name rule mappings tensors own changes)
    (inProjection : ∀ read ∈ own, read ∈ projection.tensors)
    (suits : ∀ tensor ∈ tensors, tensor.DimsSuit mesh)
    {index : Nat} {target : TensorSharding} (isChange : (index, target) ∈ changes) :
    ∃ mapping tensor read, mappings[index]? = some mapping ∧ tensors[index]? = some tensor ∧
      own[index]? = some read ∧
      (retargeted tensors changes)[index]? = some (tensor.withSharding target) ∧
      tensor.RewrittenTo mesh (projection.agreedAxes mesh rule.factorCount) mapping read target := by
  obtain ⟨mapping, tensor, read, isMapping, isTensor, isRead, readOk, rfl, isNew⟩ :=
    exists_of_retargets retargets isChange
  have inRule := retargets.inRule mapping (List.mem_of_getElem? isMapping)
  have holds := Projection.holds_of_not_overflows within
    (inProjection read (List.mem_of_getElem? isRead))
  exact ⟨mapping, tensor, read, isMapping, isTensor, isRead, isNew,
    Tensor.rewrittenTo_of_read readOk (rule.mapped_lt mapping inRule) (simple.1 mapping inRule)
      (simple.2 mapping inRule) holds (suits tensor (List.mem_of_getElem? isTensor))
      (agreedFor_of_mem inRule)⟩

/-- Nothing overflows in an operation that is revised. -/
theorem not_overflows_of_revise {signature : Signature} {declared : List Tensor}
    {revision : Revision} {rule : FactorRule} {projection : Projection}
    (decided : signature.decision meshes declared = .ok (.revise revision))
    (isRule : signature.rule? = some rule) (isName : signature.mesh? = some name)
    (isMesh : meshes.mesh? name = some mesh)
    (isProjection : Projection.ofSignature mesh rule signature = .ok projection) :
    ¬ projection.Overflows := by
  obtain ⟨ownRule, ownName, ownMesh, own, -, isOwnRule, isOwnName, isOwnMesh, isOwn, within, -⟩ :=
    decision_revise_cases decided
  cases isRule.symm.trans isOwnRule
  cases isName.symm.trans isOwnName
  cases isMesh.symm.trans isOwnMesh
  cases isProjection.symm.trans isOwn
  exact within

namespace Function

/-- **A revised tensor has all dimensions as they were that the election leaves alone if and only
if those without a factor were open and without axes.** When an operation of a function that
verifies has been revised along a simple rule, its tensors have been brought to their new shardings.
In these a dimension with a factor has the axes that are agreed for the factor and the flag that it
had; if the axes are those that the tensor had for the factor, then the dimension is as it was. A
dimension without a factor is open and without axes. -/
theorem reshard_disturbs_iff (name : String) (history : List Edit) (meshes : SymbolTable)
    (verified : (ofHistory name history).verify meshes = .ok ()) (visit : Visit)
    (isVisit : visit ∈ ((ofHistory name history).reshard meshes).visits) (revision : Revision)
    (isRevision : visit.decision = .revise revision) (rule : FactorRule)
    (isRule : ((ofHistory name history).signature visit.operation).rule? = some rule)
    (simple : rule.IsSimple) :
    let function := ofHistory name history
    let run := function.reshard meshes
    let before := function.signature visit.operation
    let after := run.function.signature visit.operation
    ∃ meshName mesh projection, before.mesh? = some meshName ∧
      meshes.mesh? meshName = some mesh ∧
      Projection.ofSignature mesh rule before = .ok projection ∧
      (∀ change ∈ revision.operands, ∃ mapping old new own,
        rule.operands[change.slot]? = some mapping ∧ before.operands[change.slot]? = some old ∧
        after.operands[change.slot]? = some new ∧ new.sharding = some change.target ∧
        projection.operands[change.slot]? = some own ∧
        old.RewrittenTo mesh revision.agreed mapping own change.target) ∧
      (∀ change ∈ revision.results, ∃ mapping old new own,
        rule.results[change.index]? = some mapping ∧ before.results[change.index]? = some old ∧
        after.results[change.index]? = some new ∧ new.sharding = some change.target ∧
        projection.results[change.index]? = some own ∧
        old.RewrittenTo mesh revision.agreed mapping own change.target) := by
  intro function run before after
  obtain ⟨_, verifies⟩ := verify_eq_ok_iff.mp verified
  have wellFormed : function.WellFormed := wellFormed_ofHistory name history
  obtain ⟨-, decided, final⟩ := revision_at_start wellFormed isVisit isRevision
  obtain ⟨own, meshName, mesh, projection, -, isOwn, isName, isMesh, suits, isProjection, rfl⟩ :=
    projection_of_revise (verifies.sound_signature wellFormed visit.operation) decided
  rw [isRule] at isOwn
  cases isOwn
  have within := not_overflows_of_revise decided isRule isName isMesh isProjection
  refine ⟨meshName, mesh, projection, isName, isMesh, isProjection, ?_, ?_⟩
  · intro change isChange
    obtain ⟨mapping, old, own, isMapping, isOld, isOwn, isNew, rewritten⟩ :=
      rewrittenTo_of_retargets simple within (retargets_operands suits isProjection simple.1)
        (fun _ member => List.mem_append_left _ member)
        (fun tensor member => suits tensor (List.mem_append_left _ member))
        (List.mem_map.mpr ⟨change, isChange, rfl⟩)
    obtain ⟨new, isFinal, opened⟩ := final.operand_of_old
      ((congrArg (·[change.slot]?) (Signature.operands_after _)).trans isNew)
    exact ⟨mapping, old, new, own, isMapping, isOld, isFinal, opened.sharding_eq rfl, isOwn,
      rewritten⟩
  · intro change isChange
    obtain ⟨mapping, old, own, isMapping, isOld, isOwn, isNew, rewritten⟩ :=
      rewrittenTo_of_retargets simple within (retargets_results suits isProjection simple.1)
        (fun _ member => List.mem_append_right _ member)
        (fun tensor member => suits tensor (List.mem_append_right _ member))
        (List.mem_map.mpr ⟨change, isChange, rfl⟩)
    have isFinal := congrArg (·[change.index]?)
      (final.results_eq.trans (Signature.results_after _))
    exact ⟨mapping, old, _, own, isMapping, isOld, isFinal.trans isNew, rfl, isOwn, rewritten⟩

/-- The rows of two matrices are combined. No factor stands for the columns. -/
def rowsRule : FactorRule where
  sizes := [8]
  operands := [[[0], []], [[0], []]]
  results := [[[0]]]
  reduction := []
  isCustom := true
  mapped_lt := by decide
  reduction_lt := by decide

/-- Only the first of two matrices has its rows sharded; the columns of both are sharded alike. -/
def rowwiseHistory (columns : DimSharding) : List Edit :=
  [.addArgument ⟨⟨[8, 4], .f32⟩, some ⟨"mesh", [⟨[.whole "x"], true⟩, columns], []⟩⟩,
    .addArgument ⟨⟨[8, 4], .f32⟩, some ⟨"mesh", [⟨[], true⟩, columns], []⟩⟩,
    .addResult ⟨⟨[8], .f32⟩, none⟩,
    .append (.custom "combine") [⟨0⟩, ⟨1⟩] [⟨[8], .f32⟩],
    .setRule ⟨0⟩ (some rowsRule),
    .append .exit [⟨2⟩] []]

/-- The second matrix and the result get the axis of the rows of the first one. -/
def rowwiseRevision : Revision where
  commitments := [⟨0, [.whole "x"]⟩]
  agreed := [[.whole "x"]]
  operands := [⟨1, ⟨"mesh", [⟨[.whole "x"], true⟩, .openEmpty], []⟩⟩]
  results := [⟨0, ⟨"mesh", [⟨[.whole "x"], false⟩], []⟩, .fullyOpen "mesh" 1⟩]

/-- Open columns without axes are as they were. -/
theorem columns_kept :
    let run := (ofHistory "main" (rowwiseHistory .openEmpty)).reshard squareMeshes
    ∃ visit ∈ run.visits, visit.decision = .revise rowwiseRevision ∧ rowsRule.IsSimple ∧
      ∀ change ∈ rowwiseRevision.operands, ∃ mapping old own,
        rowsRule.operands[change.slot]? = some mapping ∧
        ((ofHistory "main" (rowwiseHistory .openEmpty)).signature
          visit.operation).operands[change.slot]? = some old ∧
        old.UndisturbedIn rowwiseRevision.agreed mapping own change.target := by
  intro run
  obtain ⟨visit, isVisit, isOperation, isRevision⟩ : ∃ visit ∈ run.visits,
      visit.operation = ⟨0⟩ ∧ visit.decision = .revise rowwiseRevision := by decide +kernel
  have isRule : ((ofHistory "main" (rowwiseHistory .openEmpty)).signature
      visit.operation).rule? = some rowsRule := by
    rw [isOperation]
    decide +kernel
  have wereOpen : ∀ old ∈ ((ofHistory "main" (rowwiseHistory .openEmpty)).signature
      visit.operation).operands, old.dim 1 = .openEmpty := by
    rw [isOperation]
    decide +kernel
  have simple : rowsRule.IsSimple := by decide +kernel
  obtain ⟨_, _, _, -, -, -, operands, -⟩ :=
    reshard_disturbs_iff "main" (rowwiseHistory .openEmpty) squareMeshes (by decide +kernel) visit
      isVisit rowwiseRevision isRevision rowsRule isRule simple
  refine ⟨visit, isVisit, isRevision, simple, fun change isChange => ?_⟩
  obtain ⟨mapping, old, _, own, isMapping, isOld, -, -, -, rewritten⟩ := operands change isChange
  refine ⟨mapping, old, own, isMapping, isOld, rewritten.undisturbed_iff.mpr ?_⟩
  have isRows : ∀ mapping ∈ rowsRule.operands, mapping = [[0], []] := by decide
  obtain rfl := isRows mapping (List.mem_of_getElem? isMapping)
  intro index isDim
  match index with
  | 0 => cases isDim
  | 1 => exact wereOpen old (List.mem_of_getElem? isOld)
  | _ + 2 => cases isDim

/-- Closed columns with an axis, on which both matrices agree, are open and without axes in the new
sharding of the second one. -/
theorem columns_dropped :
    let function := ofHistory "main" (rowwiseHistory ⟨[.whole "y"], true⟩)
    let run := function.reshard squareMeshes
    function.verify squareMeshes = .ok () ∧ rowsRule.IsSimple ∧
      (function.signature ⟨0⟩).SuitedBy rowsRule ∧
      (function.signature ⟨0⟩).rule? = some rowsRule ∧ run.error = none ∧
      (∃ visit ∈ run.visits, visit.operation = ⟨0⟩ ∧
        visit.decision = .revise rowwiseRevision) ∧
      ∃ change ∈ rowwiseRevision.operands, ∃ mapping old new,
        rowsRule.operands[change.slot]? = some mapping ∧ mapping[1]? = some [] ∧
        (function.signature ⟨0⟩).operands[change.slot]? = some old ∧
        (run.function.signature ⟨0⟩).operands[change.slot]? = some new ∧
        new.sharding = some change.target ∧ old.dim 1 = ⟨[.whole "y"], true⟩ ∧
        change.target.dims[1]? = some .openEmpty := by
  intro function run
  exact ⟨by decide +kernel, by decide +kernel, by decide +kernel, by decide +kernel,
    by decide +kernel, by decide +kernel, _, List.mem_singleton_self _, [[0], []],
    ⟨⟨[8, 4], .f32⟩, some ⟨"mesh", [⟨[], true⟩, ⟨[.whole "y"], true⟩], []⟩⟩,
    ⟨⟨[8, 4], .f32⟩, some ⟨"mesh", [⟨[.whole "x"], true⟩, .openEmpty], []⟩⟩,
    by decide +kernel⟩

end Function

end MeshSharding
