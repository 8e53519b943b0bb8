import Mathlib.Data.List.ReduceOption
import MeshSharding.Proofs.Projection.Assignment
import MeshSharding.Proofs.Projection.Tensors
import MeshSharding.Proofs.Reshard.Visit
import MeshSharding.Proofs.Vote.Agreement

/-!
# The shardings that a decision brings

When the tensors of an operation are brought to agreed axes, the dimensions of
their new shardings suit the mesh (`dimsSuit_assigned`): the axes of a factor
begin axes that suit it, those of different factors do not overlap, and joining
parts in a dimension keeps both.

A revision changes exactly those operands and results that the agreement
changes, and brings each of them to the agreed axes along its mapping
(`mem_operandTargets_iff`, `mem_resultTargets_iff`).
-/

set_option autoImplicit false

namespace MeshSharding

open AxisSequence (Suits Merged)

variable {mesh : Mesh} {name : String}

/-! ## The common mesh -/

/-- A name is common to shardings when there are some and all of them have it. -/
theorem commonMesh?_eq_some_iff {shardings : List (Option TensorSharding)} :
    commonMesh? shardings = some name ↔
      (∃ sharding, some sharding ∈ shardings) ∧
        ∀ sharding, some sharding ∈ shardings → sharding.mesh = name := by
  simp only [← List.reduceOption_mem_iff]
  unfold commonMesh?
  cases shardings.reduceOption with
  | nil => simp
  | cons first rest =>
    simp only [List.map_cons, List.forall_mem_map, Option.ite_none_right_eq_some,
      Option.some.injEq, List.forall_mem_cons]
    constructor
    · rintro ⟨same, rfl⟩
      exact ⟨⟨first, List.mem_cons_self ..⟩, rfl, same⟩
    · rintro ⟨-, rfl, same⟩
      exact ⟨same, rfl⟩

/-- The dimensions of the tensor's sharding, if it has one, suit the mesh. -/
def Tensor.DimsSuit (mesh : Mesh) (tensor : Tensor) : Prop :=
  ∀ sharding, tensor.sharding = some sharding → sharding.DimsSuit mesh tensor.rank

/-- Replicated axes are not listed. -/
def Tensor.Bare (tensor : Tensor) : Prop :=
  ∀ sharding, tensor.sharding = some sharding → sharding.replicated = []

instance (tensor : Tensor) : Decidable tensor.Bare :=
  inferInstanceAs (Decidable (∀ sharding ∈ tensor.sharding, sharding.replicated = []))

theorem Tensor.DimsSuit.suits {tensor : Tensor} (dimsSuit : tensor.DimsSuit mesh) :
    Suits mesh (((tensor.sharding.map TensorSharding.dims).getD []).flatMap DimSharding.axes) := by
  cases present : tensor.sharding with
  | none => exact AxisSequence.suits_nil
  | some sharding => exact (dimsSuit sharding present).suits

/-- The sharding of a sound tensor is on its mesh, so its dimensions suit it. -/
theorem Tensor.Sound.dimsSuit {meshes : SymbolTable} {tensor : Tensor}
    (sound : tensor.Sound meshes) (declared : meshes.mesh? name = some mesh)
    (named : ∀ sharding, tensor.sharding = some sharding → sharding.mesh = name) :
    tensor.DimsSuit mesh := by
  intro sharding present
  obtain ⟨own, isOwn, suits⟩ := sound sharding present
  rw [named sharding present, declared] at isOwn
  cases isOwn
  exact suits

/-- A sharding on a declared mesh whose dimensions suit it makes a tensor sound. -/
theorem Tensor.sound_withSharding {meshes : SymbolTable} {tensor : Tensor}
    {sharding : TensorSharding} (declared : meshes.mesh? sharding.mesh = some mesh)
    (suits : sharding.DimsSuit mesh tensor.rank) : (tensor.withSharding sharding).Sound meshes := by
  intro other present
  cases present
  exact ⟨mesh, declared, suits⟩

theorem Tensor.bare_withSharding {tensor : Tensor} {sharding : TensorSharding}
    (bare : sharding.replicated = []) : (tensor.withSharding sharding).Bare := by
  intro other present
  cases present
  exact bare

/-! ## Assigned axes -/

section Assigned

variable {tensor : TensorProjection} {agreed : List AxisSequence} {axesFor : Nat → AxisSequence}
  {mapping : TensorMapping}

/-- The factors of a dimension are left with the agreed axes. -/
theorem flatMap_sharesOf_assigned {dim : DimMapping}
    (isAgreed : ∀ factor ∈ dim, agreed[factor]? = some (axesFor factor))
    (mapped : ∀ factor ∈ dim, (tensor.factor? factor).isSome) :
    (((tensor.assigned (assignmentsOf agreed)).sharesOf dim).flatMap fun sharding =>
      sharding.axes ++ sharding.overflow) = dim.flatMap axesFor := by
  induction dim with
  | nil => rfl
  | cons factor rest ih =>
    obtain ⟨agreedFirst, agreedRest⟩ := List.forall_mem_cons.mp isAgreed
    obtain ⟨mappedFirst, mappedRest⟩ := List.forall_mem_cons.mp mapped
    obtain ⟨sharding, found⟩ := Option.isSome_iff_exists.mp mappedFirst
    have isAssigned : (tensor.assigned (assignmentsOf agreed)).factor? factor =
        some { sharding with
          axes := axesFor factor
          overflow := [] } := by
      rw [TensorProjection.factor?_assigned_agreed agreedFirst, found]
      rfl
    have sharesCons : (tensor.assigned (assignmentsOf agreed)).sharesOf (factor :: rest) =
        { sharding with
          axes := axesFor factor
          overflow := [] } :: (tensor.assigned (assignmentsOf agreed)).sharesOf rest :=
      List.filterMap_cons_some isAssigned
    rw [sharesCons, List.flatMap_cons, List.flatMap_cons, ih agreedRest mappedRest,
      List.append_nil]

variable (isAgreed : ∀ factor ∈ mapping.factors, agreed[factor]? = some (axesFor factor))
  (mapped : ∀ factor ∈ mapping.factors, (tensor.factor? factor).isSome)
include isAgreed mapped

theorem axes_dimSharding_assigned {dim : DimMapping} (isDim : dim ∈ mapping) :
    (TensorProjection.dimSharding mesh (tensor.assigned (assignmentsOf agreed)) dim).axes =
      AxisSequence.joined mesh (dim.flatMap axesFor) := by
  have inMapping {factor : Nat} (member : factor ∈ dim) : factor ∈ mapping.factors :=
    List.mem_flatten.mpr ⟨dim, isDim, member⟩
  rw [TensorProjection.dimSharding, flatMap_sharesOf_assigned
    (fun factor member => isAgreed factor (inMapping member))
    fun factor member => mapped factor (inMapping member)]

/-- **Tensors brought to axes that suit the mesh together suit it.** -/
theorem dimsSuit_assigned (suits : Suits mesh (mapping.factors.flatMap axesFor)) :
    ((tensor.assigned (assignmentsOf agreed)).toSharding mesh name mapping).DimsSuit mesh
      mapping.length where
  rank_eq := List.length_map _
  merged dim member := by
    obtain ⟨factors, isDim, rfl⟩ := List.mem_map.mp member
    rw [axes_dimSharding_assigned isAgreed mapped isDim]
    exact AxisSequence.merged_joined _
  suits := by
    have byDim : Suits mesh (mapping.flatMap fun dim => dim.flatMap axesFor) := by
      rwa [TensorMapping.factors, List.flatten_eq_flatMap, List.flatMap_assoc] at suits
    have eachSuits := (AxisSequence.suits_flatMap_iff.mp byDim).1
    rw [TensorProjection.toSharding, List.flatMap_map]
    refine (byDim.flatMap_within ?_).1
    intro dim isDim
    rw [axes_dimSharding_assigned isAgreed mapped isDim]
    exact (eachSuits dim isDim).joined

end Assigned

/-! ## Agreed axes -/

theorem TensorProjection.Along.suits_axesOf {factorCount : Nat} {mapping : TensorMapping}
    {tensor : TensorProjection} (along : tensor.Along mesh factorCount mapping) (factor : Nat) :
    Suits mesh (tensor.axesOf factor) := by
  cases found : tensor.factor? factor with
  | none =>
    rw [TensorProjection.axesOf, found]
    exact AxisSequence.suits_nil
  | some sharding =>
    rw [axesOf_eq found]
    exact (along.suits factor sharding found).sublist (List.sublist_append_left _ _)

/-- The axes on which factors are agreed suit the mesh together. -/
theorem suits_agreed {projection : Projection} {factorCount : Nat}
    (each : ∀ tensor ∈ projection.tensors, ∀ factor, Suits mesh (tensor.axesOf factor))
    {factors : List Nat} (distinct : factors.Nodup) :
    Suits mesh (factors.flatMap (lastCommitted (projection.commitments mesh factorCount))) := by
  refine AxisSequence.suits_flatMap_iff.mpr ⟨?_, ?_⟩
  · intro factor _
    have begins : lastCommitted (projection.commitments mesh factorCount) factor = [] ∨ _ :=
      Projection.lastCommitted_prefix factor
    rcases begins with unsharded | ⟨tensor, isTensor, begins⟩
    · rw [unsharded]
      exact AxisSequence.suits_nil
    · exact (each tensor isTensor factor).sublist begins.sublist
  · exact List.Pairwise.imp (fun differ => lastCommitted_apart _ differ) distinct

/-- The sharding of a tensor of a projection when it is brought to the agreed axes. -/
def Projection.retargeted (mesh : Mesh) (name : String) (rule : FactorRule)
    (projection : Projection) (mapping : TensorMapping) (tensor : TensorProjection) :
    TensorSharding :=
  (tensor.assigned (assignmentsOf (projection.agreedAxes mesh rule.factorCount))).toSharding mesh
    name mapping

section Retargeted

variable {rule : FactorRule} {projection : Projection} {mapping : TensorMapping}
  {tensor : TensorProjection}

theorem agreedAxes_of_mem (isMapping : mapping ∈ rule.operands ++ rule.results) :
    ∀ factor ∈ mapping.factors, (projection.agreedAxes mesh rule.factorCount)[factor]? =
      some (lastCommitted (projection.commitments mesh rule.factorCount) factor) :=
  fun factor member =>
    Projection.agreedAxes_getElem? (rule.mapped_lt mapping isMapping factor member)

theorem dimsSuit_retargeted (isMapping : mapping ∈ rule.operands ++ rule.results)
    (once : rule.UsesFactorsOnce) (along : tensor.Along mesh rule.sizes.length mapping)
    (each : ∀ tensor ∈ projection.tensors, ∀ factor, Suits mesh (tensor.axesOf factor)) :
    (projection.retargeted mesh name rule mapping tensor).DimsSuit mesh mapping.length :=
  dimsSuit_assigned (agreedAxes_of_mem isMapping)
    (fun factor member => (along.isSome_iff factor).mpr member)
    (suits_agreed each (once mapping isMapping))

theorem replicated_retargeted :
    (projection.retargeted mesh name rule mapping tensor).replicated = tensor.replicated :=
  TensorProjection.replicated_assigned _

end Retargeted

/-! ## The changes of a revision -/

theorem mem_operandChanges_iff {rule : FactorRule} {changed : List Nat} {projection : Projection}
    {change : OperandChange} :
    change ∈ operandChanges mesh name rule changed projection ↔
      change.slot ∈ changed ∧ ∃ tensor mapping,
        projection.operands[change.slot]? = some tensor ∧
          rule.operands[change.slot]? = some mapping ∧
          change.target = tensor.toSharding mesh name mapping := by
  simp only [operandChanges, List.mem_filterMap, Option.bind_eq_bind, Option.bind_eq_some_iff,
    Option.pure_def, Option.some.injEq]
  constructor
  · rintro ⟨slot, isChanged, tensor, isTensor, mapping, isMapping, rfl⟩
    exact ⟨isChanged, tensor, mapping, isTensor, isMapping, rfl⟩
  · rintro ⟨isChanged, tensor, mapping, isTensor, isMapping, isTarget⟩
    refine ⟨change.slot, isChanged, tensor, isTensor, mapping, isMapping, ?_⟩
    rw [← isTarget]

theorem mem_resultChanges_iff {rule : FactorRule} {results : List Tensor} {changed : List Nat}
    {projection : Projection} {change : ResultChange} :
    change ∈ resultChanges mesh name rule results changed projection ↔
      change.index ∈ changed ∧ ∃ result tensor mapping,
        results[change.index]? = some result ∧
          projection.results[change.index]? = some tensor ∧
          rule.results[change.index]? = some mapping ∧
          change.target = tensor.toSharding mesh name mapping ∧
          change.restored = result.sharding.getD (.fullyOpen name result.rank) := by
  simp only [resultChanges, List.mem_filterMap, Option.bind_eq_bind, Option.bind_eq_some_iff,
    Option.pure_def, Option.some.injEq]
  constructor
  · rintro ⟨index, isChanged, result, isResult, tensor, isTensor, mapping, isMapping, rfl⟩
    exact ⟨isChanged, result, tensor, mapping, isResult, isTensor, isMapping, rfl, rfl⟩
  · rintro ⟨isChanged, result, tensor, mapping, isResult, isTensor, isMapping, isTarget,
      isRestored⟩
    refine ⟨change.index, isChanged, result, isResult, tensor, isTensor, mapping, isMapping, ?_⟩
    rw [← isTarget, ← isRestored]

/-- What is picked in order from a list stands at some of its positions, in order. -/
theorem positions_filterMap_sublist {α β : Type} {pick : α → Option β} {position : β → Nat}
    {place : α → Nat} (same : ∀ source picked, pick source = some picked →
      position picked = place source) (sources : List α) :
    ((sources.filterMap pick).map position).Sublist (sources.map place) := by
  induction sources with
  | nil => exact .slnil
  | cons source rest ih =>
    rw [List.map_cons]
    cases found : pick source with
    | none =>
      rw [List.filterMap_cons_none found]
      exact ih.cons _
    | some picked =>
      rw [List.filterMap_cons_some found, List.map_cons, same source picked found]
      exact ih.cons_cons _

theorem slots_operandChanges_sublist {rule : FactorRule} (changed : List Nat)
    {projection : Projection} :
    ((operandChanges mesh name rule changed projection).map OperandChange.slot).Sublist
      changed := by
  have inOrder : ((operandChanges mesh name rule changed projection).map
      OperandChange.slot).Sublist (changed.map id) := by
    refine positions_filterMap_sublist ?_ changed
    intro slot change picked
    obtain ⟨tensor, -, chain⟩ := Option.bind_eq_some_iff.mp picked
    obtain ⟨mapping, -, isChange⟩ := Option.bind_eq_some_iff.mp chain
    cases isChange
    rfl
  rwa [List.map_id] at inOrder

theorem indices_resultChanges_sublist {rule : FactorRule} {results : List Tensor}
    (changed : List Nat) {projection : Projection} :
    ((resultChanges mesh name rule results changed projection).map ResultChange.index).Sublist
      changed := by
  have inOrder : ((resultChanges mesh name rule results changed projection).map
      ResultChange.index).Sublist (changed.map id) := by
    refine positions_filterMap_sublist ?_ changed
    intro index change picked
    obtain ⟨result, -, chain⟩ := Option.bind_eq_some_iff.mp picked
    obtain ⟨tensor, -, chain⟩ := Option.bind_eq_some_iff.mp chain
    obtain ⟨mapping, -, isChange⟩ := Option.bind_eq_some_iff.mp chain
    cases isChange
    rfl
  rwa [List.map_id] at inOrder

section Revision

variable {rule : FactorRule} {signature : Signature} {projection : Projection}
  (suited : signature.SuitedBy rule)
  (operandsRead : ReadAs mesh rule.sizes rule.operands signature.operands projection.operands)
  (resultsRead : ReadAs mesh rule.sizes rule.results signature.results projection.results)
include suited operandsRead resultsRead

/-- The record of changes of a revision, tensor by tensor. -/
theorem changes_eq (assignments : List Assignment) :
    projection.changesOfAll (.unchanged rule.operands.length rule.results.length) assignments =
      ⟨projection.operands.map fun tensor => decide (tensor.ChangedBy assignments),
        projection.results.map fun tensor => decide (tensor.ChangedBy assignments)⟩ :=
  Projection.changesOfAll_unchanged assignments
    (suited.operand_count.trans operandsRead.count.symm)
    (suited.result_count.trans resultsRead.count.symm)

theorem mem_revision_operands_iff {change : OperandChange} :
    change ∈ (projection.revision mesh name rule signature.results).operands ↔
      ∃ tensor mapping, projection.operands[change.slot]? = some tensor ∧
        rule.operands[change.slot]? = some mapping ∧
        tensor.ChangedBy (assignmentsOf (projection.agreedAxes mesh rule.factorCount)) ∧
        change.target = projection.retargeted mesh name rule mapping tensor := by
  simp only [Projection.revision, mem_operandChanges_iff, ChangeSet.mem_positions_iff,
    changes_eq suited operandsRead resultsRead, Projection.assignAll_eq, List.getElem?_map,
    Option.map_eq_some_iff, decide_eq_true_eq]
  constructor
  · rintro ⟨⟨tensor, isTensor, isChanged⟩, -, mapping, ⟨_, alsoTensor, rfl⟩, isMapping, isTarget⟩
    rw [isTensor] at alsoTensor
    cases alsoTensor
    exact ⟨tensor, mapping, isTensor, isMapping, isChanged, isTarget⟩
  · rintro ⟨tensor, mapping, isTensor, isMapping, isChanged, isTarget⟩
    exact ⟨⟨tensor, isTensor, isChanged⟩, _, mapping, ⟨tensor, isTensor, rfl⟩, isMapping, isTarget⟩

theorem mem_revision_results_iff {change : ResultChange} :
    change ∈ (projection.revision mesh name rule signature.results).results ↔
      ∃ result tensor mapping, signature.results[change.index]? = some result ∧
        projection.results[change.index]? = some tensor ∧
        rule.results[change.index]? = some mapping ∧
        tensor.ChangedBy (assignmentsOf (projection.agreedAxes mesh rule.factorCount)) ∧
        change.target = projection.retargeted mesh name rule mapping tensor ∧
        change.restored = result.sharding.getD (.fullyOpen name result.rank) := by
  simp only [Projection.revision, mem_resultChanges_iff, ChangeSet.mem_positions_iff,
    changes_eq suited operandsRead resultsRead, Projection.assignAll_eq, List.getElem?_map,
    Option.map_eq_some_iff, decide_eq_true_eq]
  constructor
  · rintro ⟨⟨tensor, isTensor, isChanged⟩, result, -, mapping, isResult, ⟨_, alsoTensor, rfl⟩,
      isMapping, isTarget, isRestored⟩
    rw [isTensor] at alsoTensor
    cases alsoTensor
    exact ⟨result, tensor, mapping, isResult, isTensor, isMapping, isChanged, isTarget, isRestored⟩
  · rintro ⟨result, tensor, mapping, isResult, isTensor, isMapping, isChanged, isTarget,
      isRestored⟩
    exact ⟨⟨tensor, isTensor, isChanged⟩, result, _, mapping, isResult, ⟨tensor, isTensor, rfl⟩,
      isMapping, isTarget, isRestored⟩

/-- The operands that a revision changes, with what they are brought to. -/
theorem mem_operandTargets_iff {slot : Nat} {target : TensorSharding} :
    (slot, target) ∈ (projection.revision mesh name rule signature.results).operands.map
        (fun change => (change.slot, change.target)) ↔
      ∃ tensor mapping, projection.operands[slot]? = some tensor ∧
        rule.operands[slot]? = some mapping ∧
        tensor.ChangedBy (assignmentsOf (projection.agreedAxes mesh rule.factorCount)) ∧
        target = projection.retargeted mesh name rule mapping tensor := by
  constructor
  · intro isChange
    obtain ⟨change, isMember, same⟩ := List.mem_map.mp isChange
    cases same
    exact (mem_revision_operands_iff suited operandsRead resultsRead).mp isMember
  · intro found
    exact List.mem_map.mpr ⟨⟨slot, target⟩,
      (mem_revision_operands_iff suited operandsRead resultsRead).mpr found, rfl⟩

/-- The results that a revision changes, with what they are brought to. -/
theorem mem_resultTargets_iff {index : Nat} {target : TensorSharding} :
    (index, target) ∈ (projection.revision mesh name rule signature.results).results.map
        (fun change => (change.index, change.target)) ↔
      ∃ tensor mapping, projection.results[index]? = some tensor ∧
        rule.results[index]? = some mapping ∧
        tensor.ChangedBy (assignmentsOf (projection.agreedAxes mesh rule.factorCount)) ∧
        target = projection.retargeted mesh name rule mapping tensor := by
  constructor
  · intro isChange
    obtain ⟨change, isMember, same⟩ := List.mem_map.mp isChange
    cases same
    obtain ⟨result, tensor, mapping, -, isTensor, isMapping, isChanged, isTarget, -⟩ :=
      (mem_revision_results_iff suited operandsRead resultsRead).mp isMember
    exact ⟨tensor, mapping, isTensor, isMapping, isChanged, isTarget⟩
  · rintro ⟨tensor, mapping, isTensor, isMapping, isChanged, isTarget⟩
    have below : index < signature.results.length := by
      rw [← resultsRead.count]
      exact (List.getElem?_eq_some_iff.mp isTensor).1
    exact List.mem_map.mpr ⟨⟨index, target, _⟩,
      (mem_revision_results_iff suited operandsRead resultsRead).mpr
        ⟨_, tensor, mapping, List.getElem?_eq_getElem below, isTensor, isMapping, isChanged,
          isTarget, rfl⟩, rfl⟩

end Revision

theorem operandTargets_nodup {rule : FactorRule} {results : List Tensor} {projection : Projection} :
    (((projection.revision mesh name rule results).operands.map
      fun change => (change.slot, change.target)).map Prod.fst).Nodup := by
  rw [List.map_map]
  exact (slots_operandChanges_sublist _).nodup (ChangeSet.positions_nodup _)

theorem resultTargets_nodup {rule : FactorRule} {results : List Tensor} {projection : Projection} :
    (((projection.revision mesh name rule results).results.map
      fun change => (change.index, change.target)).map Prod.fst).Nodup := by
  rw [List.map_map]
  exact (indices_resultChanges_sublist _).nodup (ChangeSet.positions_nodup _)

end MeshSharding
