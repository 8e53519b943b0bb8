import MeshSharding.Proofs.Reshard.Again

/-!
# Settled operations

An operation is settled when the decision about it changes nothing. Carrying out
the decision about a sound operation with a simple rule settles it
(`settled_after`). A return is settled because a value that has been brought to
what is declared is not brought there again. An operation with a rule is settled
because its tensors, read again, have the axes on which they agreed: in a simple
rule no factor stands in a dimension before another, so none has to be used up.
-/

set_option autoImplicit false

namespace MeshSharding

variable {mesh : Mesh} {name : String} {meshes : SymbolTable} {declared : List Tensor}

/-- The decision changes nothing. -/
def Decision.Idle : Decision → Prop
  | .exit operands => operands = []
  | .skip _ => True
  | .revise _ => False

/-- The operation allows a decision, and that changes nothing. -/
def Signature.Settled (meshes : SymbolTable) (declared : List Tensor) (signature : Signature) :
    Prop :=
  ∃ decision, signature.decision meshes declared = .ok decision ∧ decision.Idle

/-! ## What a projection decides -/

section Cases

variable {rule : FactorRule} {results : List Tensor} {projection : Projection}

/-- Nothing changes if factors overflow or all tensors agree. -/
theorem Projection.idle_decision_iff :
    (projection.decision mesh name rule results).Idle ↔
      projection.Overflows ∨ projection.IsConsistent := by
  unfold Projection.decision
  by_cases overflows : projection.Overflows
  · simp [overflows, Decision.Idle]
  · by_cases consistent : projection.IsConsistent
    · simp [overflows, consistent, Decision.Idle]
    · simp [overflows, consistent, Decision.Idle]

end Cases

/-! ## Returns -/

/-- A value that has been brought to what is declared is not brought there again. -/
theorem exitTarget?_again {wanted current : Option TensorSharding} {target : TensorSharding}
    (isTarget : exitTarget? wanted current = some target) :
    exitTarget? wanted (some target) = none := by
  unfold exitTarget?
  rcases exitTarget?_cases isTarget with rfl | ⟨rfl, sharding, -, rfl⟩
  · split
    · rfl
    · rw [if_pos rfl]
  · have replicated : TensorSharding.IsFullyReplicated (some sharding.fullyReplicatedLike) := by
      intro dim member
      rw [List.eq_of_mem_replicate member]
      rfl
    rw [if_pos ⟨replicated, trivial⟩]

/-- Returned values are changed in order. -/
theorem slots_exitChanges_sublist (returned : List Tensor) :
    ((exitChanges declared returned).map OperandChange.slot).Sublist
      (List.range' 0 returned.length) := by
  have inOrder : ((exitChanges declared returned).map OperandChange.slot).Sublist
      (returned.zipIdx.map Prod.snd) := by
    refine positions_filterMap_sublist ?_ _
    intro operand change picked
    obtain ⟨target, -, rfl⟩ := Option.map_eq_some_iff.mp picked
    rfl
  rwa [List.zipIdx_map_snd] at inOrder

theorem slots_exitChanges_nodup (returned : List Tensor) :
    ((exitChanges declared returned).map OperandChange.slot).Nodup :=
  (slots_exitChanges_sublist returned).nodup List.nodup_range'

/-- Returned values that have been resharded to what is declared need no more resharding. -/
theorem exitChanges_retargeted (returned : List Tensor) :
    exitChanges declared (retargeted returned
      ((exitChanges declared returned).map fun change => (change.slot, change.target))) = [] := by
  apply List.eq_nil_iff_forall_not_mem.mpr
  intro again isAgain
  obtain ⟨tensor, found, isTarget⟩ := mem_exitChanges_iff.mp isAgain
  have places : ((exitChanges declared returned).map fun change =>
      (change.slot, change.target)).map Prod.fst =
        (exitChanges declared returned).map OperandChange.slot := by
    rw [List.map_map]
    rfl
  by_cases resharded : again.slot ∈ (exitChanges declared returned).map OperandChange.slot
  · obtain ⟨first, isFirst, sameSlot⟩ := List.mem_map.mp resharded
    have member : (again.slot, first.target) ∈ (exitChanges declared returned).map fun change =>
        (change.slot, change.target) := by
      rw [← sameSlot]
      exact List.mem_map.mpr ⟨first, isFirst, rfl⟩
    rw [getElem?_retargeted_of_mem (by rw [places]; exact slots_exitChanges_nodup returned)
      member] at found
    obtain ⟨old, -, rfl⟩ := Option.map_eq_some_iff.mp found
    obtain ⟨_, _, firstTarget⟩ := mem_exitChanges_iff.mp isFirst
    rw [sameSlot] at firstTarget
    have settled := exitTarget?_again firstTarget
    rw [Tensor.withSharding, settled] at isTarget
    cases isTarget
  · rw [getElem?_retargeted_of_notMem (by rwa [places])] at found
    exact resharded (List.mem_map.mpr
      ⟨again, mem_exitChanges_iff.mpr ⟨tensor, found, isTarget⟩, rfl⟩)

/-! ## Operations with a simple rule -/

/-- An operation with a simple rule that has been brought to the agreed axes is consistent. -/
theorem isConsistent_again {rule : FactorRule} {signature : Signature} {projection : Projection}
    {again : Projection} (simple : rule.IsSimple)
    (suits : ∀ tensor ∈ signature.operands ++ signature.results, tensor.DimsSuit mesh)
    (isProjection : Projection.ofSignature mesh rule signature = .ok projection)
    (isAgain : Projection.ofSignature mesh rule (signature.after
      (.revise (projection.revision mesh name rule signature.results))) = .ok again) :
    again.IsConsistent :=
  ((shardedAlong_again_iff suits isProjection simple.1 isAgain).mpr
    (simple.filledBy _)).isConsistent

/-! ## The decision again -/

theorem Signature.kind_congr {first second : Signature}
    (same : first.unsharded = second.unsharded) : first.kind = second.kind := by
  have sameKind := congrArg Signature.kind same
  exact sameKind

theorem Signature.operandTypes_congr {first second : Signature}
    (same : first.unsharded = second.unsharded) :
    first.operands.map Tensor.type = second.operands.map Tensor.type := by
  have sameTypes := congrArg (fun signature => signature.operands.map Tensor.type) same
  simp only [Signature.unsharded, List.map_map] at sameTypes
  exact sameTypes

/-- Signatures that agree but for shardings have the same rule. -/
theorem Signature.rule?_congr {first second : Signature}
    (same : first.unsharded = second.unsharded) : first.rule? = second.rule? := by
  have read (signature : Signature) : signature.unsharded.rule? = signature.rule? := by
    simp only [Signature.rule?, Signature.unsharded, List.map_map]
    rfl
  rw [← read first, same, read second]

theorem Signature.suitedBy_congr {first second : Signature} {rule : FactorRule}
    (same : first.unsharded = second.unsharded) (suited : first.SuitedBy rule) :
    second.SuitedBy rule := by
  have read (signature : Signature) :
      signature.unsharded.SuitedBy rule ↔ signature.SuitedBy rule := by
    simp only [Signature.SuitedBy, Signature.unsharded, List.map_map]
    exact Iff.rfl
  rw [← read, ← same, read]
  exact suited

/-- What a decision keeps, the tensors have after it. -/
theorem Decision.Keeps.after {Good : Tensor → Prop} {signature : Signature} {decision : Decision}
    (keeps : decision.Keeps Good signature)
    (good : ∀ tensor ∈ signature.operands ++ signature.results, Good tensor) :
    ∀ tensor ∈ (signature.after decision).operands ++ (signature.after decision).results,
      Good tensor := by
  intro tensor member
  rw [Signature.operands_after, Signature.results_after] at member
  rcases List.mem_append.mp member with isOperand | isResult
  · obtain ⟨slot, found⟩ := List.mem_iff_getElem?.mp isOperand
    obtain ⟨old, isOld, rfl | ⟨sharding, isChange, rfl⟩⟩ := getElem?_retargeted_cases found
    · exact good tensor (List.mem_append_left _ (List.mem_of_getElem? isOld))
    · obtain ⟨change, isMember, same⟩ := List.mem_map.mp isChange
      cases same
      exact keeps.operand change isMember old isOld
  · obtain ⟨index, found⟩ := List.mem_iff_getElem?.mp isResult
    obtain ⟨old, isOld, rfl | ⟨sharding, isChange, rfl⟩⟩ := getElem?_retargeted_cases found
    · exact good tensor (List.mem_append_right _ (List.mem_of_getElem? isOld))
    · obtain ⟨change, isMember, same⟩ := List.mem_map.mp isChange
      cases same
      exact (keeps.result change isMember old isOld).1

/-- A list of tensors that has shardings keeps having some. -/
theorem exists_sharding_retargeted {tensors : List Tensor} (changes : List (Nat × TensorSharding))
    {tensor : Tensor} (member : tensor ∈ tensors) (isSome : tensor.sharding.isSome) :
    ∃ other ∈ retargeted tensors changes, ∃ own, other.sharding = some own := by
  obtain ⟨index, found⟩ := List.mem_iff_getElem?.mp member
  have below : index < (retargeted tensors changes).length := by
    rw [length_retargeted]
    exact (List.getElem?_eq_some_iff.mp found).1
  refine ⟨_, List.getElem_mem below, Option.isSome_iff_exists.mp ?_⟩
  obtain ⟨old, isOld, outcome⟩ := getElem?_retargeted_cases (List.getElem?_eq_getElem below)
  rw [found] at isOld
  cases isOld
  rcases outcome with same | ⟨target, -, changed⟩
  · rwa [same]
  · rw [changed]
    rfl

/-- Shardings on a mesh are changed for shardings on it. -/
theorem mesh_of_retargeted {tensors : List Tensor} {changes : List (Nat × TensorSharding)}
    (changesNamed : ∀ change ∈ changes, change.2.mesh = name)
    (tensorsNamed : ∀ tensor ∈ tensors, ∀ own, tensor.sharding = some own → own.mesh = name)
    {tensor : Tensor} (member : tensor ∈ retargeted tensors changes) {own : TensorSharding}
    (isOwn : tensor.sharding = some own) : own.mesh = name := by
  obtain ⟨index, found⟩ := List.mem_iff_getElem?.mp member
  obtain ⟨old, isOld, rfl | ⟨target, isChange, rfl⟩⟩ := getElem?_retargeted_cases found
  · exact tensorsNamed tensor (List.mem_of_getElem? isOld) own isOwn
  · cases isOwn
    exact changesNamed _ isChange

/-- The tensors stay on their common mesh when they get shardings on it. -/
theorem mesh?_after {signature : Signature} {decision : Decision}
    (isName : signature.mesh? = some name)
    (operands : ∀ change ∈ decision.operandChanges, change.target.mesh = name)
    (results : ∀ change ∈ decision.resultChanges, change.target.mesh = name) :
    (signature.after decision).mesh? = some name := by
  obtain ⟨⟨sharding, present⟩, named⟩ := commonMesh?_eq_some_iff.mp isName
  apply commonMesh?_eq_some_iff.mpr
  rw [Signature.shardings, Signature.operands_after, Signature.results_after]
  constructor
  · obtain ⟨tensor, member, isSharding⟩ := List.mem_map.mp present
    have isSome : tensor.sharding.isSome := by
      rw [isSharding]
      rfl
    rcases List.mem_append.mp member with isOperand | isResult
    · obtain ⟨other, isOther, own, isOwn⟩ := exists_sharding_retargeted _ isOperand isSome
      exact ⟨own, List.mem_map.mpr ⟨other, List.mem_append_left _ isOther, isOwn⟩⟩
    · obtain ⟨other, isOther, own, isOwn⟩ := exists_sharding_retargeted _ isResult isSome
      exact ⟨own, List.mem_map.mpr ⟨other, List.mem_append_right _ isOther, isOwn⟩⟩
  · intro own isOwn
    obtain ⟨tensor, member, isSharding⟩ := List.mem_map.mp isOwn
    rcases List.mem_append.mp member with isOperand | isResult
    · apply mesh_of_retargeted (List.forall_mem_map.mpr operands) ?_ isOperand isSharding
      intro tensor isTensor other isOther
      exact named other (List.mem_map.mpr ⟨tensor, List.mem_append_left _ isTensor, isOther⟩)
    · apply mesh_of_retargeted (List.forall_mem_map.mpr results) ?_ isResult isSharding
      intro tensor isTensor other isOther
      exact named other (List.mem_map.mpr ⟨tensor, List.mem_append_right _ isTensor, isOther⟩)

/-- A revision of an operation with sound tensors is that of its projection. -/
theorem projection_of_revise {signature : Signature} {revision : Revision}
    (sound : ∀ tensor ∈ signature.operands ++ signature.results, tensor.Sound meshes)
    (decided : signature.decision meshes declared = .ok (.revise revision)) :
    ∃ rule name mesh projection, signature.kind ≠ .exit ∧ signature.rule? = some rule ∧
      signature.mesh? = some name ∧ meshes.mesh? name = some mesh ∧
      (∀ tensor ∈ signature.operands ++ signature.results, tensor.DimsSuit mesh) ∧
      Projection.ofSignature mesh rule signature = .ok projection ∧
      revision = projection.revision mesh name rule signature.results := by
  obtain ⟨rule, name, mesh, projection, notExit, isRule, isName, isMesh, isProjection, -, -,
    isRevision⟩ := decision_revise_cases decided
  obtain ⟨own, isOwn, suits⟩ := exists_mesh isName sound
  rw [isMesh] at isOwn
  cases isOwn
  exact ⟨rule, name, mesh, projection, notExit, isRule, isName, isMesh, suits, isProjection,
    isRevision⟩

/-- After a revision the operation has a projection on the same mesh. -/
theorem exists_again {signature : Signature} {rule : FactorRule} {projection : Projection}
    (sound : ∀ tensor ∈ signature.operands ++ signature.results, tensor.Sound meshes)
    (isMesh : meshes.mesh? name = some mesh) (isName : signature.mesh? = some name)
    (isProjection : Projection.ofSignature mesh rule signature = .ok projection)
    (keeps : (Decision.revise (projection.revision mesh name rule signature.results)).Keeps
      (Tensor.Sound meshes) signature) :
    let revised := signature.after (.revise (projection.revision mesh name rule signature.results))
    revised.mesh? = some name ∧ ∃ again, Projection.ofSignature mesh rule revised = .ok again := by
  intro revised
  obtain ⟨suited, operandsRead, resultsRead⟩ := Projection.ofSignature_eq_ok_iff.mp isProjection
  have nameAgain : revised.mesh? = some name := by
    apply mesh?_after isName
    · intro change isChange
      obtain ⟨_, _, _, _, _, isTarget⟩ :=
        (mem_revision_operands_iff suited operandsRead resultsRead).mp isChange
      rw [isTarget]
      rfl
    · intro change isChange
      obtain ⟨_, _, _, _, _, _, _, isTarget, _⟩ :=
        (mem_revision_results_iff suited operandsRead resultsRead).mp isChange
      rw [isTarget]
      rfl
  obtain ⟨ownAgain, isOwnAgain, suitsAgain⟩ := exists_mesh nameAgain (keeps.after sound)
  rw [isMesh] at isOwnAgain
  cases isOwnAgain
  have suitedAgain : revised.SuitedBy rule :=
    Signature.suitedBy_congr (Signature.unsharded_after _).symm suited
  exact ⟨nameAgain, exists_projection suitsAgain suitedAgain⟩

/-- **Carrying out the decision about an operation with a simple rule settles it.** -/
theorem settled_after {signature : Signature} {decision : Decision}
    (simple : ∀ rule, signature.rule? = some rule → rule.IsSimple)
    (sound : ∀ tensor ∈ signature.operands ++ signature.results, tensor.Sound meshes)
    (keeps : decision.Keeps (Tensor.Sound meshes) signature)
    (decided : signature.decision meshes declared = .ok decision) :
    (signature.after decision).Settled meshes declared := by
  cases decision with
  | skip reason => exact ⟨.skip reason, decided, trivial⟩
  | exit changes =>
    obtain ⟨isExit, rfl⟩ := kind_of_decision_exit decided
    refine ⟨.exit [], ?_, rfl⟩
    have afterExit : (signature.after (.exit (exitChanges declared signature.operands))).kind =
        .exit := (Signature.kind_congr (Signature.unsharded_after _)).trans isExit
    rw [decision_of_exit afterExit, Signature.operands_after]
    exact congrArg (Except.ok ∘ Decision.exit) (exitChanges_retargeted signature.operands)
  | revise revision =>
    obtain ⟨rule, name, mesh, projection, notExit, isRule, isName, isMesh, suits, isProjection,
      rfl⟩ := projection_of_revise sound decided
    have sameBut : (signature.after (.revise
        (projection.revision mesh name rule signature.results))).unsharded = signature.unsharded :=
      Signature.unsharded_after _
    obtain ⟨nameAgain, again, isAgain⟩ := exists_again sound isMesh isName isProjection keeps
    have consistent := isConsistent_again (simple rule isRule) suits isProjection isAgain
    refine ⟨_, (decision_of_rule ?_ ((Signature.rule?_congr sameBut).trans isRule) nameAgain).mpr
      ⟨mesh, again, isMesh, isAgain, rfl⟩, Projection.idle_decision_iff.mpr (.inr consistent)⟩
    rw [Signature.kind_congr sameBut]
    exact notExit

end MeshSharding
