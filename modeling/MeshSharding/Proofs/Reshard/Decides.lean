import MeshSharding.Proofs.Reshard.Targets

/-!
# Operations that allow a decision

An operation whose tensors are sound, with a rule that suits it and uses no
factor twice, allows a decision, and the decision keeps tensors sound
(`exists_decision`). A return is decided without a projection: its operands get
the shardings of the declared results, which are sound for tensors of the
declared types.

What is kept is any property that follows tensors to new shardings
(`FollowsShardings`). To be sound is one, and to be sound and to list no
replicated axes is another.
-/

set_option autoImplicit false

namespace MeshSharding

open AxisSequence (Suits)

variable {mesh : Mesh} {name : String} {meshes : SymbolTable} {declared : List Tensor}

namespace Signature

/-- The rule of the operation, if it has one, suits it and uses no factor twice, and a return has
operands of the declared types. -/
def Regular (declared : List Tensor) (signature : Signature) : Prop :=
  (∀ rule, signature.rule? = some rule → signature.SuitedBy rule ∧ rule.UsesFactorsOnce) ∧
    (signature.kind = .exit → signature.operands.map Tensor.type = declared.map Tensor.type)

end Signature

/-- A property of sound tensors that new shardings keep: those on a declared mesh that the
dimensions suit and that list replicated axes only if there were some, and those of another tensor
of the same type that has the property. -/
structure FollowsShardings (meshes : SymbolTable) (Good : Tensor → Prop) : Prop where
  sound : ∀ {tensor : Tensor}, Good tensor → tensor.Sound meshes
  retarget : ∀ {tensor : Tensor} {sharding : TensorSharding} {mesh : Mesh}, Good tensor →
    meshes.mesh? sharding.mesh = some mesh → sharding.DimsSuit mesh tensor.rank →
    (tensor.Bare → sharding.replicated = []) → Good (tensor.withSharding sharding)
  transfer : ∀ {tensor other : Tensor} {sharding : TensorSharding}, Good other →
    tensor.type = other.type → other.sharding = some sharding → Good (tensor.withSharding sharding)

theorem Tensor.withSharding_of_type_eq {tensor other : Tensor} {sharding : TensorSharding}
    (sameType : tensor.type = other.type) (present : other.sharding = some sharding) :
    tensor.withSharding sharding = other := by
  cases other
  cases present
  exact congrArg (Tensor.mk · (some sharding)) sameType

theorem followsShardings_sound (meshes : SymbolTable) :
    FollowsShardings meshes (Tensor.Sound meshes) where
  sound sound := sound
  retarget _ declared suits _ := Tensor.sound_withSharding declared suits
  transfer sound sameType present := by
    rw [Tensor.withSharding_of_type_eq sameType present]
    exact sound

theorem followsShardings_bare (meshes : SymbolTable) :
    FollowsShardings meshes fun tensor => tensor.Sound meshes ∧ tensor.Bare where
  sound good := good.1
  retarget good declared suits bare :=
    ⟨Tensor.sound_withSharding declared suits, Tensor.bare_withSharding (bare good.2)⟩
  transfer good sameType present := by
    rw [Tensor.withSharding_of_type_eq sameType present]
    exact good

/-- A decision that changes nothing keeps everything. -/
theorem Decision.keeps_skip {Good : Tensor → Prop} {signature : Signature} (reason : SkipReason) :
    (Decision.skip reason).Keeps Good signature :=
  ⟨fun _ member => absurd member List.not_mem_nil, fun _ member => absurd member List.not_mem_nil,
    List.nodup_nil⟩

/-! ## Along a rule -/

/-- A tensor that suits the mesh is read along its mapping. -/
theorem Tensor.DimsSuit.along {sizes : List Nat} {mapping : TensorMapping} {tensor : Tensor}
    {projection : TensorProjection} (suits : tensor.DimsSuit mesh)
    (isRead : TensorProjection.ofSharding mesh sizes mapping tensor.sharding = .ok projection)
    (below : ∀ factor ∈ mapping.factors, factor < sizes.length)
    (distinct : mapping.factors.Nodup) : projection.Along mesh sizes.length mapping := by
  obtain ⟨read, alsoRead, along⟩ := TensorProjection.ofSharding_spec suits.suits below distinct
  rw [isRead] at alsoRead
  cases alsoRead
  exact along

/-- Tensors that suit the mesh are read along their mappings. -/
theorem ReadAs.along {sizes : List Nat} {mappings : List TensorMapping} {tensors : List Tensor}
    {projections : List TensorProjection} (reads : ReadAs mesh sizes mappings tensors projections)
    (suits : ∀ tensor ∈ tensors, tensor.DimsSuit mesh) {index : Nat} {mapping : TensorMapping}
    {projection : TensorProjection} (isMapping : mappings[index]? = some mapping)
    (found : projections[index]? = some projection)
    (below : ∀ factor ∈ mapping.factors, factor < sizes.length)
    (distinct : mapping.factors.Nodup) : projection.Along mesh sizes.length mapping := by
  obtain ⟨own, tensor, isOwn, isTensor, isRead⟩ := reads.of_projection found
  rw [isMapping] at isOwn
  cases isOwn
  exact (suits tensor (List.mem_of_getElem? isTensor)).along isRead below distinct

/-- Replicated axes are read as they are. -/
theorem replicated_of_read {sizes : List Nat} {mapping : TensorMapping} {tensor : Tensor}
    {projection : TensorProjection}
    (isRead : TensorProjection.ofSharding mesh sizes mapping tensor.sharding = .ok projection)
    (bare : tensor.Bare) : projection.replicated = [] := by
  obtain ⟨entries, -, rfl⟩ := TensorProjection.ofSharding_eq_ok_iff.mp isRead
  cases present : tensor.sharding with
  | none => rfl
  | some sharding => exact bare sharding present

section Rule

variable {rule : FactorRule} {signature : Signature}
  (suits : ∀ tensor ∈ signature.operands ++ signature.results, tensor.DimsSuit mesh)
include suits

/-- An operation whose tensors suit the mesh has a projection. -/
theorem exists_projection (suited : signature.SuitedBy rule) :
    ∃ projection, Projection.ofSignature mesh rule signature = .ok projection := by
  have readable {mapping : TensorMapping} {tensor : Tensor}
      (isMapping : mapping ∈ rule.operands ++ rule.results)
      (isTensor : tensor ∈ signature.operands ++ signature.results) :
      ∃ projection, TensorProjection.ofSharding mesh rule.sizes mapping tensor.sharding =
        .ok projection :=
    TensorProjection.exists_ofSharding (suits tensor isTensor).suits
      (rule.mapped_lt mapping isMapping)
  obtain ⟨operands, operandsRead⟩ := exists_readAs suited.operand_count
    fun _ _ _ isMapping isTensor => readable
      (List.mem_append_left _ (List.mem_of_getElem? isMapping))
      (List.mem_append_left _ (List.mem_of_getElem? isTensor))
  obtain ⟨results, resultsRead⟩ := exists_readAs suited.result_count
    fun _ _ _ isMapping isTensor => readable
      (List.mem_append_right _ (List.mem_of_getElem? isMapping))
      (List.mem_append_right _ (List.mem_of_getElem? isTensor))
  exact ⟨⟨operands, results⟩,
    Projection.ofSignature_eq_ok_iff.mpr ⟨suited, operandsRead, resultsRead⟩⟩

variable (once : rule.UsesFactorsOnce) {projection : Projection}
  (isProjection : Projection.ofSignature mesh rule signature = .ok projection)
include once isProjection

theorem along_operand {index : Nat} {mapping : TensorMapping} {tensor : TensorProjection}
    (isMapping : rule.operands[index]? = some mapping)
    (found : projection.operands[index]? = some tensor) :
    tensor.Along mesh rule.sizes.length mapping := by
  obtain ⟨-, operandsRead, -⟩ := Projection.ofSignature_eq_ok_iff.mp isProjection
  have inRule : mapping ∈ rule.operands ++ rule.results :=
    List.mem_append_left _ (List.mem_of_getElem? isMapping)
  exact operandsRead.along (fun tensor member => suits tensor (List.mem_append_left _ member))
    isMapping found (rule.mapped_lt mapping inRule) (once mapping inRule)

theorem along_result {index : Nat} {mapping : TensorMapping} {tensor : TensorProjection}
    (isMapping : rule.results[index]? = some mapping)
    (found : projection.results[index]? = some tensor) :
    tensor.Along mesh rule.sizes.length mapping := by
  obtain ⟨-, -, resultsRead⟩ := Projection.ofSignature_eq_ok_iff.mp isProjection
  have inRule : mapping ∈ rule.operands ++ rule.results :=
    List.mem_append_right _ (List.mem_of_getElem? isMapping)
  exact resultsRead.along (fun tensor member => suits tensor (List.mem_append_right _ member))
    isMapping found (rule.mapped_lt mapping inRule) (once mapping inRule)

/-- The axes of every factor suit the mesh in every tensor. -/
theorem suits_axesOf : ∀ tensor ∈ projection.tensors, ∀ factor,
    Suits mesh (tensor.axesOf factor) := by
  intro own isOwn factor
  obtain ⟨mapping, inRule, tensor, isTensor, isRead⟩ := Projection.read_of_mem isProjection isOwn
  exact ((suits tensor isTensor).along isRead (rule.mapped_lt mapping inRule)
    (once mapping inRule)).suits_axesOf factor

variable {Good : Tensor → Prop} (follows : FollowsShardings meshes Good)
  (isMesh : meshes.mesh? name = some mesh)
  (good : ∀ tensor ∈ signature.operands ++ signature.results, Good tensor)
include follows isMesh good

/-- Operands are brought to good shardings. -/
theorem good_of_operandChange {change : OperandChange}
    (isChange : change ∈ (projection.revision mesh name rule signature.results).operands)
    {tensor : Tensor} (found : signature.operands[change.slot]? = some tensor) :
    Good (tensor.withSharding change.target) := by
  have each := suits_axesOf suits once isProjection
  obtain ⟨suited, operandsRead, resultsRead⟩ := Projection.ofSignature_eq_ok_iff.mp isProjection
  obtain ⟨own, mapping, isOwn, isMapping, -, isTarget⟩ :=
    (mem_revision_operands_iff suited operandsRead resultsRead).mp isChange
  rw [isTarget]
  refine follows.retarget (good tensor (List.mem_append_left _ (List.mem_of_getElem? found))) isMesh
    ?_ ?_
  · rw [← suited.operand_rank isMapping found]
    exact dimsSuit_retargeted (List.mem_append_left _ (List.mem_of_getElem? isMapping)) once
      (along_operand suits once isProjection isMapping isOwn) each
  · intro bare
    rw [replicated_retargeted]
    exact replicated_of_read
      (operandsRead.each change.slot mapping tensor own isMapping found isOwn) bare

/-- Results are brought to good shardings, and the shardings that they are brought back to are good
as well. -/
theorem good_of_resultChange {change : ResultChange}
    (isChange : change ∈ (projection.revision mesh name rule signature.results).results)
    {tensor : Tensor} (found : signature.results[change.index]? = some tensor) :
    Good (tensor.withSharding change.target) ∧ Good (tensor.withSharding change.restored) := by
  have each := suits_axesOf suits once isProjection
  obtain ⟨suited, operandsRead, resultsRead⟩ := Projection.ofSignature_eq_ok_iff.mp isProjection
  obtain ⟨before, own, mapping, isBefore, isOwn, isMapping, -, isTarget, isRestored⟩ :=
    (mem_revision_results_iff suited operandsRead resultsRead).mp isChange
  rw [found] at isBefore
  cases isBefore
  have goodResult := good tensor (List.mem_append_right _ (List.mem_of_getElem? found))
  constructor
  · rw [isTarget]
    refine follows.retarget goodResult isMesh ?_ ?_
    · rw [← suited.result_rank isMapping found]
      exact dimsSuit_retargeted (List.mem_append_right _ (List.mem_of_getElem? isMapping)) once
        (along_result suits once isProjection isMapping isOwn) each
    · intro bare
      rw [replicated_retargeted]
      exact replicated_of_read
        (resultsRead.each change.index mapping tensor own isMapping found isOwn) bare
  · rw [isRestored]
    cases present : tensor.sharding with
    | none =>
      exact follows.retarget goodResult isMesh
        (TensorSharding.dimsSuit_fullyOpen name tensor.rank) fun _ => rfl
    | some sharding => exact follows.transfer goodResult rfl present

/-- A revision keeps a property that follows shardings. -/
theorem keeps_revision :
    (Decision.revise (projection.revision mesh name rule signature.results)).Keeps Good
      signature where
  operand _ isChange _ found :=
    good_of_operandChange suits once isProjection follows isMesh good isChange found
  result _ isChange _ found :=
    good_of_resultChange suits once isProjection follows isMesh good isChange found
  distinct := (indices_resultChanges_sublist _).nodup (ChangeSet.positions_nodup _)

/-- The decision along a rule keeps a property that follows shardings. -/
theorem keeps_projection_decision :
    (projection.decision mesh name rule signature.results).Keeps Good signature := by
  unfold Projection.decision
  split
  · exact Decision.keeps_skip _
  · split
    · exact Decision.keeps_skip _
    · exact keeps_revision suits once isProjection follows isMesh good

end Rule

/-! ## Returns -/

theorem mem_exitChanges_iff {returned : List Tensor} {change : OperandChange} :
    change ∈ exitChanges declared returned ↔ ∃ tensor, returned[change.slot]? = some tensor ∧
      exitTarget? (declared[change.slot]?.bind Tensor.sharding) tensor.sharding =
        some change.target := by
  simp only [exitChanges, List.mem_filterMap, Prod.exists, Option.map_eq_some_iff,
    List.mk_mem_zipIdx_iff_getElem?]
  constructor
  · rintro ⟨tensor, slot, found, target, isTarget, rfl⟩
    exact ⟨tensor, found, isTarget⟩
  · rintro ⟨tensor, found, isTarget⟩
    exact ⟨tensor, change.slot, found, change.target, isTarget, rfl⟩

/-- A returned value is brought to the declared sharding or loses its axes. -/
theorem exitTarget?_cases {wanted current : Option TensorSharding} {target : TensorSharding}
    (isTarget : exitTarget? wanted current = some target) :
    wanted = some target ∨
      wanted = none ∧ ∃ sharding, current = some sharding ∧
        target = sharding.fullyReplicatedLike := by
  unfold exitTarget? at isTarget
  split at isTarget
  · cases isTarget
  · split at isTarget
    · cases isTarget
    · cases wanted with
      | some sharding => exact .inl isTarget
      | none =>
        obtain ⟨sharding, isCurrent, rfl⟩ := Option.map_eq_some_iff.mp isTarget
        exact .inr ⟨rfl, sharding, isCurrent, rfl⟩

theorem keeps_exit {Good : Tensor → Prop} (follows : FollowsShardings meshes Good)
    (goodDeclared : ∀ tensor ∈ declared, Good tensor) {signature : Signature}
    (sameTypes : signature.operands.map Tensor.type = declared.map Tensor.type)
    (good : ∀ tensor ∈ signature.operands, Good tensor) :
    (Decision.exit (exitChanges declared signature.operands)).Keeps Good signature := by
  refine ⟨?_, fun _ member => absurd member List.not_mem_nil, List.nodup_nil⟩
  intro change isChange tensor found
  have goodTensor := good tensor (List.mem_of_getElem? found)
  obtain ⟨own, isOwn, isTarget⟩ := mem_exitChanges_iff.mp isChange
  rw [found] at isOwn
  cases isOwn
  rcases exitTarget?_cases isTarget with isWanted | ⟨-, sharding, isCurrent, isReplicated⟩
  · obtain ⟨result, isResult, isSharding⟩ := Option.bind_eq_some_iff.mp isWanted
    have sameType : tensor.type = result.type := by
      have types := congrArg (·[change.slot]?) sameTypes
      simp only [List.getElem?_map, found, isResult, Option.map_some] at types
      exact Option.some.inj types
    exact follows.transfer (goodDeclared result (List.mem_of_getElem? isResult)) sameType isSharding
  · obtain ⟨mesh, isMesh, suits⟩ := follows.sound goodTensor sharding isCurrent
    rw [isReplicated]
    refine follows.retarget goodTensor isMesh ?_ fun _ => rfl
    rw [← suits.rank_eq]
    exact TensorSharding.dimsSuit_fullyReplicated sharding.mesh sharding.rank

/-! ## Every operation -/

/-- The name that sound tensors give to their mesh is declared, and their dimensions suit the
mesh. -/
theorem exists_mesh {signature : Signature} (isName : signature.mesh? = some name)
    (sound : ∀ tensor ∈ signature.operands ++ signature.results, tensor.Sound meshes) :
    ∃ mesh, meshes.mesh? name = some mesh ∧
      ∀ tensor ∈ signature.operands ++ signature.results, tensor.DimsSuit mesh := by
  obtain ⟨⟨sharding, present⟩, named⟩ := commonMesh?_eq_some_iff.mp isName
  obtain ⟨tensor, isTensor, isSharding⟩ := List.mem_map.mp present
  obtain ⟨mesh, isMesh, -⟩ := sound tensor isTensor sharding isSharding
  rw [named sharding present] at isMesh
  refine ⟨mesh, isMesh, fun other isOther => (sound other isOther).dimsSuit isMesh ?_⟩
  intro otherSharding otherPresent
  exact named otherSharding (List.mem_map.mpr ⟨other, isOther, otherPresent⟩)

/-- **A regular operation with good tensors allows a decision, and the decision keeps tensors
good.** -/
theorem exists_decision {Good : Tensor → Prop} (follows : FollowsShardings meshes Good)
    (goodDeclared : ∀ tensor ∈ declared, Good tensor) {signature : Signature}
    (regular : signature.Regular declared)
    (good : ∀ tensor ∈ signature.operands ++ signature.results, Good tensor) :
    ∃ decision, signature.decision meshes declared = .ok decision ∧
      decision.Keeps Good signature := by
  by_cases isExit : signature.kind = .exit
  · exact ⟨_, decision_of_exit isExit, keeps_exit follows goodDeclared (regular.2 isExit)
      fun tensor member => good tensor (List.mem_append_left _ member)⟩
  · cases isRule : signature.rule? with
    | none => exact ⟨_, decision_of_noRule isExit isRule, Decision.keeps_skip _⟩
    | some rule =>
      cases isName : signature.mesh? with
      | none => exact ⟨_, decision_of_noMesh isExit isRule isName, Decision.keeps_skip _⟩
      | some name =>
        obtain ⟨suited, once⟩ := regular.1 rule isRule
        obtain ⟨mesh, isMesh, suits⟩ := exists_mesh isName
          fun tensor member => follows.sound (good tensor member)
        obtain ⟨projection, isProjection⟩ := exists_projection suits suited
        exact ⟨_, (decision_of_rule isExit isRule isName).mpr
            ⟨mesh, projection, isMesh, isProjection, rfl⟩,
          keeps_projection_decision suits once isProjection follows isMesh good⟩

end MeshSharding
