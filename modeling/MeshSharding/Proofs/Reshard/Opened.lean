import MeshSharding.Proofs.Reshard.Settled

/-!
# Opened operands

A tensor without a sharding is read as fully open, so it makes little difference
if it gets a fully open sharding. A signature opens to another one if they
differ only in that some operands without a sharding have got such a one
(`Signature.OpensTo`).

The two signatures have the same rule, the same projections and, if they are of
a return, the same changes. A revision is decided for both or for none
(`Signature.OpensTo.revise`): where no tensor has a sharding, all agree, so only
an operation with shardings is ever revised, and these already name the mesh. If
all shardings are on one mesh, all decisions about the two change the same
(`Signature.OpensTo.decides_alike`).
-/

set_option autoImplicit false

namespace MeshSharding

variable {names : String → Prop} {mesh : Mesh} {meshes : SymbolTable} {declared : List Tensor}

/-! ## Tensors -/

/-- The tensor is as it was, or it had no sharding and has got a fully open one. -/
def Tensor.OpensTo (names : String → Prop) (old new : Tensor) : Prop :=
  new = old ∨ old.sharding = none ∧
    ∃ name, names name ∧ new = old.withSharding (.fullyOpen name old.rank)

namespace Tensor.OpensTo

variable {old between new : Tensor}

theorem refl (tensor : Tensor) : tensor.OpensTo names tensor := .inl rfl

theorem trans (first : old.OpensTo names between) (second : between.OpensTo names new) :
    old.OpensTo names new := by
  rcases second with rfl | ⟨unsharded, name, allowed, rfl⟩
  · exact first
  · rcases first with rfl | ⟨-, _, -, rfl⟩
    · exact .inr ⟨unsharded, name, allowed, rfl⟩
    · cases unsharded

theorem mono {wider : String → Prop} (opened : old.OpensTo names new)
    (within : ∀ name, names name → wider name) : old.OpensTo wider new := by
  rcases opened with same | ⟨unsharded, name, allowed, isNew⟩
  · exact .inl same
  · exact .inr ⟨unsharded, name, within name allowed, isNew⟩

theorem type_eq (opened : old.OpensTo names new) : new.type = old.type := by
  rcases opened with rfl | ⟨-, _, -, rfl⟩ <;> rfl

/-- A sharding stays what it is. -/
theorem sharding_eq (opened : old.OpensTo names new) {sharding : TensorSharding}
    (present : old.sharding = some sharding) : new.sharding = some sharding := by
  rcases opened with rfl | ⟨unsharded, _, -, rfl⟩
  · exact present
  · rw [present] at unsharded
    cases unsharded

/-- A sharding has been there or is fully open on a mesh of an allowed name. -/
theorem of_sharding (opened : old.OpensTo names new) {sharding : TensorSharding}
    (present : new.sharding = some sharding) :
    old.sharding = some sharding ∨ old.sharding = none ∧ names sharding.mesh ∧
      sharding = .fullyOpen sharding.mesh old.rank := by
  rcases opened with rfl | ⟨unsharded, name, allowed, rfl⟩
  · exact .inl present
  · cases present
    exact .inr ⟨unsharded, allowed, rfl⟩

/-- Another sharding makes the same of both. -/
theorem withSharding (opened : old.OpensTo names new) (sharding : TensorSharding) :
    (old.withSharding sharding).OpensTo names (new.withSharding sharding) :=
  .inl (congrArg (Tensor.mk · (some sharding)) opened.type_eq)

/-- The sharding that a result is brought back to, fully open if it had none, opens it. -/
theorem restored (tensor : Tensor) {name : String} (allowed : names name) :
    tensor.OpensTo names
      (tensor.withSharding (tensor.sharding.getD (.fullyOpen name tensor.rank))) := by
  cases present : tensor.sharding with
  | none => exact .inr ⟨present, name, allowed, rfl⟩
  | some sharding =>
    refine .inl ?_
    cases tensor
    cases present
    rfl

end Tensor.OpensTo

/-! ## Reading a tensor that has no axes -/

/-- Dimensions that are open and without axes are read like missing ones. -/
theorem tensorEntries_replicate_open (sizes : List Nat) (mapping : TensorMapping) (rank : Nat) :
    tensorEntries mesh sizes (List.replicate rank .openEmpty) mapping =
      tensorEntries mesh sizes [] mapping := by
  induction mapping generalizing rank with
  | nil => rfl
  | cons factors rest ih =>
    cases rank with
    | zero => rfl
    | succ rank =>
      simp only [tensorEntries, List.replicate_succ, List.head?_cons, List.tail_cons,
        Option.getD_some, ih rank, List.head?_nil, Option.getD_none, List.tail_nil]

theorem Tensor.OpensTo.read_eq {old new : Tensor} (opened : old.OpensTo names new)
    (sizes : List Nat) (mapping : TensorMapping) :
    TensorProjection.ofSharding mesh sizes mapping new.sharding =
      TensorProjection.ofSharding mesh sizes mapping old.sharding := by
  rcases opened with rfl | ⟨unsharded, name, -, rfl⟩
  · rfl
  · simp only [TensorProjection.ofSharding, Tensor.withSharding, unsharded, Option.map_some,
      Option.map_none, Option.getD_some, Option.getD_none, TensorSharding.fullyOpen,
      tensorEntries_replicate_open]

/-- The factors of a tensor without a sharding have no axes. -/
theorem allAxes_of_unsharded {sizes : List Nat} {mapping : TensorMapping}
    {projection : TensorProjection}
    (isRead : TensorProjection.ofSharding mesh sizes mapping none = .ok projection) :
    ∀ entry ∈ projection.entries, entry.2.axes = [] ∧ entry.2.overflow = [] := by
  obtain ⟨entries, entriesOk, rfl⟩ := TensorProjection.ofSharding_eq_ok_iff.mp isRead
  intro entry isEntry
  obtain ⟨_, _, own, -, ownOk, isOwn⟩ :=
    mem_tensorEntries entriesOk (mem_of_filledSlots (TensorProjection.mem_entries_iff.mp isEntry))
  simp only [Option.map_none, Option.getD_none, List.getElem?_nil] at ownOk
  exact dimEntries_nil ownOk entry isOwn

/-- If no sharding is present, no tensor has one. -/
theorem Signature.sharding_eq_none {signature : Signature}
    (unsharded : ¬ ∃ sharding, some sharding ∈ signature.shardings) :
    ∀ tensor ∈ signature.operands ++ signature.results, tensor.sharding = none := by
  intro tensor isTensor
  cases present : tensor.sharding with
  | none => rfl
  | some sharding =>
    exact absurd ⟨sharding, List.mem_map.mpr ⟨tensor, isTensor, present⟩⟩ unsharded

/-- Tensors without shardings agree and nothing overflows. -/
theorem isConsistent_of_unsharded {rule : FactorRule} {signature : Signature}
    {projection : Projection}
    (isProjection : Projection.ofSignature mesh rule signature = .ok projection)
    (unsharded : ∀ tensor ∈ signature.operands ++ signature.results, tensor.sharding = none) :
    ¬ projection.Overflows ∧ projection.IsConsistent := by
  have nothing : ∀ tensor ∈ projection.tensors, ∀ entry ∈ tensor.entries,
      entry.2.axes = [] ∧ entry.2.overflow = [] := by
    intro own isOwn
    obtain ⟨_, -, tensor, isTensor, isRead⟩ := Projection.read_of_mem isProjection isOwn
    rw [unsharded tensor isTensor] at isRead
    exact allAxes_of_unsharded isRead
  constructor
  · rintro ⟨tensor, isTensor, entry, isEntry, beyond⟩
    exact beyond (nothing tensor isTensor entry isEntry).2
  · intro first isFirst second isSecond entry isEntry other isOther _
    rw [(nothing first isFirst entry isEntry).1, (nothing second isSecond other isOther).1]

/-! ## Signatures -/

/-- Kind, rule and results are the same, and each operand is as it was or has been opened. -/
structure Signature.OpensTo (names : String → Prop) (old new : Signature) : Prop where
  kind_eq : new.kind = old.kind
  attached_eq : new.attached = old.attached
  results_eq : new.results = old.results
  count_eq : new.operands.length = old.operands.length
  operand : ∀ (slot : Nat) (before after : Tensor), old.operands[slot]? = some before →
    new.operands[slot]? = some after → before.OpensTo names after

namespace Signature.OpensTo

theorem refl (signature : Signature) : signature.OpensTo names signature where
  kind_eq := rfl
  attached_eq := rfl
  results_eq := rfl
  count_eq := rfl
  operand slot before after isBefore isAfter := by
    rw [isBefore] at isAfter
    cases isAfter
    exact .refl before

variable {old new : Signature} (opened : old.OpensTo names new)
include opened

/-- Every operand has come from one. -/
theorem operand_of_new {slot : Nat} {after : Tensor} (isAfter : new.operands[slot]? = some after) :
    ∃ before, old.operands[slot]? = some before ∧ before.OpensTo names after := by
  have below : slot < old.operands.length := by
    rw [← opened.count_eq]
    exact (List.getElem?_eq_some_iff.mp isAfter).1
  have isBefore := List.getElem?_eq_getElem below
  exact ⟨_, isBefore, opened.operand slot _ after isBefore isAfter⟩

/-- Every operand has become one. -/
theorem operand_of_old {slot : Nat} {before : Tensor}
    (isBefore : old.operands[slot]? = some before) :
    ∃ after, new.operands[slot]? = some after ∧ before.OpensTo names after := by
  have below : slot < new.operands.length := by
    rw [opened.count_eq]
    exact (List.getElem?_eq_some_iff.mp isBefore).1
  have isAfter := List.getElem?_eq_getElem below
  exact ⟨_, isAfter, opened.operand slot before _ isBefore isAfter⟩

theorem trans {later : Signature} (next : new.OpensTo names later) : old.OpensTo names later where
  kind_eq := next.kind_eq.trans opened.kind_eq
  attached_eq := next.attached_eq.trans opened.attached_eq
  results_eq := next.results_eq.trans opened.results_eq
  count_eq := next.count_eq.trans opened.count_eq
  operand slot before after isBefore isAfter := by
    obtain ⟨between, isBetween, first⟩ := opened.operand_of_old isBefore
    exact first.trans (next.operand slot between after isBetween isAfter)

theorem mono {wider : String → Prop} (within : ∀ name, names name → wider name) :
    old.OpensTo wider new where
  kind_eq := opened.kind_eq
  attached_eq := opened.attached_eq
  results_eq := opened.results_eq
  count_eq := opened.count_eq
  operand slot before after isBefore isAfter :=
    (opened.operand slot before after isBefore isAfter).mono within

/-- What is read alike off a tensor and what it opens to is read alike off the operands. -/
theorem getElem?_map_eq {α : Type} {read : Tensor → α}
    (alike : ∀ before after : Tensor, before.OpensTo names after → read after = read before)
    (slot : Nat) : new.operands[slot]?.map read = old.operands[slot]?.map read := by
  cases isAfter : new.operands[slot]? with
  | none =>
    rw [List.getElem?_eq_none_iff, opened.count_eq] at isAfter
    rw [List.getElem?_eq_none isAfter]
  | some after =>
    obtain ⟨before, isBefore, tensorOpened⟩ := opened.operand_of_new isAfter
    rw [isBefore]
    exact congrArg some (alike before after tensorOpened)

theorem unsharded_eq : new.unsharded = old.unsharded := by
  have sameOperands : new.operands.map Tensor.unsharded = old.operands.map Tensor.unsharded := by
    apply List.ext_getElem?
    intro slot
    rw [List.getElem?_map, List.getElem?_map]
    refine opened.getElem?_map_eq (fun before after tensorOpened => ?_) slot
    exact congrArg (Tensor.mk · none) tensorOpened.type_eq
  rw [Signature.unsharded, Signature.unsharded, opened.kind_eq, opened.attached_eq,
    opened.results_eq, sameOperands]

theorem rule?_eq : new.rule? = old.rule? :=
  Signature.rule?_congr opened.unsharded_eq

/-- The same change of an operand makes signatures of which one opens to the other again. -/
theorem withOperand (change : OperandChange) :
    (old.withOperand change).OpensTo names (new.withOperand change) where
  kind_eq := opened.kind_eq
  attached_eq := opened.attached_eq
  results_eq := opened.results_eq
  count_eq := by
    simp only [Signature.withOperand, List.length_modify, opened.count_eq]
  operand slot before after isBefore isAfter := by
    simp only [Signature.withOperand, List.getElem?_modify] at isBefore isAfter
    obtain ⟨first, isFirst, rfl⟩ := Option.map_eq_some_iff.mp isBefore
    obtain ⟨second, isSecond, rfl⟩ := Option.map_eq_some_iff.mp isAfter
    have tensorOpened := opened.operand slot first second isFirst isSecond
    split
    · exact tensorOpened.withSharding change.target
    · exact tensorOpened

theorem withResult (change : ResultChange) :
    (old.withResult change).OpensTo names (new.withResult change) where
  kind_eq := opened.kind_eq
  attached_eq := opened.attached_eq
  results_eq := by simp only [Signature.withResult, opened.results_eq]
  count_eq := opened.count_eq
  operand := opened.operand

omit opened in
theorem withOperands (changes : List OperandChange) {old new : Signature}
    (opened : old.OpensTo names new) :
    (changes.foldl Signature.withOperand old).OpensTo names
      (changes.foldl Signature.withOperand new) := by
  induction changes generalizing old new with
  | nil => exact opened
  | cons change rest ih => exact ih (opened.withOperand change)

omit opened in
theorem withResults (changes : List ResultChange) {old new : Signature}
    (opened : old.OpensTo names new) :
    (changes.foldl Signature.withResult old).OpensTo names
      (changes.foldl Signature.withResult new) := by
  induction changes generalizing old new with
  | nil => exact opened
  | cons change rest ih => exact ih (opened.withResult change)

/-- The same decision makes signatures of which one opens to the other again. -/
theorem after (decision : Decision) :
    (old.after decision).OpensTo names (new.after decision) :=
  withResults _ (withOperands _ opened)

/-! ## Shardings -/

/-- Every sharding stays. -/
theorem sharding_of_old {sharding : TensorSharding} (present : some sharding ∈ old.shardings) :
    some sharding ∈ new.shardings := by
  obtain ⟨tensor, isTensor, isSharding⟩ := List.mem_map.mp present
  rcases List.mem_append.mp isTensor with isOperand | isResult
  · obtain ⟨slot, isBefore⟩ := List.mem_iff_getElem?.mp isOperand
    obtain ⟨after, isAfter, tensorOpened⟩ := opened.operand_of_old isBefore
    exact List.mem_map.mpr ⟨after, List.mem_append_left _ (List.mem_of_getElem? isAfter),
      tensorOpened.sharding_eq isSharding⟩
  · rw [← opened.results_eq] at isResult
    exact List.mem_map.mpr ⟨tensor, List.mem_append_right _ isResult, isSharding⟩

/-- A sharding has been there or is on a mesh of an allowed name. -/
theorem sharding_of_new {sharding : TensorSharding} (present : some sharding ∈ new.shardings) :
    some sharding ∈ old.shardings ∨ names sharding.mesh := by
  obtain ⟨tensor, isTensor, isSharding⟩ := List.mem_map.mp present
  rcases List.mem_append.mp isTensor with isOperand | isResult
  · obtain ⟨slot, isAfter⟩ := List.mem_iff_getElem?.mp isOperand
    obtain ⟨before, isBefore, tensorOpened⟩ := opened.operand_of_new isAfter
    rcases tensorOpened.of_sharding isSharding with same | ⟨-, allowed, -⟩
    · exact .inl (List.mem_map.mpr
        ⟨before, List.mem_append_left _ (List.mem_of_getElem? isBefore), same⟩)
    · exact .inr allowed
  · rw [opened.results_eq] at isResult
    exact .inl (List.mem_map.mpr ⟨tensor, List.mem_append_right _ isResult, isSharding⟩)

/-- A signature with shardings has the common mesh of those that it opens to. -/
theorem mesh?_of_new {name : String} (isName : new.mesh? = some name)
    (sharded : ∃ sharding, some sharding ∈ old.shardings) : old.mesh? = some name :=
  commonMesh?_eq_some_iff.mpr ⟨sharded, fun sharding present =>
    (commonMesh?_eq_some_iff.mp isName).2 sharding (opened.sharding_of_old present)⟩

omit opened in
/-- Operands that are opened on the common mesh leave it the common mesh. -/
theorem mesh?_of_old {name : String} (opened : old.OpensTo (· = name) new)
    (isName : old.mesh? = some name) : new.mesh? = some name := by
  obtain ⟨⟨sharding, present⟩, named⟩ := commonMesh?_eq_some_iff.mp isName
  refine commonMesh?_eq_some_iff.mpr ⟨⟨sharding, opened.sharding_of_old present⟩, ?_⟩
  intro other isOther
  exact (opened.sharding_of_new isOther).elim (named other) id

/-! ## Decisions -/

theorem readAs_iff {sizes : List Nat} {mappings : List TensorMapping}
    {projections : List TensorProjection} :
    ReadAs mesh sizes mappings new.operands projections ↔
      ReadAs mesh sizes mappings old.operands projections := by
  constructor
  · rintro ⟨mappingCount, count, each⟩
    refine ⟨mappingCount.trans opened.count_eq, count.trans opened.count_eq, ?_⟩
    intro slot mapping before projection isMapping isBefore isProjection
    obtain ⟨after, isAfter, tensorOpened⟩ := opened.operand_of_old isBefore
    rw [← tensorOpened.read_eq]
    exact each slot mapping after projection isMapping isAfter isProjection
  · rintro ⟨mappingCount, count, each⟩
    refine ⟨mappingCount.trans opened.count_eq.symm, count.trans opened.count_eq.symm, ?_⟩
    intro slot mapping after projection isMapping isAfter isProjection
    obtain ⟨before, isBefore, tensorOpened⟩ := opened.operand_of_new isAfter
    rw [tensorOpened.read_eq]
    exact each slot mapping before projection isMapping isBefore isProjection

/-- The two have the same projections. -/
theorem projection_iff {rule : FactorRule} {projection : Projection} :
    Projection.ofSignature mesh rule new = .ok projection ↔
      Projection.ofSignature mesh rule old = .ok projection := by
  have suited : new.SuitedBy rule ↔ old.SuitedBy rule :=
    ⟨Signature.suitedBy_congr opened.unsharded_eq,
      Signature.suitedBy_congr opened.unsharded_eq.symm⟩
  rw [Projection.ofSignature_eq_ok_iff, Projection.ofSignature_eq_ok_iff, suited,
    opened.readAs_iff, opened.results_eq]

/-- With the same common mesh the same is decided by a rule. -/
theorem decision_of_mesh {rule : FactorRule} {name : String} {decision : Decision}
    (notExit : old.kind ≠ .exit) (isRule : old.rule? = some rule)
    (oldName : old.mesh? = some name) (newName : new.mesh? = some name) :
    new.decision meshes declared = .ok decision ↔ old.decision meshes declared = .ok decision := by
  rw [decision_of_rule (by rwa [opened.kind_eq]) (opened.rule?_eq.trans isRule) newName,
    decision_of_rule notExit isRule oldName, opened.results_eq]
  simp only [opened.projection_iff]

/-- **A revision of an opened operation is one of the operation as it was.** -/
theorem revise {revision : Revision}
    (decided : new.decision meshes declared = .ok (.revise revision)) :
    old.decision meshes declared = .ok (.revise revision) := by
  obtain ⟨rule, name, mesh, projection, notExit, isRule, isName, -, isProjection, -, disagree, -⟩ :=
    decision_revise_cases decided
  rw [opened.kind_eq] at notExit
  rw [opened.rule?_eq] at isRule
  by_cases sharded : ∃ sharding, some sharding ∈ old.shardings
  · exact (opened.decision_of_mesh notExit isRule (opened.mesh?_of_new isName sharded) isName).mp
      decided
  · -- without shardings all tensors agree
    exact absurd (isConsistent_of_unsharded (opened.projection_iff.mp isProjection)
      (Signature.sharding_eq_none sharded)).2 disagree

end Signature.OpensTo

/-! ## Decisions on one mesh -/

/-- A value that is fully replicated is brought to anything declared that is not. -/
theorem exitTarget?_of_replicated {wanted current : Option TensorSharding}
    (replicated : TensorSharding.IsFullyReplicated current) :
    exitTarget? wanted current =
      if TensorSharding.IsFullyReplicated wanted then none else wanted := by
  unfold exitTarget?
  by_cases bothReplicated : TensorSharding.IsFullyReplicated wanted
  · rw [if_pos ⟨replicated, bothReplicated⟩, if_pos bothReplicated]
  · have differ : wanted ≠ current := by
      rintro rfl
      exact bothReplicated replicated
    rw [if_neg fun both => bothReplicated both.2, if_neg differ, if_neg bothReplicated]
    cases wanted with
    | none => exact absurd trivial bothReplicated
    | some target => rfl

theorem Tensor.OpensTo.exitTarget?_eq {old new : Tensor} (opened : old.OpensTo names new)
    (wanted : Option TensorSharding) :
    exitTarget? wanted new.sharding = exitTarget? wanted old.sharding := by
  rcases opened with rfl | ⟨unsharded, name, -, rfl⟩
  · rfl
  · have replicated : TensorSharding.IsFullyReplicated (some (.fullyOpen name old.rank)) := by
      intro dim member
      rw [List.eq_of_mem_replicate member]
      rfl
    have nothing : TensorSharding.IsFullyReplicated old.sharding := by
      rw [unsharded]
      trivial
    exact (exitTarget?_of_replicated replicated).trans (exitTarget?_of_replicated nothing).symm

namespace Signature.OpensTo

variable {old new : Signature} (opened : old.OpensTo names new)
include opened

theorem exitChanges_eq : exitChanges declared new.operands = exitChanges declared old.operands := by
  have byTensor (returned : List Tensor) : exitChanges declared returned =
      (returned.zipIdx.map fun operand =>
        (exitTarget? (declared[operand.2]?.bind Tensor.sharding) operand.1.sharding).map
          (OperandChange.mk operand.2)).filterMap id := by
    rw [List.filterMap_map]
    rfl
  rw [byTensor, byTensor]
  congr 1
  apply List.ext_getElem?
  intro slot
  simp only [List.getElem?_map, List.getElem?_zipIdx, Option.map_map]
  refine opened.getElem?_map_eq (fun before after tensorOpened => ?_) slot
  simp only [Function.comp_apply, tensorOpened.exitTarget?_eq]

/-- Where no tensor had a sharding, the tensors agree on the mesh of the opened operands. -/
theorem decision_of_unsharded {rule : FactorRule} {name : String}
    (unsharded : ∀ tensor ∈ old.operands ++ old.results, tensor.sharding = none)
    (notExit : old.kind ≠ .exit) (isRule : old.rule? = some rule) (suited : old.SuitedBy rule)
    (isName : new.mesh? = some name) (isMesh : meshes.mesh? name = some mesh) :
    new.decision meshes declared = .ok (.skip .consistent) := by
  obtain ⟨projection, isProjection⟩ : ∃ projection,
      Projection.ofSignature mesh rule old = .ok projection := by
    refine exists_projection (fun tensor isTensor own isOwn => ?_) suited
    rw [unsharded tensor isTensor] at isOwn
    cases isOwn
  obtain ⟨within, consistent⟩ := isConsistent_of_unsharded isProjection unsharded
  refine (decision_of_rule (by rwa [opened.kind_eq]) (opened.rule?_eq.trans isRule) isName).mpr
    ⟨mesh, projection, isMesh, opened.projection_iff.mpr isProjection, ?_⟩
  rw [Projection.decision, if_neg within, if_pos consistent]

variable (declared) in
/-- **On one mesh an operation is decided as if none of its operands had been opened.** Only the
reason for leaving it alone may be another: opened tensors agree where tensors without shardings
have no mesh. -/
theorem decides_alike {meshName : String}
    (allowed : ∀ name, names name → name = meshName ∧ ∃ mesh, meshes.mesh? name = some mesh)
    (onMesh : ∀ sharding, some sharding ∈ old.shardings → sharding.mesh = meshName)
    (suited : ∀ rule, old.rule? = some rule → old.SuitedBy rule)
    (sound : ∀ tensor ∈ old.operands ++ old.results, tensor.Sound meshes) :
    ∃ decided decision, old.decision meshes declared = .ok decided ∧
      new.decision meshes declared = .ok decision ∧
      (decision = decided ∨ decision = .skip .consistent ∧ decided = .skip .noCommonMesh) := by
  by_cases isExit : old.kind = .exit
  · have newExit : new.kind = .exit := opened.kind_eq.trans isExit
    exact ⟨_, _, decision_of_exit isExit, decision_of_exit newExit,
      .inl (congrArg Decision.exit opened.exitChanges_eq)⟩
  · have notExit : new.kind ≠ .exit := by rwa [opened.kind_eq]
    cases isRule : old.rule? with
    | none =>
      have noRule : new.rule? = none := opened.rule?_eq.trans isRule
      exact ⟨_, _, decision_of_noRule isExit isRule, decision_of_noRule notExit noRule, .inl rfl⟩
    | some rule =>
      have newRule : new.rule? = some rule := opened.rule?_eq.trans isRule
      by_cases sharded : ∃ sharding, some sharding ∈ old.shardings
      · have oldName : old.mesh? = some meshName := commonMesh?_eq_some_iff.mpr ⟨sharded, onMesh⟩
        have newName : new.mesh? = some meshName :=
          (opened.mono fun _ isAllowed => (allowed _ isAllowed).1).mesh?_of_old oldName
        obtain ⟨mesh, isMesh, suits⟩ := exists_mesh oldName sound
        obtain ⟨projection, isProjection⟩ := exists_projection suits (suited rule isRule)
        have decided : old.decision meshes declared =
            .ok (projection.decision mesh meshName rule old.results) :=
          (decision_of_rule isExit isRule oldName).mpr ⟨mesh, projection, isMesh, isProjection, rfl⟩
        exact ⟨_, _, decided,
          (opened.decision_of_mesh isExit isRule oldName newName).mpr decided, .inl rfl⟩
      · have noMesh : old.mesh? = none := by
          cases isName : old.mesh? with
          | none => rfl
          | some name => exact absurd (commonMesh?_eq_some_iff.mp isName).1 sharded
        have decided : old.decision meshes declared = .ok (.skip .noCommonMesh) :=
          decision_of_noMesh isExit isRule noMesh
        cases newName : new.mesh? with
        | none =>
          exact ⟨_, .skip .noCommonMesh, decided, decision_of_noMesh notExit newRule newName,
            .inl rfl⟩
        | some name =>
          -- the mesh of the opened operands is declared, and on it all of them agree
          obtain ⟨⟨sharding, present⟩, named⟩ := commonMesh?_eq_some_iff.mp newName
          have isAllowed : names sharding.mesh :=
            (opened.sharding_of_new present).resolve_left fun before =>
              sharded ⟨sharding, before⟩
          rw [named sharding present] at isAllowed
          obtain ⟨-, mesh, isMesh⟩ := allowed name isAllowed
          exact ⟨_, .skip .consistent, decided, opened.decision_of_unsharded
            (Signature.sharding_eq_none sharded) isExit isRule (suited rule isRule) newName isMesh,
            .inr ⟨rfl, rfl⟩⟩

end Signature.OpensTo

end MeshSharding
