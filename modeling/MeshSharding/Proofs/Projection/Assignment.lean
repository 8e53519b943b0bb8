import MeshSharding.Reshard.Decision

/-!
# Assigning axes to factors

Assigning axes to a factor changes this factor in the tensors that map it and
nothing else. Over a list of assignments that names no factor twice, every
factor ends up with what was assigned to it, whatever the order
(`factor?_assigned_of_mem`).

A tensor that no assignment changes when it is its turn is the same afterwards
(`assigned_eq_self`), and the record of changes holds exactly the tensors that
some assignment changes (`changesOfAll_unchanged`).
-/

set_option autoImplicit false

namespace MeshSharding

/-- The sharding of a factor with the assigned axes. -/
def Assignment.update (assignment : Assignment) (sharding : FactorSharding) : FactorSharding :=
  { sharding with
    axes := assignment.axes
    overflow := assignment.overflow }

/-- Every factor is assigned the axes in its place, without overflow. -/
theorem mem_assignmentsOf_iff {agreed : List AxisSequence} {assignment : Assignment} :
    assignment ∈ assignmentsOf agreed ↔
      agreed[assignment.factor]? = some assignment.axes ∧ assignment.overflow = [] := by
  rw [assignmentsOf, List.mem_map]
  constructor
  · rintro ⟨⟨axes, factor⟩, member, rfl⟩
    exact ⟨List.mk_mem_zipIdx_iff_getElem?.mp member, rfl⟩
  · obtain ⟨factor, axes, overflow⟩ := assignment
    rintro ⟨found, rfl⟩
    exact ⟨(axes, factor), List.mk_mem_zipIdx_iff_getElem?.mpr found, rfl⟩

theorem assignmentsOf_factors (agreed : List AxisSequence) :
    (assignmentsOf agreed).map Assignment.factor = List.range agreed.length := by
  rw [assignmentsOf, List.map_map, List.range_eq_range', ← List.zipIdx_map_snd]
  rfl

/-- No factor is assigned axes twice. -/
theorem assignmentsOf_factors_nodup (agreed : List AxisSequence) :
    ((assignmentsOf agreed).map Assignment.factor).Nodup := by
  rw [assignmentsOf_factors]
  exact List.nodup_range

namespace TensorProjection

variable {tensor : TensorProjection}

/-- The tensor after an assignment. -/
def assignOne (tensor : TensorProjection) (assignment : Assignment) : TensorProjection :=
  tensor.assign assignment.factor assignment.axes assignment.overflow

/-- The assignment changes the tensor. -/
def ChangesOne (tensor : TensorProjection) (assignment : Assignment) : Prop :=
  tensor.Changes assignment.factor assignment.axes assignment.overflow

instance (assignment : Assignment) : Decidable (tensor.ChangesOne assignment) :=
  inferInstanceAs (Decidable (tensor.Changes _ _ _))

/-- The tensor after a list of assignments, one after the other. -/
def assigned (tensor : TensorProjection) (assignments : List Assignment) : TensorProjection :=
  assignments.foldl assignOne tensor

/-- Some assignment of a list changes the tensor when it is its turn. -/
def ChangedBy : TensorProjection → List Assignment → Prop
  | _, [] => False
  | tensor, assignment :: rest =>
    tensor.ChangesOne assignment ∨ (tensor.assignOne assignment).ChangedBy rest

instance decidableChangedBy : (tensor : TensorProjection) → (assignments : List Assignment) →
    Decidable (tensor.ChangedBy assignments)
  | _, [] => .isFalse id
  | tensor, assignment :: rest =>
    have := decidableChangedBy (tensor.assignOne assignment) rest
    inferInstanceAs (Decidable (_ ∨ _))

theorem decide_changedBy_nil : decide (tensor.ChangedBy []) = false :=
  decide_eq_false id

theorem decide_changedBy_cons (assignment : Assignment) (rest : List Assignment) :
    decide (tensor.ChangedBy (assignment :: rest)) =
      (decide (tensor.ChangesOne assignment) ||
        decide ((tensor.assignOne assignment).ChangedBy rest)) := by
  rw [Bool.eq_iff_iff, Bool.or_eq_true, decide_eq_true_iff, decide_eq_true_iff,
    decide_eq_true_iff]
  exact Iff.rfl

/-! ## One tensor -/

theorem factor?_assignOne_self (assignment : Assignment) :
    (tensor.assignOne assignment).factor? assignment.factor =
      (tensor.factor? assignment.factor).map assignment.update := by
  simp only [assignOne, assign, factor?, List.getElem?_modify_eq]
  cases tensor.slots[assignment.factor]? with
  | none => rfl
  | some slot => rfl

theorem factor?_assignOne_of_ne {assignment : Assignment} {factor : Nat}
    (differ : assignment.factor ≠ factor) :
    (tensor.assignOne assignment).factor? factor = tensor.factor? factor := by
  simp only [assignOne, assign, factor?, List.getElem?_modify_ne _ _ differ]

/-- An assignment that does not change a tensor leaves it as it is. -/
theorem assignOne_eq_self {assignment : Assignment} (same : ¬ tensor.ChangesOne assignment) :
    tensor.assignOne assignment = tensor := by
  have sameSlots : tensor.slots.modify assignment.factor (Option.map assignment.update) =
      tensor.slots := by
    apply List.ext_getElem?
    intro factor
    by_cases own : assignment.factor = factor
    · subst own
      rw [List.getElem?_modify_eq]
      unfold ChangesOne Changes factor? at same
      cases found : tensor.slots[assignment.factor]? with
      | none => rfl
      | some slot =>
        cases slot with
        | none => rfl
        | some sharding =>
          rw [found] at same
          obtain ⟨sameAxes, sameOverflow⟩ := not_or.mp same
          change some (some (assignment.update sharding)) = some (some sharding)
          rw [Assignment.update, ← Decidable.not_not.mp sameAxes,
            ← Decidable.not_not.mp sameOverflow]
    · rw [List.getElem?_modify_ne _ _ own]
  exact congrArg (TensorProjection.mk · tensor.replicated) sameSlots

/-- An assignment changes a tensor that maps the factor with other axes. -/
theorem changesOne_iff {assignment : Assignment} :
    tensor.ChangesOne assignment ↔
      ∃ sharding, tensor.factor? assignment.factor = some sharding ∧
        (sharding.axes ≠ assignment.axes ∨ sharding.overflow ≠ assignment.overflow) := by
  unfold ChangesOne Changes
  cases tensor.factor? assignment.factor with
  | none => simp
  | some sharding => simp

/-- Of assignments one after the other, the first that changes the tensor finds it as it was. -/
theorem changedBy_iff {assignments : List Assignment} :
    tensor.ChangedBy assignments ↔ ∃ assignment ∈ assignments, tensor.ChangesOne assignment := by
  induction assignments with
  | nil => exact iff_of_false id fun ⟨_, member, _⟩ => List.not_mem_nil member
  | cons first rest ih =>
    simp only [List.mem_cons, exists_eq_or_imp, ChangedBy]
    by_cases changes : tensor.ChangesOne first
    · exact iff_of_true (.inl changes) (.inl changes)
    · rw [assignOne_eq_self changes, ih]

theorem assigned_eq_self {assignments : List Assignment}
    (same : ¬ tensor.ChangedBy assignments) : tensor.assigned assignments = tensor := by
  induction assignments with
  | nil => rfl
  | cons assignment rest ih =>
    obtain ⟨sameFirst, sameLater⟩ := not_or.mp same
    rw [assignOne_eq_self sameFirst] at sameLater
    rw [assigned, List.foldl_cons, assignOne_eq_self sameFirst]
    exact ih sameLater

theorem replicated_assigned (assignments : List Assignment) :
    (tensor.assigned assignments).replicated = tensor.replicated := by
  induction assignments generalizing tensor with
  | nil => rfl
  | cons assignment rest ih => exact ih

theorem factor?_assigned_of_notMem {assignments : List Assignment} {factor : Nat}
    (absent : factor ∉ assignments.map Assignment.factor) :
    (tensor.assigned assignments).factor? factor = tensor.factor? factor := by
  induction assignments generalizing tensor with
  | nil => rfl
  | cons assignment rest ih =>
    rw [List.map_cons, List.mem_cons, not_or] at absent
    exact (ih absent.2).trans (factor?_assignOne_of_ne fun same => absent.1 same.symm)

/-- Each factor ends up with what was assigned to it. -/
theorem factor?_assigned_of_mem {assignments : List Assignment}
    (distinct : (assignments.map Assignment.factor).Nodup) {assignment : Assignment}
    (member : assignment ∈ assignments) :
    (tensor.assigned assignments).factor? assignment.factor =
      (tensor.factor? assignment.factor).map assignment.update := by
  induction assignments generalizing tensor with
  | nil => exact absurd member List.not_mem_nil
  | cons first rest ih =>
    obtain ⟨absent, restDistinct⟩ := List.nodup_cons.mp distinct
    rw [assigned, List.foldl_cons]
    rcases List.mem_cons.mp member with rfl | later
    · exact (factor?_assigned_of_notMem absent).trans (factor?_assignOne_self assignment)
    · refine (ih restDistinct later).trans ?_
      have differ : first.factor ≠ assignment.factor := by
        intro same
        exact absent (same ▸ List.mem_map_of_mem later)
      rw [factor?_assignOne_of_ne differ]

/-- What a tensor maps a factor to when every factor is assigned agreed axes. -/
theorem factor?_assigned_agreed {agreed : List AxisSequence} {factor : Nat} {axes : AxisSequence}
    (found : agreed[factor]? = some axes) :
    (tensor.assigned (assignmentsOf agreed)).factor? factor =
      (tensor.factor? factor).map (Assignment.update ⟨factor, axes, []⟩) := by
  have member : ⟨factor, axes, []⟩ ∈ assignmentsOf agreed := mem_assignmentsOf_iff.mpr ⟨found, rfl⟩
  exact factor?_assigned_of_mem (assignmentsOf_factors_nodup agreed) member

end TensorProjection

/-! ## All tensors -/

namespace Projection

variable {projection : Projection}

theorem assignAll_eq (assignments : List Assignment) :
    projection.assignAll assignments =
      ⟨projection.operands.map (·.assigned assignments),
        projection.results.map (·.assigned assignments)⟩ := by
  induction assignments generalizing projection with
  | nil => simp [assignAll, TensorProjection.assigned]
  | cons assignment rest ih =>
    refine ih.trans ?_
    simp only [assign, List.map_map]
    rfl

/-- The flags of the tensors that some assignment changes, added to earlier flags. -/
theorem changesOfAll_eq {before : ChangeSet} (assignments : List Assignment)
    (operandCount : before.operands.length = projection.operands.length)
    (resultCount : before.results.length = projection.results.length) :
    projection.changesOfAll before assignments =
      before.union
        ⟨projection.operands.map fun tensor => decide (tensor.ChangedBy assignments),
          projection.results.map fun tensor => decide (tensor.ChangedBy assignments)⟩ := by
  have nothing (flags : List Bool) (tensors : List TensorProjection)
      (count : flags.length = tensors.length) :
      List.zipWith or flags (tensors.map fun tensor => decide (tensor.ChangedBy [])) = flags := by
    induction flags generalizing tensors with
    | nil => rfl
    | cons flag rest ih =>
      cases tensors with
      | nil => cases count
      | cons tensor others =>
        rw [List.map_cons, List.zipWith_cons_cons, ih others (Nat.succ.inj count),
          TensorProjection.decide_changedBy_nil, Bool.or_false]
  have one_more (assignment : Assignment) (rest : List Assignment) (flags : List Bool)
      (tensors : List TensorProjection) :
      List.zipWith or
          (List.zipWith or flags (tensors.map fun tensor => decide (tensor.ChangesOne assignment)))
          ((tensors.map (·.assignOne assignment)).map fun tensor =>
            decide (tensor.ChangedBy rest)) =
        List.zipWith or flags (tensors.map fun tensor =>
          decide (tensor.ChangedBy (assignment :: rest))) := by
    induction flags generalizing tensors with
    | nil => rfl
    | cons flag rest ih =>
      cases tensors with
      | nil => rfl
      | cons tensor others =>
        simp only [List.map_cons, List.zipWith_cons_cons, ih others,
          TensorProjection.decide_changedBy_cons, Bool.or_assoc]
  induction assignments generalizing projection before with
  | nil =>
    rw [changesOfAll, ChangeSet.union, nothing _ _ operandCount, nothing _ _ resultCount]
  | cons assignment rest ih =>
    rw [changesOfAll, ih]
    · simp only [ChangeSet.union, ChangeSet.mk.injEq]
      exact ⟨one_more assignment rest _ _, one_more assignment rest _ _⟩
    · simp [ChangeSet.union, changesOf, assign, operandCount]
    · simp [ChangeSet.union, changesOf, assign, resultCount]

theorem changesOfAll_unchanged (assignments : List Assignment) {operandCount resultCount : Nat}
    (sameOperands : operandCount = projection.operands.length)
    (sameResults : resultCount = projection.results.length) :
    projection.changesOfAll (.unchanged operandCount resultCount) assignments =
      ⟨projection.operands.map fun tensor => decide (tensor.ChangedBy assignments),
        projection.results.map fun tensor => decide (tensor.ChangedBy assignments)⟩ := by
  have nothing (flags : List Bool) : List.zipWith or (List.replicate flags.length false) flags =
      flags := by
    induction flags with
    | nil => rfl
    | cons flag rest ih =>
      rw [List.length_cons, List.replicate_succ, List.zipWith_cons_cons, ih, Bool.false_or]
  subst sameOperands sameResults
  rw [changesOfAll_eq _ List.length_replicate List.length_replicate, ChangeSet.union]
  simp only [ChangeSet.unchanged, ChangeSet.mk.injEq]
  constructor
  · simpa using nothing (projection.operands.map fun tensor =>
      decide (tensor.ChangedBy assignments))
  · simpa using nothing (projection.results.map fun tensor =>
      decide (tensor.ChangedBy assignments))

end Projection

/-! ## Positions -/

namespace ChangeSet

theorem mem_positions_iff {flags : List Bool} {index : Nat} :
    index ∈ positions flags ↔ flags[index]? = some true := by
  simp only [positions, List.mem_filterMap, Prod.exists, Option.ite_none_right_eq_some,
    Option.some.injEq]
  constructor
  · rintro ⟨flag, position, member, rfl, rfl⟩
    exact List.mk_mem_zipIdx_iff_getElem?.mp member
  · intro found
    exact ⟨true, index, List.mk_mem_zipIdx_iff_getElem?.mpr found, rfl, rfl⟩

/-- Positions are listed in order. -/
theorem positions_sublist (flags : List Bool) :
    (positions flags).Sublist (List.range' 0 flags.length) := by
  have begins : ∀ start, ((flags.zipIdx start).filterMap fun flag =>
      if flag.1 then some flag.2 else none).Sublist (List.range' start flags.length) := by
    induction flags with
    | nil => exact fun _ => .slnil
    | cons flag rest ih =>
      intro start
      rw [List.zipIdx_cons, List.length_cons, List.range'_succ]
      cases flag with
      | false => exact (ih (start + 1)).cons _
      | true => exact (ih (start + 1)).cons_cons _
  exact begins 0

theorem positions_nodup (flags : List Bool) : (positions flags).Nodup :=
  (positions_sublist flags).nodup List.nodup_range'

end ChangeSet

end MeshSharding
