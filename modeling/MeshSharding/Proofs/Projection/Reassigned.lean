import Mathlib.Data.List.Forall2
import Mathlib.Data.List.Nodup
import MeshSharding.Proofs.Projection.Assignment

/-!
# Assigning axes to all factors, in any order

Every factor of an operation is assigned axes, one factor after the other, and
the record of changes adds up what each assignment changes. The assignments of
two factors do not disturb each other. A tensor is therefore the same at the end
whichever factor comes first (`TensorProjection.assigned_perm`), and what an
assignment changes when it is its turn is what it would have changed at first
(`TensorProjection.changedBy_iff`).

So the record can be read off the projection before and the projection after,
without knowing what came between: a tensor is recorded if it has other axes for
one of its factors than before (`Projection.assign_in_any_order`).
-/

set_option autoImplicit false

namespace MeshSharding

namespace TensorProjection

/-- Some factor that both tensors map has other axes in one than in the other, or other axes
beyond it. -/
def DiffersFrom (before after : TensorProjection) : Prop :=
  ∃ entry ∈ before.entries, ∃ other ∈ after.entries, entry.1 = other.1 ∧
    (entry.2.axes ≠ other.2.axes ∨ entry.2.overflow ≠ other.2.overflow)

instance (before after : TensorProjection) : Decidable (before.DiffersFrom after) :=
  inferInstanceAs (Decidable (∃ entry ∈ before.entries, ∃ other ∈ after.entries,
    entry.1 = other.1 ∧ (entry.2.axes ≠ other.2.axes ∨ entry.2.overflow ≠ other.2.overflow)))

/-- What a tensor is after every factor has been assigned the axes in its place: the factors that
it maps have these axes, and all else is as it was. -/
structure Reassigned (agreed : List AxisSequence) (before after : TensorProjection) : Prop where
  assigned : ∀ factor axes sharding, agreed[factor]? = some axes →
    after.factor? factor = some sharding → sharding.axes = axes ∧ sharding.overflow = []
  unassigned : ∀ factor, agreed.length ≤ factor → after.factor? factor = before.factor? factor
  maps : ∀ factor, (after.factor? factor).isSome = (before.factor? factor).isSome
  isClosed : ∀ factor, (after.factor? factor).map FactorSharding.isClosed =
    (before.factor? factor).map FactorSharding.isClosed
  isMinorMost : ∀ factor, (after.factor? factor).map FactorSharding.isMinorMost =
    (before.factor? factor).map FactorSharding.isMinorMost
  replicated : after.replicated = before.replicated

variable {tensor : TensorProjection}

theorem differsFrom_iff {before after : TensorProjection} :
    before.DiffersFrom after ↔ ∃ factor old new, before.factor? factor = some old ∧
      after.factor? factor = some new ∧ (old.axes ≠ new.axes ∨ old.overflow ≠ new.overflow) := by
  constructor
  · rintro ⟨⟨factor, old⟩, isOld, ⟨_, new⟩, isNew, rfl, differ⟩
    exact ⟨factor, old, new, mem_entries_iff.mp isOld, mem_entries_iff.mp isNew, differ⟩
  · rintro ⟨factor, old, new, isOld, isNew, differ⟩
    exact ⟨(factor, old), mem_entries_iff.mpr isOld, (factor, new), mem_entries_iff.mpr isNew, rfl,
      differ⟩

/-! ## The order of the assignments -/

theorem assignOne_comm {first second : Assignment} (differ : first.factor ≠ second.factor) :
    (tensor.assignOne first).assignOne second = (tensor.assignOne second).assignOne first :=
  congrArg (TensorProjection.mk · tensor.replicated) (List.modify_modify_ne _ _ _ differ)

/-- Where no factor is assigned axes twice, the assignments have one outcome in every order. -/
theorem assigned_perm {first second : List Assignment}
    (distinct : (first.map Assignment.factor).Nodup) (inSomeOrder : first.Perm second) :
    tensor.assigned first = tensor.assigned second := by
  apply inSomeOrder.foldl_eq'
  intro earlier isEarlier later isLater current
  by_cases same : earlier = later
  · rw [same]
  · have differ : earlier.factor ≠ later.factor :=
      fun sameFactor => same (List.inj_on_of_nodup_map distinct isEarlier isLater sameFactor)
    exact assignOne_comm differ

/-! ## What has changed in the end -/

/-- The tensors that change on the way are those that are different in the end. -/
theorem changedBy_iff_differsFrom {assignments : List Assignment}
    (distinct : (assignments.map Assignment.factor).Nodup) :
    tensor.ChangedBy assignments ↔ tensor.DiffersFrom (tensor.assigned assignments) := by
  rw [changedBy_iff, differsFrom_iff]
  constructor
  · rintro ⟨assignment, member, changes⟩
    obtain ⟨old, isOld, differ⟩ := changesOne_iff.mp changes
    refine ⟨assignment.factor, old, assignment.update old, isOld, ?_, differ⟩
    rw [factor?_assigned_of_mem distinct member, isOld, Option.map_some]
  · rintro ⟨factor, old, new, isOld, isNew, differ⟩
    by_cases named : factor ∈ assignments.map Assignment.factor
    · obtain ⟨assignment, member, rfl⟩ := List.mem_map.mp named
      rw [factor?_assigned_of_mem distinct member, isOld, Option.map_some] at isNew
      cases isNew
      exact ⟨assignment, member, changesOne_iff.mpr ⟨old, isOld, differ⟩⟩
    · -- what no assignment names is what it was
      rw [factor?_assigned_of_notMem named, isOld] at isNew
      cases isNew
      exact absurd differ (by simp)

theorem reassigned (agreed : List AxisSequence) :
    tensor.Reassigned agreed (tensor.assigned (assignmentsOf agreed)) := by
  have unassigned (factor : Nat) (beyond : agreed.length ≤ factor) :
      (tensor.assigned (assignmentsOf agreed)).factor? factor = tensor.factor? factor := by
    apply factor?_assigned_of_notMem
    rw [assignmentsOf_factors, List.mem_range]
    exact Nat.not_lt.mpr beyond
  -- a field of a factor that assignments leave alone
  have kept {α : Type} (field : FactorSharding → α)
      (leaves : ∀ assignment sharding,
        field (Assignment.update assignment sharding) = field sharding)
      (factor : Nat) : ((tensor.assigned (assignmentsOf agreed)).factor? factor).map field =
        (tensor.factor? factor).map field := by
    cases found : agreed[factor]? with
    | none => rw [unassigned factor (List.getElem?_eq_none_iff.mp found)]
    | some axes =>
      rw [factor?_assigned_agreed found, Option.map_map]
      exact congrArg (Option.map · _) (funext (leaves _))
  refine ⟨?_, unassigned, fun factor => ?_, kept _ fun _ _ => rfl, kept _ fun _ _ => rfl,
    replicated_assigned _⟩
  · intro factor axes sharding found isSharding
    rw [factor?_assigned_agreed found, Option.map_eq_some_iff] at isSharding
    obtain ⟨old, -, rfl⟩ := isSharding
    exact ⟨rfl, rfl⟩
  · rw [← Option.isSome_map, kept (fun _ => ()) (fun _ _ => rfl), Option.isSome_map]

end TensorProjection

namespace Projection

/-- Which tensors have other axes for one of their factors in another projection. -/
def differences (before after : Projection) : ChangeSet :=
  let differ := fun old new : TensorProjection => decide (old.DiffersFrom new)
  ⟨List.zipWith differ before.operands after.operands,
    List.zipWith differ before.results after.results⟩

/-- What a projection is after every factor has been assigned the axes in its place. -/
structure Reassigned (agreed : List AxisSequence) (before after : Projection) : Prop where
  operands : before.operands.Forall₂ (TensorProjection.Reassigned agreed) after.operands
  results : before.results.Forall₂ (TensorProjection.Reassigned agreed) after.results

/-- The changes recorded by a list of assignments, one after the other. -/
def recorded (projection : Projection) (assignments : List Assignment) : ChangeSet :=
  projection.changesOfAll (.unchanged projection.operands.length projection.results.length)
    assignments

variable {projection : Projection}

/-- What changes is recorded whether it changes early or late. -/
theorem recorded_perm {first second : List Assignment} (inSomeOrder : first.Perm second) :
    projection.recorded first = projection.recorded second := by
  have sameFlag (tensor : TensorProjection) :
      decide (tensor.ChangedBy first) = decide (tensor.ChangedBy second) := by
    simp only [TensorProjection.changedBy_iff, inSomeOrder.mem_iff]
  simp only [recorded, changesOfAll_unchanged _ rfl rfl, sameFlag]

theorem assignAll_perm {first second : List Assignment}
    (distinct : (first.map Assignment.factor).Nodup) (inSomeOrder : first.Perm second) :
    projection.assignAll first = projection.assignAll second := by
  simp only [assignAll_eq, TensorProjection.assigned_perm distinct inSomeOrder]

/-- The record holds exactly the tensors that are different in the end. -/
theorem recorded_eq_differences {assignments : List Assignment}
    (distinct : (assignments.map Assignment.factor).Nodup) :
    projection.recorded assignments =
      projection.differences (projection.assignAll assignments) := by
  simp only [recorded, changesOfAll_unchanged _ rfl rfl, differences, assignAll_eq,
    List.zipWith_map_right, List.zipWith_self,
    TensorProjection.changedBy_iff_differsFrom distinct]

theorem reassigned (agreed : List AxisSequence) :
    projection.Reassigned agreed (projection.assignAll (assignmentsOf agreed)) := by
  have each (tensors : List TensorProjection) :
      tensors.Forall₂ (TensorProjection.Reassigned agreed)
        (tensors.map (·.assigned (assignmentsOf agreed))) :=
    List.forall₂_map_right_iff.mpr
      (List.forall₂_same.mpr fun _ _ => TensorProjection.reassigned agreed)
  rw [assignAll_eq]
  exact ⟨each projection.operands, each projection.results⟩

/-- **Axes are assigned to all factors in any order, and the record says what is different
afterwards.** Every tensor has the assigned axes for the factors that it maps, and nothing else of
it has changed. The recorded tensors are those with other axes, or other axes beyond them, for one
of their factors than before. Both the projection and the record are the same in every order. -/
theorem assign_in_any_order (projection : Projection) (agreed : List AxisSequence)
    {assignments : List Assignment} (inSomeOrder : assignments.Perm (assignmentsOf agreed)) :
    projection.recorded assignments =
        projection.differences (projection.assignAll assignments) ∧
      projection.Reassigned agreed (projection.assignAll assignments) ∧
      projection.assignAll assignments = projection.assignAll (assignmentsOf agreed) ∧
      projection.recorded assignments = projection.recorded (assignmentsOf agreed) := by
  have distinct : (assignments.map Assignment.factor).Nodup :=
    (inSomeOrder.map Assignment.factor).nodup_iff.mpr (assignmentsOf_factors_nodup agreed)
  have sameEnd := projection.assignAll_perm distinct inSomeOrder
  refine ⟨recorded_eq_differences distinct, ?_, sameEnd, recorded_perm inSomeOrder⟩
  rw [sameEnd]
  exact reassigned agreed

/-- Two operands and two results along three factors. The first operand is along other axes than
those that are agreed on, the second is along them already, the first result has only an axis
beyond its factor too many, and the second maps nothing. -/
def parcelProjection : Projection where
  operands :=
    [⟨[some ⟨[.whole "floor"], [], false, true⟩, some ⟨[.whole "lift"], [], true, true⟩, none], []⟩,
      ⟨[some ⟨[.whole "lift"], [], true, true⟩, none, some ⟨[], [], false, true⟩], []⟩]
  results :=
    [⟨[none, some ⟨[.whole "floor"], [.whole "door"], false, true⟩, none], []⟩,
      ⟨[none, none, none], [.whole "door"]⟩]

/-- The axes on which the tensors agree, for each of the three factors. -/
def parcelAxes : List AxisSequence :=
  [[.whole "lift"], [.whole "floor"], []]

/-- The last factor is assigned its axes first. -/
theorem parcel_backwards :
    (assignmentsOf parcelAxes).reverse.Perm (assignmentsOf parcelAxes) ∧
      parcelProjection.recorded (assignmentsOf parcelAxes).reverse =
        ⟨[true, false], [true, false]⟩ ∧
      parcelProjection.recorded (assignmentsOf parcelAxes).reverse =
        parcelProjection.differences
          (parcelProjection.assignAll (assignmentsOf parcelAxes).reverse) ∧
      parcelProjection.Reassigned parcelAxes
        (parcelProjection.assignAll (assignmentsOf parcelAxes).reverse) := by
  have backwards := (assignmentsOf parcelAxes).reverse_perm
  obtain ⟨isDifference, isReassigned, -, -⟩ :=
    assign_in_any_order parcelProjection parcelAxes backwards
  exact ⟨backwards, by decide, isDifference, isReassigned⟩

end Projection

end MeshSharding
