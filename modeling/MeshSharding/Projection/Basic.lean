import MeshSharding.Rule.Synthesis

/-!
# Shardings seen factor by factor

A projection of an operation says for each of its tensors along which axes each
factor is sharded. A tensor has one slot for every factor of the rule; the slots
of factors that none of its dimensions is mapped to are empty.

The axes of a factor can be assigned anew in all tensors that map it. What such
an assignment changes is told separately (`TensorProjection.Changes`), so that
the assigned projection and the record of changes can be reasoned about apart.
-/

set_option autoImplicit false

namespace MeshSharding

/-- The axes of a factor in one tensor. -/
structure FactorSharding where
  /-- The axes that shard the factor. -/
  axes : AxisSequence
  /-- The axes of the dimension that go beyond the factor. -/
  overflow : AxisSequence
  /-- Whether the dimension is closed. -/
  isClosed : Bool
  /-- Whether the factor is the last one of its dimension. -/
  isMinorMost : Bool
  deriving DecidableEq

/-- The factors of one tensor, in a slot each, and its replicated axes. -/
structure TensorProjection where
  slots : List (Option FactorSharding)
  replicated : AxisSequence
  deriving DecidableEq

namespace TensorProjection

/-- The sharding of a factor, if the tensor maps it. -/
def factor? (tensor : TensorProjection) (factor : Nat) : Option FactorSharding :=
  tensor.slots[factor]?.join

/-- The mapped factors with their shardings, by increasing factor. -/
def entries (tensor : TensorProjection) : List (Nat × FactorSharding) :=
  tensor.slots.zipIdx.filterMap fun slot => slot.1.map fun sharding => (slot.2, sharding)

/-- The axes of a factor; none if the tensor does not map it. -/
def axesOf (tensor : TensorProjection) (factor : Nat) : AxisSequence :=
  ((tensor.factor? factor).map FactorSharding.axes).getD []

/-- An entry is a factor that is found. -/
theorem mem_entries_iff {tensor : TensorProjection} {factor : Nat} {sharding : FactorSharding} :
    (factor, sharding) ∈ tensor.entries ↔ tensor.factor? factor = some sharding := by
  simp only [entries, factor?, List.mem_filterMap, Prod.exists, Option.map_eq_some_iff,
    Prod.mk.injEq, Option.join_eq_some_iff]
  constructor
  · rintro ⟨slot, index, member, found, rfl, rfl, rfl⟩
    exact List.mk_mem_zipIdx_iff_getElem?.mp member
  · intro found
    exact ⟨some sharding, factor, List.mk_mem_zipIdx_iff_getElem?.mpr found, sharding, rfl, rfl, rfl⟩

/-- No factor has two entries. -/
theorem entries_factors_nodup (tensor : TensorProjection) :
    (tensor.entries.map Prod.fst).Nodup := by
  have isSublist : (tensor.entries.map Prod.fst).Sublist (tensor.slots.zipIdx.map Prod.snd) := by
    unfold entries
    induction tensor.slots.zipIdx with
    | nil => exact .slnil
    | cons slot rest ih =>
      cases found : slot.1 with
      | none => simpa [found] using ih.cons slot.2
      | some sharding => simpa [found] using ih
  rw [List.zipIdx_map_snd] at isSublist
  exact isSublist.nodup List.nodup_range'

/-- The projection with other axes for a factor, if the tensor maps it. -/
def assign (tensor : TensorProjection) (factor : Nat) (axes overflow : AxisSequence) :
    TensorProjection :=
  let update := fun sharding : FactorSharding => { sharding with axes, overflow }
  { tensor with slots := tensor.slots.modify factor (Option.map update) }

/-- Assigning the axes to a factor changes the tensor: it maps the factor, with other axes. -/
def Changes (tensor : TensorProjection) (factor : Nat) (axes overflow : AxisSequence) : Prop :=
  match tensor.factor? factor with
  | none => False
  | some sharding => sharding.axes ≠ axes ∨ sharding.overflow ≠ overflow

instance (tensor : TensorProjection) (factor : Nat) (axes overflow : AxisSequence) :
    Decidable (tensor.Changes factor axes overflow) := by
  unfold Changes
  split <;> infer_instance

/-- Two tensors shard the factors that both map along the same axes. -/
def Agree (first second : TensorProjection) : Prop :=
  ∀ entry ∈ first.entries, ∀ other ∈ second.entries,
    entry.1 = other.1 → entry.2.axes = other.2.axes

instance (first second : TensorProjection) : Decidable (first.Agree second) :=
  inferInstanceAs (Decidable (∀ entry ∈ first.entries, ∀ other ∈ second.entries,
    entry.1 = other.1 → entry.2.axes = other.2.axes))

end TensorProjection

/-- The projections of the operands and results of an operation. -/
structure Projection where
  operands : List TensorProjection
  results : List TensorProjection
  deriving DecidableEq

/-- New axes for a factor. -/
structure Assignment where
  factor : Nat
  axes : AxisSequence
  overflow : AxisSequence
  deriving DecidableEq

/-- Which operands and which results of an operation have changed. -/
structure ChangeSet where
  operands : List Bool
  results : List Bool
  deriving DecidableEq

namespace ChangeSet

/-- Nothing has changed. -/
def unchanged (operandCount resultCount : Nat) : ChangeSet :=
  ⟨List.replicate operandCount false, List.replicate resultCount false⟩

/-- What has changed in either of two sets. -/
def union (first second : ChangeSet) : ChangeSet :=
  ⟨List.zipWith or first.operands second.operands, List.zipWith or first.results second.results⟩

/-- The positions of the flags that are set. -/
def positions (flags : List Bool) : List Nat :=
  flags.zipIdx.filterMap fun flag => if flag.1 then some flag.2 else none

/-- Whether nothing has changed. -/
def isEmpty (changes : ChangeSet) : Bool :=
  !(changes.operands ++ changes.results).any id

end ChangeSet

namespace Projection

/-- All tensors, operands first. -/
def tensors (projection : Projection) : List TensorProjection :=
  projection.operands ++ projection.results

/-- Some factor of some tensor has axes beyond it. -/
def Overflows (projection : Projection) : Prop :=
  ∃ tensor ∈ projection.tensors, ∃ entry ∈ tensor.entries, entry.2.overflow ≠ []

instance (projection : Projection) : Decidable projection.Overflows :=
  inferInstanceAs (Decidable (∃ tensor ∈ projection.tensors, ∃ entry ∈ tensor.entries,
    entry.2.overflow ≠ []))

/-- Every factor is sharded along the same axes in all tensors that map it. -/
def IsConsistent (projection : Projection) : Prop :=
  ∀ first ∈ projection.tensors, ∀ second ∈ projection.tensors, first.Agree second

instance (projection : Projection) : Decidable projection.IsConsistent :=
  inferInstanceAs (Decidable (∀ first ∈ projection.tensors, ∀ second ∈ projection.tensors,
    first.Agree second))

/-! ## Assigning axes to factors -/

/-- The projection with new axes for a factor in all tensors that map it. -/
def assign (projection : Projection) (assignment : Assignment) : Projection :=
  let update := fun tensor : TensorProjection =>
    tensor.assign assignment.factor assignment.axes assignment.overflow
  ⟨projection.operands.map update, projection.results.map update⟩

/-- The tensors that an assignment changes. -/
def changesOf (projection : Projection) (assignment : Assignment) : ChangeSet :=
  let changed := fun tensor : TensorProjection =>
    decide (tensor.Changes assignment.factor assignment.axes assignment.overflow)
  ⟨projection.operands.map changed, projection.results.map changed⟩

/-- The projection after a list of assignments, one after the other. -/
def assignAll (projection : Projection) (assignments : List Assignment) : Projection :=
  assignments.foldl assign projection

/-- The tensors that some assignment of a list changes when it is its turn, added to those that
have changed before. -/
def changesOfAll (projection : Projection) (before : ChangeSet) : List Assignment → ChangeSet
  | [] => before
  | assignment :: rest =>
    changesOfAll (projection.assign assignment)
      (before.union (projection.changesOf assignment)) rest

end Projection

end MeshSharding
