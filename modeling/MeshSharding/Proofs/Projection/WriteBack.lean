import MeshSharding.Projection.Factors
import MeshSharding.Proofs.Axis.Rejoined
import MeshSharding.Proofs.Projection.Shares

/-!
# Writing back what was read

Reading a dimension hands its axes out to its factors, cuts some of them on the
way, and leaves what does not fit as overflow with one factor or another. None of
this loses anything: the axes and the overflow of the factors, one after the
other, refine the axes of the dimension, and so the dimension is written again as
it was (`TensorProjection.dimSharding_of_read`). The sizes of the factors play no
part in it.

A part that spells a whole axis is the exception. If it is cut, it is written
back as the whole axis.
-/

set_option autoImplicit false

namespace MeshSharding

open AxisSequence (Suits)

variable {mesh : Mesh} {sizes : List Nat}

/-- The factors of a dimension are closed if the dimension is. -/
theorem isClosed_of_dimEntries {mapping : DimMapping} {pending : AxisSequence} {isClosed : Bool}
    {entries : List (Nat × FactorSharding)}
    (isOk : dimEntries mesh sizes isClosed pending mapping = .ok entries) :
    ∀ entry ∈ entries, entry.2.isClosed = isClosed := by
  induction mapping generalizing pending entries with
  | nil =>
    cases isOk
    exact fun _ member => absurd member List.not_mem_nil
  | cons factor rest ih =>
    obtain ⟨size, share, later, -, -, laterOk, rfl⟩ := dimEntries_cons_eq_ok isOk
    exact List.forall_mem_cons.mpr ⟨rfl, ih laterOk⟩

namespace TensorProjection

variable {tensor : TensorProjection} {dim : DimMapping} {entries : List (Nat × FactorSharding)}

/-- The shares of a dimension whose factors are found with given entries. -/
theorem sharesOf_eq (factors : entries.map Prod.fst = dim)
    (found : ∀ entry ∈ entries, tensor.factor? entry.1 = some entry.2) :
    tensor.sharesOf dim = entries.map Prod.snd := by
  rw [sharesOf, ← factors, List.filterMap_map, ← List.filterMap_eq_map]
  exact List.filterMap_congr found

/-- **A dimension is written as it was read.** -/
theorem dimSharding_of_read {read : DimSharding}
    (isOk : dimEntries mesh sizes read.isClosed read.axes dim = .ok entries)
    (found : ∀ entry ∈ entries, tensor.factor? entry.1 = some entry.2) (someFactor : dim ≠ [])
    (declared : ∀ factor ∈ dim, factor < sizes.length) (suits : Suits mesh read.axes)
    (merged : AxisSequence.Merged read.axes)
    (spelled : ∀ reference ∈ read.axes, ¬ reference.SpellsWhole mesh) :
    tensor.dimSharding mesh dim = read := by
  obtain ⟨own, ownOk, refines⟩ := dimEntries_spec read.isClosed suits declared
  cases isOk.symm.trans ownOk
  have factors := factors_of_dimEntries isOk
  have axesEq : AxisSequence.joined mesh (entries.flatMap fun entry => entry.2.allAxes) =
      read.axes := AxisSequence.joined_of_refines (refines someFactor) suits merged spelled
  have closedEq : (entries.map Prod.snd).any FactorSharding.isClosed = read.isClosed := by
    have someEntry : entries ≠ [] := by
      rintro rfl
      exact someFactor factors.symm
    have each := isClosed_of_dimEntries isOk
    obtain ⟨first, others, rfl⟩ := List.exists_cons_of_ne_nil someEntry
    rw [Bool.eq_iff_iff, List.any_eq_true]
    constructor
    · rintro ⟨sharding, member, closed⟩
      obtain ⟨entry, isEntry, rfl⟩ := List.mem_map.mp member
      rwa [each entry isEntry] at closed
    · intro closed
      exact ⟨first.2, List.mem_cons_self, (each first List.mem_cons_self).trans closed⟩
  rw [dimSharding, sharesOf_eq factors found, List.flatMap_map, closedEq]
  exact congrArg (DimSharding.mk · read.isClosed) axesEq

end TensorProjection

namespace TensorSharding

/-- **A sharding that is read along a mapping is written along it as it was.** It is one that the
mesh accepts for the rank of the mapping and in which no dimension has a part that spells a whole
axis; every dimension of the mapping has a factor and no factor occurs twice, and nothing is asked
of the sizes of the factors. -/
theorem written_as_read (mesh : Mesh) (sizes : List Nat) (mapping : TensorMapping)
    (sharding : TensorSharding) (accepted : sharding.check mesh mapping.length = .ok ())
    (spelled : ∀ dim ∈ sharding.dims, ∀ reference ∈ dim.axes, ¬ reference.SpellsWhole mesh)
    (someFactor : ∀ dim ∈ mapping, dim ≠ []) (distinct : mapping.factors.Nodup)
    (declared : ∀ factor ∈ mapping.factors, factor < sizes.length) :
    ∃ tensor, TensorProjection.ofSharding mesh sizes mapping (some sharding) = .ok tensor ∧
      tensor.toSharding mesh sharding.mesh mapping = sharding := by
  obtain ⟨sameRank, merged, suits⟩ := dimsSuit_of_check accepted
  obtain ⟨tensor, isRead⟩ : ∃ tensor,
      TensorProjection.ofSharding mesh sizes mapping (some sharding) = .ok tensor :=
    TensorProjection.exists_ofSharding suits declared
  obtain ⟨entries, entriesOk, rfl⟩ := TensorProjection.ofSharding_eq_ok_iff.mp isRead
  refine ⟨_, isRead, ?_⟩
  have sameDims : mapping.map (TensorProjection.dimSharding mesh
      ⟨filledSlots sizes.length entries, sharding.replicated⟩) = sharding.dims := by
    refine List.ext_getElem (by rw [List.length_map]; exact sameRank.symm) ?_
    intro index isMapped isDim
    rw [List.getElem_map]
    have below : index < mapping.length := by rwa [List.length_map] at isMapped
    have dimMember := List.getElem_mem below
    have readMember := List.getElem_mem isDim
    obtain ⟨own, ownOk, within⟩ :=
      dimEntries_of_tensorEntries entriesOk (List.getElem?_eq_getElem below)
    simp only [Option.map_some, Option.getD_some, List.getElem?_eq_getElem isDim] at ownOk
    refine TensorProjection.dimSharding_of_read ownOk ?_ (someFactor _ dimMember) ?_
      ((AxisSequence.suits_flatMap_iff.mp suits).1 _ readMember) (merged _ readMember) ?_
    · intro entry isEntry
      exact (TensorProjection.factor?_eq_some_iff entriesOk declared distinct).mpr (within isEntry)
    · exact fun factor inDim => declared factor (List.mem_flatten.mpr ⟨_, dimMember, inDim⟩)
    · exact spelled _ readMember
  exact congrArg (TensorSharding.mk sharding.mesh · sharding.replicated) sameDims

/-- Axes of eight, six and three devices. -/
def cuboidMesh : Mesh :=
  ⟨[⟨"length", 8, by decide, by decide, by decide⟩, ⟨"width", 6, by decide, by decide, by decide⟩,
    ⟨"height", 3, by decide, by decide, by decide⟩], by decide⟩

/-- A closed dimension along two axes, and an open one along the minor part of a third axis, the
major part of which is replicated. -/
def cuboidSharding : TensorSharding :=
  ⟨"mesh", [⟨[.whole "length", .whole "height"], true⟩, ⟨[.part "width" 2 3], false⟩],
    [.part "width" 1 2]⟩

/-- The first axis is cut in two, and what the factors of the first dimension have no room for
overflows, as does everything along a factor of size zero. -/
theorem cuboid_written_as_read :
    ∃ tensor, TensorProjection.ofSharding cuboidMesh [2, 3, 0] [[0, 1], [2]]
        (some cuboidSharding) = .ok tensor ∧
      tensor.slots = [some ⟨[.part "length" 1 2], [], true, false⟩,
        some ⟨[], [.part "length" 2 4, .whole "height"], true, true⟩,
        some ⟨[], [.part "width" 2 3], false, true⟩] ∧
      tensor.toSharding cuboidMesh "mesh" [[0, 1], [2]] = cuboidSharding := by
  obtain ⟨tensor, isRead, isWritten⟩ := written_as_read cuboidMesh [2, 3, 0] [[0, 1], [2]]
    cuboidSharding rfl (by decide) (by decide) (by decide) (by decide)
  refine ⟨tensor, isRead, ?_, isWritten⟩
  cases isRead
  rfl

/-- A part that spells its whole axis comes back as the whole axis when it is cut. -/
example : (TensorProjection.ofSharding cuboidMesh [2, 2] [[0, 1]]
      (some ⟨"mesh", [⟨[.part "length" 1 8], true⟩], []⟩)).map
        (·.toSharding cuboidMesh "mesh" [[0, 1]]) =
    .ok ⟨"mesh", [⟨[.whole "length"], true⟩], []⟩ := rfl

end TensorSharding

end MeshSharding
