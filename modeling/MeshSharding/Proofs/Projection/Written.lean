import MeshSharding.Projection.Factors
import MeshSharding.Proofs.Axis.Continuation
import MeshSharding.Proofs.Projection.Handout

/-!
# Written shardings are accepted

A tensor whose factors have been given any axes can be written along any mapping
that uses no factor twice. It is enough that the axes which are written fit the
mesh and are apart: then the check accepts the sharding
(`TensorProjection.check_toSharding`). Factors that the mapping does not name may
have any axes, they are left out.

The written axes stand in the sharding in another order than in the slots
(`TensorProjection.perm_writtenAxes`), and those of a dimension are joined where
they adjoin, across its factors too. Joining leaves no neighbours that adjoin,
loses no shards and reaches no further, so what was apart from the axes of the
dimension stays apart. The size that is computed for a dimension is what a machine
word holds of its shards.
-/

set_option autoImplicit false

namespace MeshSharding

open AxisSequence (Suits)

variable {mesh : Mesh}

namespace TensorProjection

variable {tensor : TensorProjection} {mapping : TensorMapping}

/-- The axes that are written along a mapping: those of the factors that it names and beyond them,
and the replicated ones. -/
def writtenAxes (tensor : TensorProjection) (mapping : TensorMapping) : AxisSequence :=
  (tensor.entries.filter fun entry => decide (entry.1 ∈ mapping.factors)).flatMap
    (fun entry => entry.2.allAxes) ++ tensor.replicated

/-- The shards of the factors of a dimension and beyond them, all together. -/
def shards (mesh : Mesh) (tensor : TensorProjection) (dim : DimMapping) : Nat :=
  dim.foldr (fun factor product => AxisSequence.shards mesh (tensor.axesOf factor) *
    AxisSequence.shards mesh (tensor.overflowOf factor) * product) 1

/-- The axes of the factors of a dimension and beyond them, before neighbours are joined. -/
def dimAxes (tensor : TensorProjection) (dim : DimMapping) : AxisSequence :=
  dim.flatMap fun factor => tensor.axesOf factor ++ tensor.overflowOf factor

/-- The shards along the axes of a dimension are those of its factors and beyond them. -/
theorem shards_dimAxes (mesh : Mesh) (tensor : TensorProjection) (dim : DimMapping) :
    AxisSequence.shards mesh (tensor.dimAxes dim) = tensor.shards mesh dim := by
  induction dim with
  | nil => rfl
  | cons factor rest ih =>
    have later : AxisSequence.shards mesh (rest.flatMap fun factor =>
        tensor.axesOf factor ++ tensor.overflowOf factor) = tensor.shards mesh rest := ih
    rw [dimAxes, List.flatMap_cons, AxisSequence.shards_append, AxisSequence.shards_append, later]
    rfl

/-- The entries of the factors in a list, in its order. -/
def entriesOf (tensor : TensorProjection) (factors : List Nat) : List (Nat × FactorSharding) :=
  factors.filterMap fun factor => (tensor.factor? factor).map (factor, ·)

theorem mem_entriesOf_iff {factors : List Nat} {entry : Nat × FactorSharding} :
    entry ∈ tensor.entriesOf factors ↔
      entry.1 ∈ factors ∧ tensor.factor? entry.1 = some entry.2 := by
  obtain ⟨factor, sharding⟩ := entry
  simp only [entriesOf, List.mem_filterMap, Option.map_eq_some_iff, Prod.mk.injEq]
  constructor
  · rintro ⟨_, member, _, found, rfl, rfl⟩
    exact ⟨member, found⟩
  · rintro ⟨member, found⟩
    exact ⟨factor, member, sharding, found, rfl, rfl⟩

theorem map_fst_entriesOf_sublist (factors : List Nat) :
    ((tensor.entriesOf factors).map Prod.fst).Sublist factors := by
  unfold entriesOf
  induction factors with
  | nil => exact .slnil
  | cons factor rest ih =>
    cases found : tensor.factor? factor with
    | none => simpa [found] using ih.cons factor
    | some sharding => simpa [found] using ih

/-- Factors in a list without repetition are found in the slots, in another order. -/
theorem entriesOf_perm {factors : List Nat} (distinct : factors.Nodup) :
    (tensor.entriesOf factors).Perm
      (tensor.entries.filter fun entry => decide (entry.1 ∈ factors)) := by
  refine (List.perm_ext_iff_of_nodup
    (List.Nodup.of_map _ ((map_fst_entriesOf_sublist factors).nodup distinct))
    ((List.Nodup.of_map _ tensor.entries_factors_nodup).filter _)).mpr fun entry => ?_
  rw [mem_entriesOf_iff, List.mem_filter, mem_entries_iff, decide_eq_true_iff, and_comm]

/-- A factor that the tensor does not map contributes no axes. -/
theorem flatMap_entriesOf (factors : List Nat) :
    ((tensor.entriesOf factors).flatMap fun entry => entry.2.allAxes) =
      tensor.dimAxes factors := by
  unfold dimAxes entriesOf
  induction factors with
  | nil => rfl
  | cons factor rest ih =>
    rw [List.flatMap_cons, ← ih, axesOf, overflowOf]
    cases found : tensor.factor? factor with
    | none =>
      rw [List.filterMap_cons_none (by rw [found]; rfl)]
      rfl
    | some sharding =>
      rw [List.filterMap_cons_some (by rw [found]; rfl)]
      rfl

theorem map_snd_entriesOf (factors : List Nat) :
    (tensor.entriesOf factors).map Prod.snd = tensor.sharesOf factors := by
  rw [entriesOf, List.map_filterMap, sharesOf]
  refine List.filterMap_congr fun factor _ => ?_
  rw [Option.map_map]
  exact Option.map_id'

theorem axes_dimSharding (mesh : Mesh) (tensor : TensorProjection) (dim : DimMapping) :
    (tensor.dimSharding mesh dim).axes = AxisSequence.joined mesh (tensor.dimAxes dim) := by
  rw [dimSharding, ← map_snd_entriesOf, List.flatMap_map, ← flatMap_entriesOf]
  rfl

/-- Along a mapping that uses no factor twice the axes are written dimension by dimension. -/
theorem perm_writtenAxes (distinct : mapping.factors.Nodup) :
    (mapping.flatMap tensor.dimAxes ++ tensor.replicated).Perm (tensor.writtenAxes mapping) := by
  have byFactor : mapping.flatMap tensor.dimAxes =
      (tensor.entriesOf mapping.factors).flatMap fun entry => entry.2.allAxes := by
    rw [flatMap_entriesOf, dimAxes, TensorMapping.factors, List.flatten_eq_flatMap,
      List.flatMap_assoc]
    rfl
  rw [byFactor, writtenAxes]
  exact ((entriesOf_perm distinct).flatMap_right _).append_right _

/-- What is written suits the mesh if the axes before neighbours are joined suit it. -/
theorem suits_toSharding {name : String}
    (suits : Suits mesh (mapping.flatMap tensor.dimAxes ++ tensor.replicated)) :
    Suits mesh (tensor.toSharding mesh name mapping).axes := by
  obtain ⟨dimsSuit, -, -⟩ := AxisSequence.suits_append_iff.mp suits
  obtain ⟨eachSuits, -⟩ := AxisSequence.suits_flatMap_iff.mp dimsSuit
  rw [TensorSharding.axes, toSharding, List.flatMap_map]
  have joined : ∀ dim ∈ mapping, Suits mesh (tensor.dimSharding mesh dim).axes ∧
      AxisSequence.Within mesh (tensor.dimSharding mesh dim).axes (tensor.dimAxes dim) := by
    intro dim isDim
    rw [axes_dimSharding]
    exact (eachSuits dim isDim).joined
  obtain ⟨writtenSuit, within⟩ := dimsSuit.flatMap_within joined
  exact suits.replace_front writtenSuit within

/-- **A tensor is written as a sharding that the check accepts**, and each of its dimensions has the
shards of its factors and beyond them, of which its size is what a word holds. The axes that are
written are to be accepted for the mesh and apart, and the mapping is to use no factor twice. -/
theorem check_toSharding (mesh : Mesh) (name : String) (mapping : TensorMapping)
    (distinct : mapping.factors.Nodup) (tensor : TensorProjection)
    (accepted : ∀ reference ∈ tensor.writtenAxes mapping, reference.check mesh = .ok ())
    (apart : (tensor.writtenAxes mapping).Pairwise fun first second => ¬ first.Overlaps second) :
    (tensor.toSharding mesh name mapping).check mesh mapping.length = .ok () ∧
      (tensor.toSharding mesh name mapping).dims.map (DimSharding.shards mesh) =
        mapping.map (tensor.shards mesh) ∧
      (tensor.toSharding mesh name mapping).dims.map (DimSharding.size mesh) =
        mapping.map fun dim => tensor.shards mesh dim % UInt64.size := by
  have written : Suits mesh (tensor.writtenAxes mapping) :=
    ⟨fun reference member => AxisRef.check_eq_ok_iff.mp (accepted reference member), apart⟩
  have suits := written.perm (perm_writtenAxes distinct).symm
  have counted : ∀ dim ∈ mapping,
      (tensor.dimSharding mesh dim).shards mesh = tensor.shards mesh dim := by
    intro dim isDim
    have fits : ∀ reference ∈ tensor.dimAxes dim, reference.Fits mesh := fun reference member =>
      suits.fits reference (List.mem_append_left _ (List.mem_flatMap.mpr ⟨dim, isDim, member⟩))
    rw [DimSharding.shards, axes_dimSharding, AxisSequence.shards_joined fits, shards_dimAxes]
  refine ⟨?_, ?_, ?_⟩
  · refine TensorSharding.check_eq_ok_iff.mpr ⟨List.length_map _, ?_, suits_toSharding suits⟩
    intro dim member
    obtain ⟨factors, -, rfl⟩ := List.mem_map.mp member
    rw [axes_dimSharding]
    exact AxisSequence.merged_joined _
  · rw [toSharding, List.map_map]
    exact List.map_congr_left counted
  · rw [toSharding, List.map_map]
    refine List.map_congr_left fun dim isDim => ?_
    rw [← counted dim isDim]
    exact AxisSequence.size_eq_mod mesh _

/-- Gates, and tracks behind each of them. -/
def yardMesh : Mesh where
  axes := [⟨"gate", 36, by decide, by decide, by decide⟩,
    ⟨"track", 22, by decide, by decide, by decide⟩]
  names_nodup := by decide

/-- Three factors with parts of the gates and the tracks, one of them with axes beyond it, and a
fourth one that is not written and has the gates as well. -/
def yardTensor : TensorProjection where
  slots := [some ⟨[.part "gate" 2 9, .part "gate" 18 2], [], true, false⟩,
    some ⟨[.part "gate" 1 2], [], true, false⟩, some ⟨[.whole "gate"], [], false, true⟩,
    some ⟨[.part "track" 1 2], [.part "track" 2 11], false, true⟩]
  replicated := []

/-- The gates are put together from the parts of two factors, and the tracks from a factor and what
is beyond it. -/
theorem yard_written :
    (yardTensor.toSharding yardMesh "yard" [[1, 0], [3]]).check yardMesh 2 = .ok () ∧
      (yardTensor.toSharding yardMesh "yard" [[1, 0], [3]]).dims.map (DimSharding.size yardMesh) =
        [36, 22] ∧
      (yardTensor.toSharding yardMesh "yard" [[1, 0], [3]]).dims =
        [⟨[.whole "gate"], true⟩, ⟨[.whole "track"], false⟩] := by
  obtain ⟨isAccepted, -, sizes⟩ := check_toSharding yardMesh "yard" [[1, 0], [3]] (by decide)
    yardTensor (by decide) (by decide)
  exact ⟨isAccepted, sizes, rfl⟩

end TensorProjection

end MeshSharding
