import Mathlib.Data.List.Nodup
import MeshSharding.Proofs.Projection.ReadBack

/-!
# What the factors of a tensor get

Reading a sharding hands the axes of each dimension out to its factors. A factor
gets axes whose shards divide its size, and a factor behind others gets axes only
when those in front are used up by theirs. This holds for factors and axes of any
sizes: what a factor has taken and what remains of it always multiply to its size
(`Takes.remaining_mul_shards`), whether an axis was taken, cut or left.

All axes of a tensor fit the mesh and are apart, so they are axes of one sharding
again. Nothing is lost: the axes of the factors of a dimension and those beyond
them are in their order the axes of the dimension, some of them cut into parts.
Hence the number of shards of a dimension without overflow divides the product of
the sizes of its factors (`TensorProjection.ofSharding_handsOut`). If that product
fits into a machine word, so does the number of shards, and it is the size of the
dimension that is computed.
-/

set_option autoImplicit false

namespace MeshSharding

open AxisSequence (Suits Refines)

variable {mesh : Mesh} {sizes : List Nat} {entries : List (Nat × FactorSharding)}

/-- The number of shards of a dimension, whatever a machine word holds of it. -/
def DimSharding.shards (mesh : Mesh) (dim : DimSharding) : Nat :=
  AxisSequence.shards mesh dim.axes

/-- The product of the sizes of the factors. -/
def DimMapping.size (sizes : List Nat) (dim : DimMapping) : Nat :=
  dim.foldr (fun factor product => sizes[factor]?.getD 1 * product) 1

theorem DimMapping.size_pos (positive : ∀ size ∈ sizes, 0 < size) (dim : DimMapping) :
    0 < dim.size sizes := by
  induction dim with
  | nil => exact Nat.one_pos
  | cons factor rest ih =>
    refine Nat.mul_pos ?_ ih
    cases found : sizes[factor]? with
    | none => exact Nat.one_pos
    | some size => exact positive size (List.mem_of_getElem? found)

namespace TensorProjection

/-- The axes beyond a factor; none if the tensor does not map it. -/
def overflowOf (tensor : TensorProjection) (factor : Nat) : AxisSequence :=
  ((tensor.factor? factor).map FactorSharding.overflow).getD []

/-- All axes of a tensor: those of its factors and beyond them, and the replicated ones. -/
def axes (tensor : TensorProjection) : AxisSequence :=
  tensor.entries.flatMap (fun entry => entry.2.allAxes) ++ tensor.replicated

/-- The tensor has the axes of a sharding, handed out along a mapping to factors of given sizes. -/
structure HandsOut (mesh : Mesh) (sizes : List Nat) (mapping : TensorMapping)
    (sharding : TensorSharding) (tensor : TensorProjection) : Prop where
  isSome_iff : ∀ factor, (tensor.factor? factor).isSome ↔ factor ∈ mapping.factors
  replicated : tensor.replicated = sharding.replicated
  refines : ∀ (index : Nat) (dim : DimMapping) (own : DimSharding), mapping[index]? = some dim →
    sharding.dims[index]? = some own → dim ≠ [] →
      Refines mesh own.axes (dim.flatMap fun factor =>
        tensor.axesOf factor ++ tensor.overflowOf factor)
  divides : ∀ factor ∈ mapping.factors, ∃ size, sizes[factor]? = some size ∧
    AxisSequence.shards mesh (tensor.axesOf factor) ∣ size
  used_up : ∀ dim ∈ mapping, dim.Pairwise fun major minor =>
    tensor.axesOf minor ≠ [] ∨ tensor.overflowOf minor ≠ [] →
      sizes[major]? = some (AxisSequence.shards mesh (tensor.axesOf major))
  fits : ∀ reference ∈ tensor.axes, reference.check mesh = .ok ()
  apart : tensor.axes.Pairwise fun first second => ¬ first.Overlaps second
  dims : ∀ (index : Nat) (dim : DimMapping) (own : DimSharding), mapping[index]? = some dim →
    sharding.dims[index]? = some own → dim ≠ [] →
      (∀ factor ∈ dim, tensor.overflowOf factor = []) →
        own.shards mesh ∣ dim.size sizes ∧
          (dim.size sizes < UInt64.size → own.size mesh ∣ dim.size sizes)

end TensorProjection

/-! ## Dimensions -/

/-- A factor of a dimension gets axes whose shards divide its size. -/
theorem dvd_of_dimEntries {dim : DimMapping} {pending : AxisSequence} {isClosed : Bool}
    (isOk : dimEntries mesh sizes isClosed pending dim = .ok entries) :
    ∀ entry ∈ entries, ∃ size, sizes[entry.1]? = some size ∧
      AxisSequence.shards mesh entry.2.axes ∣ size := by
  intro entry member
  obtain ⟨size, axes, share, isSize, takes, isTaken⟩ := takes_of_dimEntries isOk entry member
  exact ⟨size, isSize, isTaken ▸ takes.shards_taken_dvd⟩

/-- A factor before one that has got axes has exactly as many shards as its size. -/
theorem shards_eq_of_dimEntries {dim : DimMapping} {pending : AxisSequence} {isClosed : Bool}
    (isOk : dimEntries mesh sizes isClosed pending dim = .ok entries)
    (positive : ∀ size ∈ sizes, 0 < size) :
    entries.Pairwise fun major minor => minor.2.allAxes ≠ [] →
      sizes[major.1]? = some (AxisSequence.shards mesh major.2.axes) := by
  refine (used_up_of_dimEntries isOk).imp_of_mem fun isMajor _ usedUp hasAxes => ?_
  obtain ⟨size, isSize, divides⟩ := dvd_of_dimEntries isOk _ isMajor
  have atMost := Nat.le_of_dvd (positive size (List.mem_of_getElem? isSize)) divides
  rw [isSize, Nat.le_antisymm (usedUp hasAxes size isSize) atMost]

/-- If the shards of each factor divide its size, those of all of them divide the product. -/
theorem shards_flatMap_dvd {axesFor : Nat → AxisSequence} {dim : DimMapping}
    (each : ∀ factor ∈ dim, ∃ size, sizes[factor]? = some size ∧
      AxisSequence.shards mesh (axesFor factor) ∣ size) :
    AxisSequence.shards mesh (dim.flatMap axesFor) ∣ dim.size sizes := by
  induction dim with
  | nil => exact Nat.dvd_refl _
  | cons factor rest ih =>
    obtain ⟨⟨size, isSize, divides⟩, later⟩ := List.forall_mem_cons.mp each
    rw [List.flatMap_cons, AxisSequence.shards_append, DimMapping.size, List.foldr_cons, isSize,
      Option.getD_some]
    exact Nat.mul_dvd_mul divides (ih later)

/-! ## Tensors -/

namespace TensorProjection

variable {tensor : TensorProjection} {mapping : TensorMapping} {dim : DimMapping}

namespace HasEntries

theorem axesOf_eq (has : tensor.HasEntries entries) {entry : Nat × FactorSharding}
    (member : entry ∈ entries) : tensor.axesOf entry.1 = entry.2.axes := by
  rw [axesOf, (has entry).mpr member]
  rfl

theorem overflowOf_eq (has : tensor.HasEntries entries) {entry : Nat × FactorSharding}
    (member : entry ∈ entries) : tensor.overflowOf entry.1 = entry.2.overflow := by
  rw [overflowOf, (has entry).mpr member]
  rfl

/-- The entries of the tensor are these, in the order of the factors. -/
theorem perm (has : tensor.HasEntries entries) (distinct : (entries.map Prod.fst).Nodup) :
    entries.Perm tensor.entries :=
  (List.perm_ext_iff_of_nodup (List.Nodup.of_map _ distinct)
    (List.Nodup.of_map _ tensor.entries_factors_nodup)).mpr
      fun entry => (has entry).symm.trans mem_entries_iff.symm

/-- All axes of the tensor suit the mesh if those of the entries do with the replicated ones. -/
theorem suits_axes (has : tensor.HasEntries entries) (distinct : (entries.map Prod.fst).Nodup)
    (suits : Suits mesh ((entries.flatMap fun entry => entry.2.allAxes) ++ tensor.replicated)) :
    Suits mesh tensor.axes :=
  suits.perm (((has.perm distinct).flatMap_right _).append_right _)

variable {dims : List DimSharding}

/-- The shards of each factor divide its size. -/
theorem divides (has : tensor.HasEntries entries)
    (isOk : tensorEntries mesh sizes dims mapping = .ok entries) :
    ∀ factor ∈ mapping.factors, ∃ size, sizes[factor]? = some size ∧
      AxisSequence.shards mesh (tensor.axesOf factor) ∣ size := by
  rw [← factors_of_tensorEntries isOk]
  refine List.forall_mem_map.mpr fun entry member => ?_
  obtain ⟨index, dim, own, -, ownOk, isOwn⟩ := mem_tensorEntries isOk member
  rw [has.axesOf_eq member]
  exact dvd_of_dimEntries ownOk entry isOwn

/-- A factor of a dimension before one that has got axes is used up. -/
theorem used_up (has : tensor.HasEntries entries)
    (isOk : tensorEntries mesh sizes dims mapping = .ok entries)
    (positive : ∀ size ∈ sizes, 0 < size) (isDim : dim ∈ mapping) :
    dim.Pairwise fun major minor => tensor.axesOf minor ≠ [] ∨ tensor.overflowOf minor ≠ [] →
      sizes[major]? = some (AxisSequence.shards mesh (tensor.axesOf major)) := by
  obtain ⟨index, found⟩ := List.mem_iff_getElem?.mp isDim
  obtain ⟨own, ownOk, within⟩ := dimEntries_of_tensorEntries isOk found
  rw [← factors_of_dimEntries ownOk, List.pairwise_map]
  refine (shards_eq_of_dimEntries ownOk positive).imp_of_mem
    fun isMajor isMinor exactly hasAxes => ?_
  rw [has.axesOf_eq (within isMinor), has.overflowOf_eq (within isMinor), ← not_and_or,
    ← List.append_eq_nil_iff] at hasAxes
  rw [has.axesOf_eq (within isMajor)]
  exact exactly hasAxes

/-- The axes of the factors of a dimension and those beyond them are its axes cut into parts. -/
theorem refines (has : tensor.HasEntries entries)
    (isOk : tensorEntries mesh sizes dims mapping = .ok entries)
    (suits : Suits mesh (dims.flatMap DimSharding.axes))
    (declared : ∀ factor ∈ mapping.factors, factor < sizes.length) {index : Nat}
    {read : DimSharding} (isDim : mapping[index]? = some dim) (isRead : dims[index]? = some read)
    (someFactor : dim ≠ []) : Refines mesh read.axes (dim.flatMap fun factor =>
      tensor.axesOf factor ++ tensor.overflowOf factor) := by
  obtain ⟨own, ownOk, within⟩ := dimEntries_of_tensorEntries isOk isDim
  rw [isRead] at ownOk
  have readSuits : Suits mesh read.axes :=
    (AxisSequence.suits_flatMap_iff.mp suits).1 read (List.mem_of_getElem? isRead)
  have dimDeclared : ∀ factor ∈ dim, factor < sizes.length := fun factor member =>
    declared factor (List.mem_flatten.mpr ⟨dim, List.mem_of_getElem? isDim, member⟩)
  obtain ⟨again, againOk, refines⟩ := dimEntries_spec read.isClosed readSuits dimDeclared
  cases ownOk.symm.trans againOk
  have inOrder : (dim.flatMap fun factor => tensor.axesOf factor ++ tensor.overflowOf factor) =
      own.flatMap fun entry => entry.2.allAxes := by
    rw [← factors_of_dimEntries ownOk, List.flatMap_map]
    refine List.flatMap_congr fun entry isEntry => ?_
    rw [has.axesOf_eq (within isEntry), has.overflowOf_eq (within isEntry),
      FactorSharding.allAxes]
  rw [inOrder]
  exact refines someFactor

end HasEntries

/-- The shards of a dimension without overflow divide the product of the sizes of its factors. -/
theorem shards_dvd_of_refines {axes : AxisSequence}
    (refines : Refines mesh axes (dim.flatMap fun factor =>
      tensor.axesOf factor ++ tensor.overflowOf factor))
    (divides : ∀ factor ∈ dim, ∃ size, sizes[factor]? = some size ∧
      AxisSequence.shards mesh (tensor.axesOf factor) ∣ size)
    (holds : ∀ factor ∈ dim, tensor.overflowOf factor = []) :
    AxisSequence.shards mesh axes ∣ dim.size sizes := by
  have noOverflow : (dim.flatMap fun factor => tensor.axesOf factor ++ tensor.overflowOf factor) =
      dim.flatMap tensor.axesOf :=
    List.flatMap_congr fun factor member => by rw [holds factor member, List.append_nil]
  rw [← refines.shards_eq, noOverflow]
  exact shards_flatMap_dvd divides

/-- **A sharding that suits the mesh and has the rank of a mapping can be handed out along it**, if
the mapping uses no factor twice and the factors have positive sizes. -/
theorem ofSharding_handsOut (mesh : Mesh) (sizes : List Nat) (mapping : TensorMapping)
    (sharding : TensorSharding) (accepted : sharding.check mesh mapping.length = .ok ())
    (distinct : mapping.factors.Nodup)
    (declared : ∀ factor ∈ mapping.factors, factor < sizes.length)
    (positive : ∀ size ∈ sizes, 0 < size) :
    ∃ tensor, TensorProjection.ofSharding mesh sizes mapping (some sharding) = .ok tensor ∧
      tensor.HandsOut mesh sizes mapping sharding := by
  obtain ⟨-, -, suits⟩ := TensorSharding.check_eq_ok_iff.mp accepted
  have dimsSuit := (AxisSequence.suits_append_iff.mp suits).1
  obtain ⟨entries, entriesOk, entriesSuit, within⟩ := tensorEntries_spec dimsSuit declared
  refine ⟨⟨filledSlots sizes.length entries, sharding.replicated⟩,
    ofSharding_eq_ok_iff.mpr ⟨entries, entriesOk, rfl⟩, ?_⟩
  have factors := factors_of_tensorEntries entriesOk
  have has := hasEntries_filledSlots sharding.replicated entriesOk declared distinct
  have allSuit := has.suits_axes (factors ▸ distinct) (suits.replace_front entriesSuit within)
  refine
    { isSome_iff := fun _ => factors ▸ has.isSome_iff
      replicated := rfl
      refines := fun _ _ _ => has.refines entriesOk dimsSuit declared
      divides := has.divides entriesOk
      used_up := fun _ => has.used_up entriesOk positive
      fits := fun reference member => AxisRef.check_eq_ok_iff.mpr (allSuit.fits reference member)
      apart := allSuit.apart
      dims := ?_ }
  intro index dim read isDim isRead someFactor holds
  have isMapped : ∀ factor ∈ dim, factor ∈ mapping.factors := fun factor member =>
    List.mem_flatten.mpr ⟨dim, List.mem_of_getElem? isDim, member⟩
  have divides : read.shards mesh ∣ dim.size sizes :=
    shards_dvd_of_refines (has.refines entriesOk dimsSuit declared isDim isRead someFactor)
      (fun factor member => has.divides entriesOk factor (isMapped factor member)) holds
  refine ⟨divides, fun bounded => ?_⟩
  have counted : AxisSequence.CountsInWord mesh read.axes :=
    Nat.lt_of_le_of_lt (Nat.le_of_dvd (DimMapping.size_pos positive dim) divides) bounded
  rwa [DimSharding.size, counted.size_eq]

/-- Axes whose sizes divide no factor, and one along which nothing is sharded. -/
def unevenMesh : Mesh where
  axes := [⟨"wide", 15, by decide, by decide, by decide⟩,
    ⟨"deep", 14, by decide, by decide, by decide⟩,
    ⟨"spare", 11, by decide, by decide, by decide⟩]
  names_nodup := by decide

/-- One dimension along two axes, and one that is not sharded. -/
def unevenSharding : TensorSharding where
  mesh := "mesh"
  dims := [⟨[.whole "wide", .whole "deep"], false⟩, .openEmpty]
  replicated := [.whole "spare"]

/-- A factor of size three takes the major part of the first axis and is used up. The next one takes
what is left of the axis and a part of the second, and keeps the rest of this beyond it. -/
theorem uneven_handed_out :
    ∃ tensor, TensorProjection.ofSharding unevenMesh [3, 20, 13] [[0, 1], [2]]
        (some unevenSharding) = .ok tensor ∧
      tensor.HandsOut unevenMesh [3, 20, 13] [[0, 1], [2]] unevenSharding ∧
      tensor.axesOf 0 = [.part "wide" 1 3] ∧
      tensor.axesOf 1 = [.part "wide" 3 5, .part "deep" 1 2] ∧
      tensor.overflowOf 1 = [.part "deep" 2 7] := by
  obtain ⟨tensor, isRead, handsOut⟩ := ofSharding_handsOut unevenMesh [3, 20, 13] [[0, 1], [2]]
    unevenSharding (by decide +kernel) (by decide) (by decide) (by decide)
  refine ⟨tensor, isRead, handsOut, ?_⟩
  obtain rfl : tensor = ⟨[some ⟨[.part "wide" 1 3], [], false, false⟩,
      some ⟨[.part "wide" 3 5, .part "deep" 1 2], [.part "deep" 2 7], false, true⟩,
      some ⟨[], [], false, true⟩], [.whole "spare"]⟩ := by
    have computed : TensorProjection.ofSharding unevenMesh [3, 20, 13] [[0, 1], [2]]
        (some unevenSharding) = .ok _ := rfl
    exact Except.ok.inj (isRead.symm.trans computed)
  exact ⟨rfl, rfl, rfl⟩

end TensorProjection

end MeshSharding
