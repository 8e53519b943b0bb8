import Mathlib.Data.Nat.Factorization.PrimePow
import MeshSharding.Proofs.Axis.Shards
import MeshSharding.Proofs.Sharding.Suits

/-!
# Shards and devices

An accepted sharding cuts a tensor into at most as many shards as the mesh has
devices. Every shard is then held by the same number of devices if the number of
shards divides the number of devices, and that is another matter. Overlap
compares ranges: two parts of an axis are apart when one starts where the other
has ended or later. It need not start at a multiple of that end, and the sizes of
two such parts may multiply to a number that does not divide the axis
(`dozen_unevenly_sharded`).

The shards divide the devices when the parts are nested, each starting at a
multiple of where those before it end. On a mesh whose axes have sizes that are
powers of primes all parts are nested, because of two divisors of such a size the
smaller one divides the other. On every other mesh some accepted sharding has a
number of shards that does not divide the number of devices
(`TensorSharding.shardCount_devices`). The shards of a dimension are counted in
machine words, so this is about shardings of which no dimension has more shards
than a word can count (`TensorSharding.CountsInWord`).

Both statements about the number of shards are one, about the order of numbers by
size and by divisibility (`IsScale`). The references to one axis are sorted by
where they start, and each is placed behind those before it.
-/

set_option autoImplicit false

namespace MeshSharding

/-- The number of devices of a mesh: the product of the sizes of its axes. -/
def Mesh.deviceCount (mesh : Mesh) : Nat :=
  mesh.axes.foldr (fun axis count => axis.size * count) 1

/-- The number of shards of a tensor: the product of the sizes that its dimensions have. -/
def TensorSharding.shardCount (mesh : Mesh) (sharding : TensorSharding) : Nat :=
  sharding.dims.foldr (fun dim count => dim.size mesh * count) 1

/-- The number of shards of each dimension fits into a machine word. -/
def TensorSharding.CountsInWord (mesh : Mesh) (sharding : TensorSharding) : Prop :=
  ∀ dim ∈ sharding.dims, AxisSequence.CountsInWord mesh dim.axes

/-- Of two parts of one axis, one that starts where the other has ended starts at a multiple of that
end. -/
def AxisSequence.Nested (axes : AxisSequence) : Prop :=
  ∀ axis preSize size preSize' size', AxisRef.part axis preSize size ∈ axes →
    AxisRef.part axis preSize' size' ∈ axes → preSize * size ≤ preSize' →
      preSize * size ∣ preSize'

/-! ## Numbers of shards -/

namespace AxisSequence

variable {mesh : Mesh}

/-- Whole axes have as many shards as there are devices along them. -/
theorem shards_wholes {axes : List MeshAxis}
    (sizes : ∀ axis ∈ axes, mesh.axisSize? axis.name = some axis.size) :
    shards mesh (axes.map fun axis => .whole axis.name) =
      axes.foldr (fun axis count => axis.size * count) 1 := by
  induction axes with
  | nil => rfl
  | cons axis rest ih =>
    obtain ⟨isSize, laterSizes⟩ := List.forall_mem_cons.mp sizes
    rw [List.map_cons, shards, ih laterSizes, List.foldr_cons, AxisRef.size, isSize,
      Option.getD_some]

end AxisSequence

/-- The computed sizes of the dimensions multiply to no more than there are shards. -/
theorem TensorSharding.shardCount_le (mesh : Mesh) (sharding : TensorSharding) :
    sharding.shardCount mesh ≤
      AxisSequence.shards mesh (sharding.dims.flatMap DimSharding.axes) := by
  rw [shardCount]
  induction sharding.dims with
  | nil => exact Nat.le_refl 1
  | cons dim rest ih =>
    rw [List.foldr_cons, List.flatMap_cons, AxisSequence.shards_append, DimSharding.size,
      AxisSequence.size_eq_mod]
    exact Nat.mul_le_mul (Nat.mod_le _ _) ih

theorem TensorSharding.CountsInWord.shardCount_eq {mesh : Mesh} {sharding : TensorSharding}
    (counted : sharding.CountsInWord mesh) : sharding.shardCount mesh =
      AxisSequence.shards mesh (sharding.dims.flatMap DimSharding.axes) := by
  rw [CountsInWord] at counted
  rw [shardCount]
  generalize sharding.dims = dims at counted ⊢
  induction dims with
  | nil => rfl
  | cons dim rest ih =>
    obtain ⟨isCounted, later⟩ := List.forall_mem_cons.mp counted
    rw [List.foldr_cons, List.flatMap_cons, AxisSequence.shards_append, ih later, DimSharding.size,
      isCounted.size_eq]

namespace Mesh

variable {mesh : Mesh}

theorem deviceCount_pos (mesh : Mesh) : 0 < mesh.deviceCount := by
  rw [deviceCount]
  induction mesh.axes with
  | nil => exact Nat.one_pos
  | cons axis rest ih => exact Nat.mul_pos axis.size_pos ih

/-- The size of an axis of the mesh is found under its name. -/
theorem axisSize?_of_mem {axis : MeshAxis} (member : axis ∈ mesh.axes) :
    mesh.axisSize? axis.name = some axis.size := by
  obtain ⟨found, isFound⟩ : ∃ found, mesh.axes.find? (fun other => other.name == axis.name) =
      some found := by
    rw [← Option.isSome_iff_exists, List.find?_isSome]
    exact ⟨axis, member, beq_self_eq_true _⟩
  have sameName : found.name = axis.name := by simpa using List.find?_some isFound
  have same : found = axis :=
    List.inj_on_of_nodup_map mesh.names_nodup (List.mem_of_find?_eq_some isFound) member sameName
  rw [axisSize?, isFound, Option.map_some, same]

/-- A size that is found is that of an axis of the mesh with the name. -/
theorem exists_axis_of_axisSize? {name : String} {size : Nat}
    (found : mesh.axisSize? name = some size) :
    ∃ axis ∈ mesh.axes, axis.name = name ∧ axis.size = size := by
  obtain ⟨axis, isFound, isSize⟩ := Option.map_eq_some_iff.mp found
  exact ⟨axis, List.mem_of_find?_eq_some isFound, by simpa using List.find?_some isFound, isSize⟩

end Mesh

/-! ## References to one axis -/

namespace AxisRef

variable {mesh : Mesh} {reference first second : AxisRef}

/-- Where the range of a reference ends. -/
def stop (mesh : Mesh) (reference : AxisRef) : Nat :=
  reference.preSize * reference.size mesh

theorem Fits.stop_dvd (fits : reference.Fits mesh) {axisSize : Nat}
    (found : mesh.axisSize? reference.axis = some axisSize) : reference.stop mesh ∣ axisSize := by
  cases reference with
  | whole axis =>
    rw [AxisRef.axis] at found
    simp only [stop, preSize, size, found, Option.getD_some, Nat.one_mul, Nat.dvd_refl]
  | part axis preSize size =>
    obtain ⟨otherSize, isSize, -, -, divides⟩ := fits
    rw [AxisRef.axis, isSize] at found
    exact Option.some.inj found ▸ divides

theorem Fits.preSize_pos (fits : reference.Fits mesh) : 0 < reference.preSize := by
  cases reference with
  | whole axis => exact Nat.one_pos
  | part axis preSize size =>
    obtain ⟨-, -, started, -⟩ := fits
    exact started

theorem Fits.exists_axisSize (fits : reference.Fits mesh) :
    ∃ axisSize, mesh.axisSize? reference.axis = some axisSize := by
  cases reference with
  | whole axis => exact fits
  | part axis preSize size =>
    obtain ⟨axisSize, found, -⟩ := fits
    exact ⟨axisSize, found⟩

/-- Two references to one axis that do not overlap are parts. -/
theorem exists_parts_of_not_overlaps (same : first.axis = second.axis)
    (apart : ¬ first.Overlaps second) :
    ∃ axis preSize size preSize' size', first = .part axis preSize size ∧
      second = .part axis preSize' size' := by
  cases first with
  | whole axis =>
    cases second with
    | whole axis' => exact absurd same apart
    | part axis' preSize' size' => exact absurd same apart
  | part axis preSize size =>
    cases second with
    | whole axis' => exact absurd same apart
    | part axis' preSize' size' =>
      cases (show axis = axis' from same)
      exact ⟨axis, preSize, size, preSize', size', rfl, rfl⟩

/-- If they are in order, the first ends where the second starts or earlier. -/
theorem stop_le_of_not_overlaps (same : first.axis = second.axis)
    (apart : ¬ first.Overlaps second) (fits : first.Fits mesh) (otherFits : second.Fits mesh)
    (inOrder : first.preSize ≤ second.preSize) : first.stop mesh ≤ second.preSize := by
  obtain ⟨axis, preSize, size, preSize', size', rfl, rfl⟩ := exists_parts_of_not_overlaps same apart
  rw [Overlaps, fits.wordMul_eq, otherFits.wordMul_eq] at apart
  obtain ⟨-, -, started, several, -⟩ := otherFits
  change preSize ≤ preSize' at inOrder
  -- the second part is not empty, so it does not end before the first one starts
  have longer : preSize' * 1 < preSize' * size' := Nat.mul_lt_mul_of_pos_left several started
  exact Nat.le_of_not_lt fun before => apart ⟨rfl, by omega, before⟩

end AxisRef

/-- What the orders of numbers by size and by divisibility have in common. -/
structure IsScale (within : Nat → Nat → Prop) : Prop where
  of_dvd : ∀ {part whole : Nat}, 0 < whole → part ∣ whole → within part whole
  trans : ∀ {first second third : Nat}, within first second → within second third →
    within first third
  mul : ∀ {first second first' second' : Nat}, within first second → within first' second' →
    within (first * first') (second * second')

theorem isScale_le : IsScale (· ≤ ·) where
  of_dvd := Nat.le_of_dvd
  trans := Nat.le_trans
  mul := Nat.mul_le_mul

theorem isScale_dvd : IsScale (· ∣ ·) where
  of_dvd _ divides := divides
  trans := Nat.dvd_trans
  mul := Nat.mul_dvd_mul

namespace AxisSequence

variable {mesh : Mesh} {within : Nat → Nat → Prop}

/-- Of two references to one axis, one that starts where the other has ended starts within the
scale. -/
def Placed (within : Nat → Nat → Prop) (mesh : Mesh) (axes : AxisSequence) : Prop :=
  ∀ first ∈ axes, ∀ second ∈ axes, ¬ first.Overlaps second → first.axis = second.axis →
    first.stop mesh ≤ second.preSize → within (first.stop mesh) second.preSize

theorem Placed.subset {axes fewer : AxisSequence} (placed : Placed within mesh axes)
    (isSubset : fewer ⊆ axes) : Placed within mesh fewer :=
  fun first isFirst second isSecond =>
    placed first (isSubset isFirst) second (isSubset isSecond)

theorem placed_le (axes : AxisSequence) : Placed (· ≤ ·) mesh axes :=
  fun _ _ _ _ _ _ before => before

theorem Nested.placed {axes : AxisSequence} (nested : Nested axes) :
    Placed (· ∣ ·) mesh axes := by
  intro first isFirst second isSecond apart same before
  obtain ⟨axis, preSize, size, preSize', size', rfl, rfl⟩ :=
    AxisRef.exists_parts_of_not_overlaps same apart
  exact nested axis preSize size preSize' size' isFirst isSecond before

/-- References one behind the other, from a start on and up to an end. -/
theorem shards_within_of_chained (scale : IsScale within) {axes : AxisSequence} {start stop : Nat}
    (fits : ∀ reference ∈ axes, reference.Fits mesh)
    (chained : axes.Pairwise fun first second => within (first.stop mesh) second.preSize)
    (begins : ∀ reference ∈ axes, within start reference.preSize)
    (ends : ∀ reference ∈ axes, within (reference.stop mesh) stop) (isBelow : within start stop) :
    within (start * shards mesh axes) stop := by
  induction axes generalizing start with
  | nil => rwa [shards, Nat.mul_one]
  | cons reference rest ih =>
    obtain ⟨behind, restChained⟩ := List.pairwise_cons.mp chained
    obtain ⟨referenceFits, restFits⟩ := List.forall_mem_cons.mp fits
    obtain ⟨begun, -⟩ := List.forall_mem_cons.mp begins
    obtain ⟨ended, restEnds⟩ := List.forall_mem_cons.mp ends
    have reached : within (start * reference.size mesh) (reference.stop mesh) :=
      scale.mul begun (scale.of_dvd referenceFits.size_pos (Nat.dvd_refl _))
    rw [shards, ← Nat.mul_assoc]
    exact ih restFits restChained (fun other member => scale.trans reached (behind other member))
      restEnds (scale.trans reached ended)

/-- The references to one axis cut it into shards within the scale. -/
theorem shards_within_axis (scale : IsScale within) {axes : AxisSequence} (suits : Suits mesh axes)
    (placed : Placed within mesh axes) {name : String} {axisSize : Nat}
    (found : mesh.axisSize? name = some axisSize)
    (same : ∀ reference ∈ axes, reference.axis = name) : within (shards mesh axes) axisSize := by
  have sizePos := Mesh.axisSize?_pos found
  -- in the order of where they start, each reference ends before the next one
  let sorted := axes.mergeSort fun first second => decide (first.preSize ≤ second.preSize)
  have isPerm : sorted.Perm axes := List.mergeSort_perm ..
  have inOrder : sorted.Pairwise fun first second => first.preSize ≤ second.preSize := by
    have isSorted : sorted.Pairwise fun first second =>
        decide (first.preSize ≤ second.preSize) = true :=
      List.pairwise_mergeSort (by simp only [decide_eq_true_eq]; omega) (by simp; omega) axes
    simpa using isSorted
  have apart : sorted.Pairwise fun first second => ¬ first.Overlaps second :=
    isPerm.symm.pairwise suits.apart fun differ overlap => differ overlap.symm
  have fits : ∀ reference ∈ sorted, reference.Fits mesh :=
    fun reference member => suits.fits reference (isPerm.subset member)
  have chained : sorted.Pairwise fun first second => within (first.stop mesh) second.preSize := by
    refine (inOrder.and apart).imp_of_mem ?_
    rintro first second isFirst isSecond ⟨before, differ⟩
    have sameAxis : first.axis = second.axis :=
      (same first (isPerm.subset isFirst)).trans (same second (isPerm.subset isSecond)).symm
    exact placed first (isPerm.subset isFirst) second (isPerm.subset isSecond) differ sameAxis
      (AxisRef.stop_le_of_not_overlaps sameAxis differ (fits first isFirst)
        (fits second isSecond) before)
  rw [← shards_perm isPerm, ← Nat.one_mul (shards mesh sorted)]
  refine shards_within_of_chained scale fits chained (fun reference member => ?_)
    (fun reference member => ?_) (scale.of_dvd sizePos (Nat.one_dvd _))
  · exact scale.of_dvd (fits reference member).preSize_pos (Nat.one_dvd _)
  · refine scale.of_dvd sizePos ((fits reference member).stop_dvd ?_)
    rw [same reference (isPerm.subset member), found]

/-- References to several axes. -/
theorem shards_within_axes (scale : IsScale within) {axes : AxisSequence} {meshAxes : List MeshAxis}
    (distinct : (meshAxes.map MeshAxis.name).Nodup)
    (sizes : ∀ axis ∈ meshAxes, mesh.axisSize? axis.name = some axis.size)
    (suits : Suits mesh axes) (placed : Placed within mesh axes)
    (known : ∀ reference ∈ axes, reference.axis ∈ meshAxes.map MeshAxis.name) :
    within (shards mesh axes) (meshAxes.foldr (fun axis count => axis.size * count) 1) := by
  induction meshAxes generalizing axes with
  | nil =>
    have isEmpty : axes = [] :=
      List.eq_nil_iff_forall_not_mem.mpr fun reference member =>
        List.not_mem_nil (known reference member)
    rw [isEmpty]
    exact scale.of_dvd Nat.one_pos (Nat.dvd_refl _)
  | cons axis rest ih =>
    obtain ⟨fresh, restDistinct⟩ := List.nodup_cons.mp distinct
    obtain ⟨isSize, restSizes⟩ := List.forall_mem_cons.mp sizes
    let along : AxisRef → Bool := fun reference => reference.axis == axis.name
    have isPerm : (axes.filter along ++ axes.filter fun reference => !along reference).Perm axes :=
      List.filter_append_perm along axes
    rw [← shards_perm isPerm, shards_append, List.foldr_cons]
    refine scale.mul ?_ (ih restDistinct restSizes (suits.sublist List.filter_sublist)
      (placed.subset List.filter_sublist.subset) ?_)
    · refine shards_within_axis scale (suits.sublist List.filter_sublist)
        (placed.subset List.filter_sublist.subset) isSize fun reference member => ?_
      exact beq_iff_eq.mp (List.mem_filter.mp member).2
    · intro reference member
      obtain ⟨inAxes, other⟩ := List.mem_filter.mp member
      have differs : reference.axis ≠ axis.name := by simpa [along] using other
      exact (List.mem_cons.mp (known reference inAxes)).resolve_left differs

/-- References that suit a mesh have shards within the scale of its devices. -/
theorem shards_within_devices (scale : IsScale within) {axes : AxisSequence}
    (suits : Suits mesh axes) (placed : Placed within mesh axes) :
    within (shards mesh axes) mesh.deviceCount := by
  refine shards_within_axes scale mesh.names_nodup (fun axis => Mesh.axisSize?_of_mem) suits
    placed ?_
  intro reference member
  obtain ⟨axisSize, found⟩ := (suits.fits reference member).exists_axisSize
  obtain ⟨axis, isAxis, isName, -⟩ := Mesh.exists_axis_of_axisSize? found
  exact List.mem_map.mpr ⟨axis, isAxis, isName⟩

end AxisSequence

/-! ## Powers of primes -/

/-- Of two divisors of a power of a prime, the smaller one divides the other. -/
theorem dvd_of_le_of_dvd_prime_pow {prime exponent first second : Nat} (isPrime : prime.Prime)
    (divides : first ∣ prime ^ exponent) (divides' : second ∣ prime ^ exponent)
    (ordered : first ≤ second) : first ∣ second := by
  obtain ⟨low, -, rfl⟩ := (Nat.dvd_prime_pow isPrime).mp divides
  obtain ⟨high, -, rfl⟩ := (Nat.dvd_prime_pow isPrime).mp divides'
  exact Nat.pow_dvd_pow prime ((Nat.pow_le_pow_iff_right isPrime.one_lt).mp ordered)

/-- A number that is no power of a prime is a product of two coprime numbers. -/
theorem exists_coprime_of_not_isPrimePow {number : Nat} (positive : 0 < number)
    (notOne : number ≠ 1) (noPower : ¬ IsPrimePow number) :
    ∃ small large, small * large = number ∧ small.Coprime large ∧ 1 < small ∧ small < large := by
  let prime := number.minFac
  let small := prime ^ number.factorization prime
  let large := number / small
  have isPrime : prime.Prime := Nat.minFac_prime notOne
  have isProduct : small * large = number := Nat.ordProj_mul_ordCompl_eq_self number prime
  have coprime : small.Coprime large :=
    Nat.Coprime.pow_left _ (Nat.coprime_ordCompl isPrime positive.ne')
  have notSmall : small ≠ 1 := by
    intro isOne
    have noFactor : number.factorization prime = 0 :=
      (Nat.pow_eq_one.mp isOne).resolve_left isPrime.ne_one
    exact absurd (Nat.minFac_dvd number) (by
      rwa [Nat.Prime.dvd_iff_one_le_factorization isPrime positive.ne', Nat.not_le,
        Nat.lt_one_iff])
  have notLarge : large ≠ 1 := by
    intro isOne
    rw [isOne, Nat.mul_one] at isProduct
    exact noPower ((isPrimePow_iff_minFac_pow_factorization_eq notOne).mpr isProduct)
  have smallPos : 0 < small := Nat.pos_of_mul_pos_right (isProduct ▸ positive)
  have largePos : 0 < large := Nat.pos_of_mul_pos_left (isProduct ▸ positive)
  have differ : small ≠ large := by
    intro same
    rw [← same, Nat.coprime_self] at coprime
    exact notSmall coprime
  rcases Nat.lt_or_gt_of_ne differ with less | greater
  · exact ⟨small, large, isProduct, coprime, by omega, less⟩
  · exact ⟨large, small, (Nat.mul_comm ..).trans isProduct, coprime.symm, by omega, greater⟩

/-- Along every axis there is one device, or their number is a power of a prime. -/
def Mesh.HasPrimePowers (mesh : Mesh) : Prop :=
  ∀ axis ∈ mesh.axes, axis.size = 1 ∨ IsPrimePow axis.size

theorem AxisSequence.nested_of_hasPrimePowers {mesh : Mesh} (powers : mesh.HasPrimePowers)
    {axes : AxisSequence} (fits : ∀ reference ∈ axes, reference.Fits mesh) : axes.Nested := by
  intro axis preSize size preSize' size' isFirst isSecond before
  obtain ⟨axisSize, found, -, -, divides⟩ := fits _ isFirst
  obtain ⟨otherSize, isSize, -, -, divides'⟩ := fits _ isSecond
  cases Option.some.inj (found.symm.trans isSize)
  obtain ⟨meshAxis, isAxis, -, rfl⟩ := Mesh.exists_axis_of_axisSize? found
  obtain ⟨prime, exponent, isPrime, isPower⟩ :
      ∃ prime exponent : Nat, prime.Prime ∧ prime ^ exponent = meshAxis.size := by
    rcases powers meshAxis isAxis with isOne | isPower
    · exact ⟨2, 0, Nat.prime_two, isOne.symm⟩
    · obtain ⟨prime, exponent, isPrime, -, isPower⟩ := (isPrimePow_nat_iff _).mp isPower
      exact ⟨prime, exponent, isPrime, isPower⟩
  rw [← isPower] at divides divides'
  exact dvd_of_le_of_dvd_prime_pow isPrime divides
    ((Nat.dvd_mul_right ..).trans divides') before

/-! ## Other sizes -/

/-- A sharding with one part of an axis at its start, a part of the same size further on, and all
other axes whole, each in a dimension of its own. -/
def TensorSharding.withTwoParts (name : String) (size start : Nat) (others : List MeshAxis) :
    TensorSharding where
  mesh := "mesh"
  dims := ⟨[.part name 1 size], true⟩ :: ⟨[.part name start size], true⟩ ::
    others.map fun axis => ⟨[.whole axis.name], true⟩
  replicated := []

theorem TensorSharding.axes_withTwoParts (name : String) (size start : Nat)
    (others : List MeshAxis) :
    (withTwoParts name size start others).dims.flatMap DimSharding.axes =
      .part name 1 size :: .part name start size ::
        others.map fun axis => .whole axis.name := by
  rw [withTwoParts, List.flatMap_cons, List.flatMap_cons, List.flatMap_map, List.map_eq_flatMap,
    List.singleton_append, List.singleton_append]

namespace Mesh

variable {mesh : Mesh} {axis : MeshAxis} {front back : List MeshAxis} {small large : Nat}

/-- The parts may be of a divisor of the size, the second one after a greater divisor. -/
theorem check_withTwoParts (isSplit : mesh.axes = front ++ axis :: back)
    (isProduct : small * large = axis.size) (several : 1 < small) (less : small < large) :
    (TensorSharding.withTwoParts axis.name small large (front ++ back)).check mesh
      (TensorSharding.withTwoParts axis.name small large (front ++ back)).rank = .ok () := by
  have names : (mesh.axes.map MeshAxis.name).Perm
      (axis.name :: (front ++ back).map MeshAxis.name) := by
    rw [isSplit, ← List.map_cons]
    exact List.perm_middle.map _
  obtain ⟨fresh, distinct⟩ := List.nodup_cons.mp (names.nodup_iff.mp mesh.names_nodup)
  have found {other : MeshAxis} (member : other ∈ axis :: (front ++ back)) :
      mesh.axisSize? other.name = some other.size :=
    axisSize?_of_mem (isSplit ▸ List.perm_middle.mem_iff.mpr member)
  have isSize : mesh.axisSize? axis.name = some axis.size := found (List.mem_cons_self ..)
  have apart {reference : AxisRef} (isAxis : reference.axis = axis.name) {other : AxisRef}
      (member : other ∈ (front ++ back).map fun axis => AxisRef.whole axis.name) :
      ¬ reference.Overlaps other := by
    obtain ⟨otherAxis, isOther, rfl⟩ := List.mem_map.mp member
    intro overlap
    rw [AxisRef.overlaps_whole_iff, isAxis] at overlap
    exact fresh (List.mem_map.mpr ⟨otherAxis, isOther, overlap.symm⟩)
  refine TensorSharding.DimsSuit.check ⟨rfl, ?_, ?_⟩ rfl
  · intro dim isDim
    simp only [TensorSharding.withTwoParts, List.mem_cons, List.mem_map] at isDim
    rcases isDim with rfl | rfl | ⟨other, -, rfl⟩ <;> exact .singleton _
  · rw [TensorSharding.axes_withTwoParts]
    refine ⟨?_, ?_⟩
    · simp only [List.forall_mem_cons, List.forall_mem_map]
      refine ⟨⟨axis.size, isSize, Nat.one_pos, several, ?_⟩,
        ⟨axis.size, isSize, by omega, several, ?_⟩, fun other member => ⟨other.size, ?_⟩⟩
      · rw [Nat.one_mul]
        exact ⟨large, isProduct.symm⟩
      · rw [Nat.mul_comm, isProduct]
      · exact found (List.mem_cons_of_mem _ member)
    · refine .cons ?_ (.cons (fun other member => apart rfl member) ?_)
      · intro other member
        rcases List.mem_cons.mp member with rfl | isWhole
        · rintro ⟨-, -, before⟩
          have noMore : wordMul 1 small ≤ 1 * small := Nat.mod_le _ _
          omega
        · exact apart rfl isWhole
      · refine List.pairwise_map.mpr ((List.pairwise_map.mp distinct).imp ?_)
        exact fun differ overlap => differ overlap

/-- The parts have the square of their size as shards, and that does not divide the axis. -/
theorem shards_withTwoParts_not_dvd (isSplit : mesh.axes = front ++ axis :: back)
    (isProduct : small * large = axis.size) (coprime : small.Coprime large) (several : 1 < small) :
    ¬ AxisSequence.shards mesh ((TensorSharding.withTwoParts axis.name small large
      (front ++ back)).dims.flatMap DimSharding.axes) ∣ mesh.deviceCount := by
  have sizes : ∀ other ∈ mesh.axes, mesh.axisSize? other.name = some other.size :=
    fun other => axisSize?_of_mem
  have isDevices : mesh.deviceCount = axis.size * AxisSequence.shards mesh
      ((front ++ back).map fun axis => .whole axis.name) := by
    have isPerm : (mesh.axes.map fun axis => AxisRef.whole axis.name).Perm
        (.whole axis.name :: (front ++ back).map fun axis => AxisRef.whole axis.name) := by
      rw [isSplit]
      exact List.perm_middle.map _
    rw [deviceCount, ← AxisSequence.shards_wholes sizes, AxisSequence.shards_perm isPerm,
      AxisSequence.shards, AxisRef.size, sizes axis (by simp [isSplit]), Option.getD_some]
  have others : 0 < AxisSequence.shards mesh
      ((front ++ back).map fun axis => .whole axis.name) :=
    Nat.pos_of_mul_pos_left (isDevices ▸ mesh.deviceCount_pos)
  rw [TensorSharding.axes_withTwoParts, AxisSequence.shards, AxisSequence.shards, AxisRef.size,
    AxisRef.size, ← Nat.mul_assoc, isDevices]
  intro divides
  have square : small * small ∣ small * large := by
    rw [isProduct]
    exact Nat.dvd_of_mul_dvd_mul_right others divides
  have within : small ∣ large := Nat.dvd_of_mul_dvd_mul_left (by omega) square
  have isOne : small = 1 := Nat.eq_one_of_dvd_coprimes coprime (Nat.dvd_refl _) within
  omega

end Mesh

/-- Every dimension has one reference, and what fits has no more shards than a word can count. -/
theorem TensorSharding.countsInWord_withTwoParts {mesh : Mesh} {name : String} {size start : Nat}
    {others : List MeshAxis} (accepted : (withTwoParts name size start others).check mesh
      (withTwoParts name size start others).rank = .ok ()) :
    (withTwoParts name size start others).CountsInWord mesh := by
  intro dim isDim
  have fits := (dimsSuit_of_check accepted).suits.fits
  obtain ⟨reference, isAxes⟩ : ∃ reference, dim.axes = [reference] := by
    simp only [withTwoParts, List.mem_cons, List.mem_map] at isDim
    rcases isDim with rfl | rfl | ⟨other, -, rfl⟩ <;> exact ⟨_, rfl⟩
  have referenceFits : reference.Fits mesh :=
    fits reference (List.mem_flatMap.mpr ⟨dim, isDim, isAxes ▸ List.mem_singleton_self _⟩)
  rw [isAxes, AxisSequence.CountsInWord, AxisSequence.shards, AxisSequence.shards, Nat.mul_one]
  exact referenceFits.size_lt

/-- **An accepted sharding has at most as many shards as there are devices,** and a number of shards
that divides theirs if its parts are nested and the shards of each dimension are as many as a word
can count. For all such shardings the number divides exactly on the meshes whose axes have powers of
primes as sizes, be their parts nested or not. -/
theorem TensorSharding.shardCount_devices (mesh : Mesh) :
    (∀ (rank : Nat) (sharding : TensorSharding), sharding.check mesh rank = .ok () →
      sharding.shardCount mesh ≤ mesh.deviceCount ∧
        (AxisSequence.Nested (sharding.dims.flatMap DimSharding.axes) →
          sharding.CountsInWord mesh → sharding.shardCount mesh ∣ mesh.deviceCount)) ∧
      ((∀ (rank : Nat) (sharding : TensorSharding), sharding.check mesh rank = .ok () →
        sharding.CountsInWord mesh → sharding.shardCount mesh ∣ mesh.deviceCount) ↔
          mesh.HasPrimePowers) := by
  have bounded {rank : Nat} {sharding : TensorSharding}
      (accepted : sharding.check mesh rank = .ok ()) :
      sharding.shardCount mesh ≤ mesh.deviceCount :=
    Nat.le_trans (shardCount_le mesh sharding) (AxisSequence.shards_within_devices isScale_le
      (dimsSuit_of_check accepted).suits (AxisSequence.placed_le _))
  have divides {rank : Nat} {sharding : TensorSharding}
      (accepted : sharding.check mesh rank = .ok ())
      (nested : AxisSequence.Nested (sharding.dims.flatMap DimSharding.axes))
      (counted : sharding.CountsInWord mesh) :
      sharding.shardCount mesh ∣ mesh.deviceCount := by
    rw [counted.shardCount_eq]
    exact AxisSequence.shards_within_devices isScale_dvd (dimsSuit_of_check accepted).suits
      nested.placed
  refine ⟨fun rank sharding accepted => ⟨bounded accepted, divides accepted⟩, ?_, ?_⟩
  · intro always axis isAxis
    by_cases isOne : axis.size = 1
    · exact .inl isOne
    · refine .inr (Decidable.byContradiction fun noPower => ?_)
      obtain ⟨small, large, isProduct, coprime, several, less⟩ :=
        exists_coprime_of_not_isPrimePow axis.size_pos isOne noPower
      obtain ⟨front, back, isSplit⟩ := List.append_of_mem isAxis
      have accepted := Mesh.check_withTwoParts isSplit isProduct several less
      have counted := countsInWord_withTwoParts accepted
      refine Mesh.shards_withTwoParts_not_dvd isSplit isProduct coprime several ?_
      rw [← counted.shardCount_eq]
      exact always _ _ accepted counted
  · intro powers rank sharding accepted
    exact divides accepted (AxisSequence.nested_of_hasPrimePowers powers
      (dimsSuit_of_check accepted).suits.fits)

/-- Twelve devices along one axis. -/
def dozenMesh : Mesh where
  axes := [⟨"ring", 12, by decide, by decide, by decide⟩]
  names_nodup := by decide

/-- Two dimensions along parts of the axis: two shards from the start on, four behind three. -/
def dozenSharding : TensorSharding where
  mesh := "mesh"
  dims := [⟨[.part "ring" 1 2], true⟩, ⟨[.part "ring" 3 4], true⟩]
  replicated := []

/-- Parts that are apart without being nested: eight shards on twelve devices. -/
theorem dozen_unevenly_sharded :
    dozenSharding.check dozenMesh 2 = .ok () ∧ dozenSharding.shardCount dozenMesh = 8 ∧
      dozenMesh.deviceCount = 12 ∧
      ¬ dozenSharding.shardCount dozenMesh ∣ dozenMesh.deviceCount := by decide

/-- A dimension along two axes with more devices together than a word can count. -/
def vastSharding : TensorSharding where
  mesh := "mesh"
  dims := [⟨[.whole "ring", .whole "rail"], true⟩]
  replicated := []

/-- It is nested, and a word holds nothing of the number of its shards. -/
example (mesh : Mesh) (isMesh : Mesh.ofPairs [("ring", 4294967296), ("rail", 4294967296)] =
    .ok mesh) : vastSharding.check mesh 1 = .ok () ∧ vastSharding.shardCount mesh = 0 := by
  cases isMesh
  decide

end MeshSharding
