import MeshSharding.Proofs.Axis.Suits
import MeshSharding.Proofs.ListsAndChecks

/-!
# Computing within the axes

What is computed with axis references can be computed with care: a product of
sizes along an axis is refused if it is greater than the axis, and a quotient is
refused if the divisor is zero or something remains. References that fit the
mesh give no occasion to refuse. What precedes a reference, together with it, is
no greater than the axis (`AxisRef.Fits.mul_le`), and all products that come up
are such products or smaller ones: the start of the rest of a cut reference, the
ends of parts that are held against each other, the shards of two parts that are
joined. So the careful operations have the same results as those without care.
-/

set_option autoImplicit false

namespace MeshSharding

variable {mesh : Mesh}

/-! ## Products and quotients -/

/-- The product of two sizes along an axis, unless it is greater than the axis. -/
def Mesh.product? (mesh : Mesh) (axis : String) (first second : Nat) : Option Nat := do
  let axisSize ← mesh.axisSize? axis
  if first * second ≤ axisSize then some (first * second) else none

/-- The quotient of two sizes, unless the divisor is zero or something remains. -/
def quotient? (dividend divisor : Nat) : Option Nat :=
  if 0 < divisor ∧ divisor ∣ dividend then some (dividend / divisor) else none

theorem Mesh.product?_eq_some {axis : String} {axisSize first second : Nat}
    (found : mesh.axisSize? axis = some axisSize) (bounded : first * second ≤ axisSize) :
    mesh.product? axis first second = some (first * second) := by
  rw [product?, found]
  exact if_pos bounded

theorem quotient?_eq_some {dividend divisor : Nat} (positive : 0 < divisor)
    (divides : divisor ∣ dividend) : quotient? dividend divisor = some (dividend / divisor) :=
  if_pos ⟨positive, divides⟩

namespace AxisRef

/-! ## Careful operations on references -/

/-- A reference cut in two. -/
def splitWithin? (mesh : Mesh) (reference : AxisRef) (majorSize : Nat) :
    Option (AxisRef × AxisRef) := do
  let start ← mesh.product? reference.axis reference.preSize majorSize
  let minorSize ← quotient? (reference.size mesh) majorSize
  return (.part reference.axis reference.preSize majorSize,
    .part reference.axis start minorSize)

/-- Whether two references overlap. -/
def overlapsWithin? (mesh : Mesh) : AxisRef → AxisRef → Option Bool
  | .part axis preSize size, .part axis' preSize' size' =>
    if axis = axis' then do
      let stop ← mesh.product? axis preSize size
      let stop' ← mesh.product? axis' preSize' size'
      return decide (preSize < stop' ∧ preSize' < stop)
    else some false
  | first, second => some (decide (first.axis = second.axis))

/-- Whether the second part starts where the first one ends. -/
def adjoinsWithin? (mesh : Mesh) : AxisRef → AxisRef → Option Bool
  | .part axis preSize size, .part axis' preSize' _ =>
    if axis = axis' then do
      let stop ← mesh.product? axis preSize size
      return decide (stop = preSize')
    else some false
  | _, _ => some false

/-- The reference that covers two adjoining parts. -/
def joinWithin? (mesh : Mesh) (major minor : AxisRef) : Option AxisRef := do
  let size ← mesh.product? major.axis (major.size mesh) (minor.size mesh)
  return if major.preSize = 1 ∧ mesh.axisSize? major.axis = some size then .whole major.axis
    else .part major.axis major.preSize size

/-! ## Nothing is refused -/

variable {reference major minor first second : AxisRef}

/-- The end of a part is within its axis. -/
theorem Fits.product?_eq_some {axis : String} {preSize size : Nat}
    (fits : (part axis preSize size).Fits mesh) :
    mesh.product? axis preSize size = some (preSize * size) := by
  obtain ⟨axisSize, found, bounded⟩ := fits.mul_le
  exact Mesh.product?_eq_some found bounded

theorem Fits.splitWithin?_eq_some (fits : reference.Fits mesh) {majorSize : Nat}
    (divides : majorSize ∣ reference.size mesh) :
    reference.splitWithin? mesh majorSize = some (reference.split mesh majorSize) := by
  have shorter := Nat.le_of_dvd fits.size_pos divides
  obtain ⟨axisSize, found, bounded⟩ := fits.mul_le
  have start := Mesh.product?_eq_some found
    (Nat.le_trans (Nat.mul_le_mul_left reference.preSize shorter) bounded)
  rw [splitWithin?, start, quotient?_eq_some (Nat.pos_of_dvd_of_pos divides fits.size_pos) divides,
    AxisRef.split, fits.wordMul_preSize shorter]
  rfl

theorem Fits.overlapsWithin?_eq_some (fits : first.Fits mesh) (otherFits : second.Fits mesh) :
    first.overlapsWithin? mesh second = some (decide (first.Overlaps second)) := by
  cases first with
  | whole axis => rfl
  | part axis preSize size =>
    cases second with
    | whole axis' => rfl
    | part axis' preSize' size' =>
      rw [overlapsWithin?, fits.product?_eq_some, otherFits.product?_eq_some]
      simp only [Overlaps, fits.wordMul_eq, otherFits.wordMul_eq]
      by_cases same : axis = axis'
      · rw [if_pos same]
        exact congrArg some (decide_eq_decide.mpr (and_iff_right same).symm)
      · rw [if_neg same]
        exact congrArg some (decide_eq_false fun overlap => same overlap.1).symm

theorem Fits.adjoinsWithin?_eq_some (fits : first.Fits mesh) (second : AxisRef) :
    first.adjoinsWithin? mesh second = some (decide (first.Adjoins second)) := by
  cases first with
  | whole axis => cases second <;> rfl
  | part axis preSize size =>
    cases second with
    | whole axis' => rfl
    | part axis' preSize' size' =>
      rw [adjoinsWithin?, fits.product?_eq_some]
      simp only [Adjoins, fits.wordMul_eq]
      by_cases same : axis = axis'
      · rw [if_pos same]
        exact congrArg some (decide_eq_decide.mpr (and_iff_right same).symm)
      · rw [if_neg same]
        exact congrArg some (decide_eq_false fun adjoins => same adjoins.1).symm

/-- Two adjoining parts have no more shards than the axis, since the first one starts somewhere. -/
theorem joinWithin?_eq_some (adjoins : major.Adjoins minor) (majorFits : major.Fits mesh)
    (minorFits : minor.Fits mesh) :
    major.joinWithin? mesh minor = some (major.join mesh minor) := by
  obtain ⟨axis, preSize, majorSize, minorSize, axisSize, rfl, rfl, found, started, -, -, divides,
    -⟩ := join_cases adjoins majorFits minorFits
  have bounded : majorSize * minorSize ≤ axisSize :=
    Nat.le_of_dvd (Mesh.axisSize?_pos found) (Nat.dvd_trans (Nat.dvd_mul_left _ _) divides)
  have isSize : wordMul majorSize minorSize = majorSize * minorSize :=
    wordMul_eq (Nat.lt_of_le_of_lt bounded (Mesh.axisSize?_lt found))
  have product : mesh.product? axis majorSize minorSize = some (majorSize * minorSize) :=
    Mesh.product?_eq_some found bounded
  rw [joinWithin?]
  simp only [size, AxisRef.axis, product, join, isSize]
  rfl

end AxisRef

/-! ## Sequences -/

namespace AxisSequence

/-- Whether two sequences overlap, asked reference by reference until two that do are found. -/
def overlapsWithin? (mesh : Mesh) (first second : AxisSequence) : Option Bool :=
  second.anyM fun reference => first.anyM fun own => own.overlapsWithin? mesh reference

/-- A reference followed by others, with adjoining neighbours joined. -/
def joinedAfterWithin? (mesh : Mesh) (gathered : AxisRef) : AxisSequence → Option AxisSequence
  | [] => some [gathered]
  | reference :: rest => do
    let adjoins ← gathered.adjoinsWithin? mesh reference
    if adjoins then
      let covering ← gathered.joinWithin? mesh reference
      joinedAfterWithin? mesh covering rest
    else
      let later ← joinedAfterWithin? mesh reference rest
      return gathered :: later

/-- The sequence with adjoining neighbours joined, from left to right. -/
def joinedWithin? (mesh : Mesh) : AxisSequence → Option AxisSequence
  | [] => some []
  | reference :: rest => joinedAfterWithin? mesh reference rest

theorem overlapsWithin?_eq_some {first second : AxisSequence}
    (fits : ∀ reference ∈ first, reference.Fits mesh)
    (otherFits : ∀ reference ∈ second, reference.Fits mesh) :
    overlapsWithin? mesh first second = some (decide (Overlaps first second)) :=
  anyM_eq_some fun reference member => anyM_eq_some fun own isOwn =>
    (fits own isOwn).overlapsWithin?_eq_some (otherFits reference member)

theorem joinedAfterWithin?_eq_some {gathered : AxisRef} {rest : AxisSequence}
    (fits : ∀ reference ∈ gathered :: rest, reference.Fits mesh) :
    joinedAfterWithin? mesh gathered rest = some (joinedAfter mesh gathered rest) := by
  induction rest generalizing gathered with
  | nil => rfl
  | cons reference rest ih =>
    obtain ⟨gatheredFits, laterFits⟩ := List.forall_mem_cons.mp fits
    obtain ⟨referenceFits, restFits⟩ := List.forall_mem_cons.mp laterFits
    rw [joinedAfterWithin?, gatheredFits.adjoinsWithin?_eq_some, joinedAfter]
    by_cases adjoins : gathered.Adjoins reference
    · rw [if_pos adjoins, AxisRef.joinWithin?_eq_some adjoins gatheredFits referenceFits]
      simp only [adjoins, decide_true, Option.bind_eq_bind, Option.bind_some, if_true]
      exact ih (List.forall_mem_cons.mpr
        ⟨gatheredFits.join adjoins referenceFits, restFits⟩)
    · rw [if_neg adjoins, ih laterFits]
      simp only [adjoins, decide_false]
      rfl

theorem joinedWithin?_eq_some {axes : AxisSequence}
    (fits : ∀ reference ∈ axes, reference.Fits mesh) :
    joinedWithin? mesh axes = some (joined mesh axes) := by
  cases axes with
  | nil => rfl
  | cons reference rest => exact joinedAfterWithin?_eq_some fits

end AxisSequence

end MeshSharding
