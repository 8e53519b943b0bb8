import MeshSharding.Mesh.Basic

/-!
# References to mesh axes

A tensor is sharded along whole axes of a mesh or along parts of them. A part
of an axis of size `n` is given by the product of the sizes that are more major
than it (`preSize`) and by its own size; it fits when `preSize * size` divides
`n`. Two parts of one axis overlap when their ranges `[preSize, preSize * size)`
meet, with ends that are computed in machine words. One is a prefix of another
when it starts where the other starts and its size divides the other's, and two
parts adjoin when the second starts where the first ends.

`split` cuts a reference in two, `join` undoes a cut. Overlap is symmetric
(`Overlaps.symm`), and a reference is a prefix of itself (`IsPrefixOf.refl`).

References are ordered by the name of their axis, by code point. References to
one axis are ordered by a key: a whole axis comes before its parts, and parts
are ordered by start and then by size. The order is total, and only a reference
is equal to itself in it, because name and key together determine a reference
(`eq_of_axis_splitKey`).
-/

set_option autoImplicit false

namespace MeshSharding

open Std

/-- A whole mesh axis, or the part of one that starts after `preSize` and has `size` shards. -/
inductive AxisRef where
  | whole (axis : String)
  | part (axis : String) (preSize size : Nat)
  deriving DecidableEq

/-- Why a reference does not fit a mesh. -/
inductive AxisError where
  /-- The mesh has no axis of this name. -/
  | unknownAxis (axis : String)
  /-- The part does not divide the axis. -/
  | misfit (axis : String) (preSize size axisSize : Nat)
  deriving DecidableEq

/-- The text of an axis error. -/
def AxisError.message : AxisError → String
  | .unknownAxis axis => "axis reference uses unknown mesh axis '" ++ axis ++ "'"
  | .misfit axis preSize size axisSize =>
    "sub-axis \"" ++ axis ++ "\":(" ++ toString preSize ++ ")" ++ toString size ++
      " does not divide mesh axis of size " ++ toString axisSize

/-- A part fits an axis when it has a start and more than one shard and, together with what
precedes it, divides the axis. -/
def PartFits (preSize size axisSize : Nat) : Prop :=
  0 < preSize ∧ 1 < size ∧ preSize * size ∣ axisSize

instance (preSize size axisSize : Nat) : Decidable (PartFits preSize size axisSize) :=
  inferInstanceAs (Decidable (_ ∧ _ ∧ _))

/-- Comparing values through a key inherits the laws of the order of the keys. -/
theorem transCmp_through {α β : Type} (order : β → β → Ordering) [TransCmp order] (key : α → β) :
    TransCmp fun first second => order (key first) (key second) where
  eq_swap := OrientedCmp.eq_swap
  isLE_trans := TransCmp.isLE_trans

namespace AxisRef

/-- The name of the axis referred to. -/
def axis : AxisRef → String
  | .whole axis => axis
  | .part axis _ _ => axis

/-- Whether the reference is to a part of an axis. -/
def isPart : AxisRef → Bool
  | .whole _ => false
  | .part .. => true

/-- The product of the sizes that are more major than the reference; one for a whole axis. -/
def preSize : AxisRef → Nat
  | .whole _ => 1
  | .part _ preSize _ => preSize

/-- The number of shards. A whole axis that the mesh does not have counts as one shard. -/
def size (mesh : Mesh) : AxisRef → Nat
  | .whole axis => (mesh.axisSize? axis).getD 1
  | .part _ _ size => size

/-- The text of a reference: the quoted name and, for a part, its start and size. -/
def text : AxisRef → String
  | .whole axis => quoted axis
  | .part axis preSize size => quoted axis ++ ":(" ++ toString preSize ++ ")" ++ toString size

/-! ## Overlap -/

/-- Two references share shards: parts of one axis when their ranges meet, and any two
references to one axis of which one is whole. -/
def Overlaps : AxisRef → AxisRef → Prop
  | .part axis preSize size, .part axis' preSize' size' =>
    axis = axis' ∧ preSize < wordMul preSize' size' ∧ preSize' < wordMul preSize size
  | first, second => first.axis = second.axis

instance (first second : AxisRef) : Decidable (first.Overlaps second) :=
  match first, second with
  | .part .., .part .. => inferInstanceAs (Decidable (_ ∧ _ ∧ _))
  | .part .., .whole _ => inferInstanceAs (Decidable (_ = _))
  | .whole _, _ => inferInstanceAs (Decidable (_ = _))

/-- Overlap is symmetric. -/
theorem Overlaps.symm {first second : AxisRef} (overlap : first.Overlaps second) :
    second.Overlaps first := by
  cases first <;> cases second
  case part.part => exact ⟨overlap.1.symm, overlap.2.2, overlap.2.1⟩
  all_goals exact Eq.symm overlap

/-- References that overlap are to one axis. -/
theorem Overlaps.axis_eq {first second : AxisRef} (overlap : first.Overlaps second) :
    first.axis = second.axis := by
  cases first <;> cases second
  case part.part => exact overlap.1
  all_goals exact overlap

/-! ## Prefixes -/

/-- The first reference covers a major share of the second, possibly all of it. -/
def IsPrefixOf : AxisRef → AxisRef → Prop
  | .whole axis, second => second = .whole axis
  | .part axis preSize _, .whole axis' => axis = axis' ∧ preSize = 1
  | .part axis preSize size, .part axis' preSize' size' =>
    axis = axis' ∧ preSize = preSize' ∧ (size = size' ∨ size < size' ∧ size ∣ size')

instance (first second : AxisRef) : Decidable (first.IsPrefixOf second) :=
  match first, second with
  | .whole _, _ => inferInstanceAs (Decidable (_ = _))
  | .part .., .whole _ => inferInstanceAs (Decidable (_ ∧ _))
  | .part .., .part .. => inferInstanceAs (Decidable (_ ∧ _ ∧ (_ ∨ _ ∧ _)))

/-- The first reference is a prefix of the second and differs from it. -/
def IsStrictPrefixOf (first second : AxisRef) : Prop :=
  first ≠ second ∧ first.IsPrefixOf second

instance (first second : AxisRef) : Decidable (first.IsStrictPrefixOf second) :=
  inferInstanceAs (Decidable (_ ∧ _))

/-- Every reference is a prefix of itself. -/
theorem IsPrefixOf.refl (reference : AxisRef) : reference.IsPrefixOf reference := by
  cases reference with
  | whole axis => rfl
  | part axis preSize size => exact ⟨rfl, rfl, .inl rfl⟩

/-- A prefix is to the same axis. -/
theorem IsPrefixOf.axis_eq {first second : AxisRef} (isPrefix : first.IsPrefixOf second) :
    first.axis = second.axis := by
  cases first with
  | whole axis => cases isPrefix; rfl
  | part axis preSize size =>
    cases second with
    | whole axis' => exact isPrefix.1
    | part axis' preSize' size' => exact isPrefix.1

/-- Divisibility by the first size decides nothing when that size is zero: the prefix question
has an answer unless an empty part is held against a larger part with the same start. -/
def Comparable : AxisRef → AxisRef → Prop
  | .part axis preSize size, .part axis' preSize' size' =>
    ¬ (axis = axis' ∧ preSize = preSize' ∧ size = 0 ∧ 0 < size')
  | _, _ => True

instance (first second : AxisRef) : Decidable (first.Comparable second) :=
  match first, second with
  | .part .., .part .. => inferInstanceAs (Decidable (¬ (_ ∧ _ ∧ _ ∧ _)))
  | .part .., .whole _ => inferInstanceAs (Decidable True)
  | .whole _, _ => inferInstanceAs (Decidable True)

/-! ## Splitting and joining -/

/-- The second part starts where the first part of the same axis ends. -/
def Adjoins : AxisRef → AxisRef → Prop
  | .part axis preSize size, .part axis' preSize' _ =>
    axis = axis' ∧ wordMul preSize size = preSize'
  | _, _ => False

instance (first second : AxisRef) : Decidable (first.Adjoins second) :=
  match first, second with
  | .part .., .part .. => inferInstanceAs (Decidable (_ ∧ _))
  | .part .., .whole _ => inferInstanceAs (Decidable False)
  | .whole _, _ => inferInstanceAs (Decidable False)

/-- The reference that covers two adjoining parts: the whole axis if that is what they cover. -/
def join (mesh : Mesh) (major minor : AxisRef) : AxisRef :=
  let size := wordMul (major.size mesh) (minor.size mesh)
  if major.preSize = 1 ∧ mesh.axisSize? major.axis = some size then .whole major.axis
  else .part major.axis major.preSize size

/-- A reference cut into a major part of the given size and the minor rest. -/
def split (mesh : Mesh) (reference : AxisRef) (majorSize : Nat) : AxisRef × AxisRef :=
  (.part reference.axis reference.preSize majorSize,
    .part reference.axis (wordMul reference.preSize majorSize)
      (reference.size mesh / majorSize))

/-! ## Fitting a mesh -/

/-- Accepts a reference whose axis the mesh has and whose part, if it is one, fits that axis. -/
def check (mesh : Mesh) (reference : AxisRef) : Except AxisError Unit :=
  match mesh.axisSize? reference.axis with
  | none => .error (.unknownAxis reference.axis)
  | some axisSize =>
    match reference with
    | .whole _ => .ok ()
    | .part axis preSize size =>
      if PartFits preSize size axisSize then .ok ()
      else .error (.misfit axis preSize size axisSize)

/-! ## Order -/

/-- Start and size of a part, nothing for a whole axis. -/
def splitKey : AxisRef → List Nat
  | .whole _ => []
  | .part _ preSize size => [preSize, size]

/-- Name and key determine a reference. -/
theorem eq_of_axis_splitKey {first second : AxisRef} (sameAxis : first.axis = second.axis)
    (sameKey : first.splitKey = second.splitKey) : first = second := by
  cases first <;> cases second <;> simp_all [axis, splitKey]

instance : Ord AxisRef where
  compare := compareLex (compareOn axis) (compareOn splitKey)

instance : TransOrd AxisRef :=
  inferInstanceAs (TransCmp (compareLex (compareOn axis) (compareOn splitKey)))

instance : LawfulEqOrd AxisRef where
  eq_of_compare {first second} same := by
    change compareLex (compareOn axis) (compareOn splitKey) first second = .eq at same
    have both := compareLex_eq_eq.mp same
    have sameAxis : first.axis = second.axis := LawfulEqOrd.eq_of_compare both.1
    have sameKey : first.splitKey = second.splitKey := LawfulEqOrd.eq_of_compare both.2
    exact eq_of_axis_splitKey sameAxis sameKey

end AxisRef

end MeshSharding
