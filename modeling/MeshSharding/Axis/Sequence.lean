import MeshSharding.Axis.Basic

/-!
# Sequences of axes

A dimension, or a factor of one, is sharded along a sequence of axis
references, major to minor. A sequence is a strict prefix of another when it
agrees with it up to its last reference and that one is a prefix of the
reference in its place, and differs from it if the other sequence ends there.

Sequences are ordered by length and then reference by reference, and the order
is total (`AxisSequence.order`).
-/

set_option autoImplicit false

namespace MeshSharding

open Std

/-- References to axes, major to minor. -/
abbrev AxisSequence := List AxisRef

namespace AxisSequence

/-- The text of a sequence. -/
def text (axes : AxisSequence) : String :=
  bracketed (axes.map AxisRef.text)

/-- The number of shards along all references together, as machine words hold it. -/
def size (mesh : Mesh) : AxisSequence → Nat
  | [] => 1
  | reference :: rest => wordMul (reference.size mesh) (size mesh rest)

/-- The number of shards beyond those of a sequence that this one extends. -/
def sizeBeyond (mesh : Mesh) (axes shorter : AxisSequence) : Nat :=
  size mesh axes / size mesh shorter

/-! ## Overlap -/

/-- Some reference of the sequence overlaps the given one. -/
def OverlapsAxis (axes : AxisSequence) (reference : AxisRef) : Prop :=
  ∃ own ∈ axes, own.Overlaps reference

instance (axes : AxisSequence) (reference : AxisRef) : Decidable (OverlapsAxis axes reference) :=
  inferInstanceAs (Decidable (∃ own ∈ axes, own.Overlaps reference))

/-- Some reference of the first sequence overlaps some reference of the second. -/
def Overlaps (first second : AxisSequence) : Prop :=
  ∃ reference ∈ second, OverlapsAxis first reference

instance (first second : AxisSequence) : Decidable (Overlaps first second) :=
  inferInstanceAs (Decidable (∃ reference ∈ second, OverlapsAxis first reference))

/-- Overlap of sequences is symmetric. -/
theorem Overlaps.symm {first second : AxisSequence} (overlap : Overlaps first second) :
    Overlaps second first := by
  obtain ⟨reference, member, own, ownMember, overlap⟩ := overlap
  exact ⟨own, ownMember, reference, member, AxisRef.Overlaps.symm overlap⟩

/-! ## Strict prefixes -/

/-- The first sequence covers a major share of the second and not all of it. -/
def IsStrictPrefixOf : AxisSequence → AxisSequence → Prop
  | [], second => second ≠ []
  | _ :: _, [] => False
  | [last], other :: others => last.IsPrefixOf other ∧ (others = [] → last ≠ other)
  | reference :: next :: rest, other :: others =>
    reference = other ∧ IsStrictPrefixOf (next :: rest) others

instance decidableIsStrictPrefixOf :
    (first second : AxisSequence) → Decidable (IsStrictPrefixOf first second)
  | [], [] => .isFalse fun differ => differ rfl
  | [], _ :: _ => .isTrue (List.cons_ne_nil _ _)
  | _ :: _, [] => .isFalse id
  | [last], other :: others =>
    inferInstanceAs (Decidable (last.IsPrefixOf other ∧ (others = [] → last ≠ other)))
  | reference :: next :: rest, other :: others =>
    if same : reference = other then
      match decidableIsStrictPrefixOf (next :: rest) others with
      | .isTrue isPrefix => .isTrue ⟨same, isPrefix⟩
      | .isFalse noPrefix => .isFalse fun both => noPrefix both.2
    else .isFalse fun both => same both.1

/-- No sequence is a strict prefix of itself. -/
theorem IsStrictPrefixOf.irrefl (axes : AxisSequence) : ¬ IsStrictPrefixOf axes axes := by
  induction axes with
  | nil => exact fun differ => differ rfl
  | cons reference rest ih =>
    cases rest with
    | nil => exact fun isPrefix => isPrefix.2 rfl rfl
    | cons next rest => exact fun isPrefix => ih isPrefix.2

/-- The references that the prefix question puts side by side can be compared. -/
def Comparable : AxisSequence → AxisSequence → Prop
  | [last], other :: _ => last.Comparable other
  | reference :: next :: rest, other :: others =>
    reference = other → Comparable (next :: rest) others
  | _, _ => True

instance decidableComparable :
    (first second : AxisSequence) → Decidable (Comparable first second)
  | [last], other :: _ => inferInstanceAs (Decidable (last.Comparable other))
  | reference :: next :: rest, other :: others =>
    if same : reference = other then
      match decidableComparable (next :: rest) others with
      | .isTrue comparable => .isTrue fun _ => comparable
      | .isFalse fault => .isFalse fun comparable => fault (comparable same)
    else .isTrue fun equal => absurd equal same
  | [], _ => .isTrue trivial
  | [_], [] => .isTrue trivial
  | _ :: _ :: _, [] => .isTrue trivial

/-! ## Joining neighbours -/

/-- A reference followed by others, where every reference that adjoins what has been gathered
before it is joined to that. -/
def joinedAfter (mesh : Mesh) (gathered : AxisRef) : AxisSequence → AxisSequence
  | [] => [gathered]
  | reference :: rest =>
    if gathered.Adjoins reference then joinedAfter mesh (gathered.join mesh reference) rest
    else gathered :: joinedAfter mesh reference rest

/-- The sequence with adjoining neighbours joined, from left to right. -/
def joined (mesh : Mesh) : AxisSequence → AxisSequence
  | [] => []
  | reference :: rest => joinedAfter mesh reference rest

/-! ## Order -/

/-- Shorter sequences come first, sequences of one length are compared reference by reference. -/
def order : AxisSequence → AxisSequence → Ordering :=
  compareLex (compareOn List.length) compare

instance : TransCmp order :=
  inferInstanceAs (TransCmp (compareLex (compareOn List.length) compare))

instance : LawfulEqCmp order where
  eq_of_compare same :=
    LawfulEqOrd.eq_of_compare (compareLex_eq_eq.mp same).2

end AxisSequence

end MeshSharding
