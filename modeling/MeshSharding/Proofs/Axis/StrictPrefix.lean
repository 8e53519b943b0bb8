import MeshSharding.Axis.Sequence
import MeshSharding.Proofs.Axis.Parts

/-!
# Sequences that cover more and more

A sequence that is a strict prefix of another covers a major share of it. So
along strict prefixes sequences cover more and more: no sequence is a strict
prefix of itself, the relation is transitive
(`AxisSequence.IsStrictPrefixOf.trans`), and what overlaps a sequence overlaps
every sequence that it is a strict prefix of, if the references of that end
within a word (`AxisSequence.Overlaps.of_isStrictPrefixOf`). The main theorem puts
these laws together for sequences whose references have shards, about which every
prefix question has an answer (`AxisSequence.isStrictPrefixOf_strictOrder`).

A longer part may end beyond a word. Its end is then a small number, and the part
overlaps less than a prefix of it (`AxisSequence.overlap_lost_beyond_word`).

For both transitivity and overlap, only the last reference of the shorter
sequence matters, which may cover a part of the reference in its place. Two
references of which each is a prefix of the other are the same, so a step that
is made in one place is not taken back there.
-/

set_option autoImplicit false

namespace MeshSharding

variable {mesh : Mesh}

/-! ## References -/

namespace AxisRef

variable {first second third other : AxisRef}

theorem IsPrefixOf.trans (isPrefix : first.IsPrefixOf second) (further : second.IsPrefixOf third) :
    first.IsPrefixOf third := by
  cases first with
  | whole axis =>
    cases isPrefix
    exact further
  | part axis preSize size =>
    cases second with
    | whole axis' =>
      cases further
      exact isPrefix
    | part axis' preSize' size' =>
      obtain ⟨rfl, rfl, shorter⟩ := isPrefix
      cases third with
      | whole axis'' => exact further
      | part axis'' preSize'' size'' =>
        obtain ⟨rfl, rfl, longer⟩ := further
        refine ⟨rfl, rfl, ?_⟩
        rcases shorter with rfl | ⟨less, divides⟩
        · exact longer
        · rcases longer with rfl | ⟨evenLess, further⟩
          · exact .inr ⟨less, divides⟩
          · exact .inr ⟨Nat.lt_trans less evenLess, Nat.dvd_trans divides further⟩

/-- References that are prefixes of each other are the same. -/
theorem IsPrefixOf.antisymm (isPrefix : first.IsPrefixOf second)
    (converse : second.IsPrefixOf first) : first = second := by
  cases first with
  | whole axis => exact Eq.symm isPrefix
  | part axis preSize size =>
    cases second with
    | whole axis' => cases converse
    | part axis' preSize' size' =>
      obtain ⟨rfl, rfl, shorter⟩ := isPrefix
      obtain ⟨-, -, longer⟩ := converse
      have sameSize : size = size' := by
        rcases shorter with same | ⟨less, -⟩
        · exact same
        · rcases longer with same | ⟨more, -⟩
          · exact same.symm
          · exact absurd more (Nat.lt_asymm less)
      rw [sameSize]

/-- What overlaps a prefix overlaps the whole, if that ends within a word. -/
theorem Overlaps.of_isPrefixOf (overlap : first.Overlaps other)
    (isPrefix : first.IsPrefixOf second) (ends : second.EndsInWord) : second.Overlaps other := by
  cases first with
  | whole axis =>
    cases isPrefix
    exact overlap
  | part axis preSize size =>
    cases second with
    | whole axis' =>
      have sameAxis : axis = other.axis := overlap.axis_eq
      exact isPrefix.1.symm.trans sameAxis
    | part axis' preSize' size' =>
      obtain ⟨rfl, rfl, shorter⟩ := isPrefix
      cases other with
      | whole axis'' => exact overlap
      | part axis'' preSize'' size'' =>
        obtain ⟨sameAxis, startsBefore, endsAfter⟩ := overlap
        have grows : size ≤ size' := by
          rcases shorter with same | ⟨less, -⟩
          · exact Nat.le_of_eq same
          · exact Nat.le_of_lt less
        -- what a word holds of the shorter end is no more than that end
        have noMore : wordMul preSize size ≤ preSize * size := Nat.mod_le _ _
        refine ⟨sameAxis, startsBefore, ?_⟩
        rw [wordMul_eq ends]
        calc preSize'' < wordMul preSize size := endsAfter
          _ ≤ preSize * size := noMore
          _ ≤ preSize * size' := Nat.mul_le_mul_left preSize grows

end AxisRef

/-! ## Sequences -/

namespace AxisSequence

/-- A sequence whose references have shards can be held against any other. -/
theorem comparable_of_hasShards {first : AxisSequence}
    (hasShards : ∀ reference ∈ first, reference.HasShards) (second : AxisSequence) :
    Comparable first second := by
  induction first generalizing second with
  | nil => trivial
  | cons reference rest ih =>
    have later := ih fun other member => hasShards other (List.mem_cons_of_mem _ member)
    cases second with
    | nil => cases rest <;> trivial
    | cons other others =>
      cases rest with
      | nil => exact (hasShards reference List.mem_cons_self).comparable other
      | cons next rest => exact fun _ => later others

/-- A sequence with a strict prefix is not empty. -/
theorem IsStrictPrefixOf.ne_nil {shorter axes : AxisSequence}
    (isStrict : IsStrictPrefixOf shorter axes) : axes ≠ [] := by
  rintro rfl
  match shorter, isStrict with
  | [], isStrict => exact isStrict rfl

/-- The first reference of a strict prefix is a prefix of the first reference. -/
theorem IsStrictPrefixOf.head {reference other : AxisRef} {rest others : AxisSequence}
    (isStrict : IsStrictPrefixOf (reference :: rest) (other :: others)) :
    reference.IsPrefixOf other := by
  cases rest with
  | nil => exact isStrict.1
  | cons next rest =>
    obtain ⟨rfl, -⟩ := isStrict
    exact .refl reference

/-- A non-empty strict prefix agrees with the sequence up to its last reference, which covers a share
of the reference in its place, and all of that only if the sequence goes on. -/
theorem IsStrictPrefixOf.exists_last {shorter axes : AxisSequence}
    (isStrict : IsStrictPrefixOf shorter axes) (nonempty : shorter ≠ []) :
    ∃ front last wider others, shorter = front ++ [last] ∧ axes = front ++ wider :: others ∧
      last.IsPrefixOf wider ∧ (others = [] → last ≠ wider) := by
  induction shorter generalizing axes with
  | nil => exact absurd rfl nonempty
  | cons reference rest ih =>
    cases axes with
    | nil => exact absurd rfl isStrict.ne_nil
    | cons other others =>
      cases rest with
      | nil => exact ⟨[], reference, other, others, rfl, rfl, isStrict.1, isStrict.2⟩
      | cons next rest =>
        obtain ⟨rfl, restStrict⟩ := isStrict
        obtain ⟨front, last, wider, behind, isRest, isOthers, covers⟩ :=
          ih restStrict (List.cons_ne_nil _ _)
        exact ⟨reference :: front, last, wider, behind, congrArg (reference :: ·) isRest,
          congrArg (reference :: ·) isOthers, covers⟩

theorem IsStrictPrefixOf.trans {first second third : AxisSequence}
    (isStrict : IsStrictPrefixOf first second) (further : IsStrictPrefixOf second third) :
    IsStrictPrefixOf first third := by
  induction first generalizing second third with
  | nil => exact further.ne_nil
  | cons reference rest ih =>
    cases second with
    | nil => exact absurd rfl isStrict.ne_nil
    | cons between others =>
      cases third with
      | nil => exact absurd rfl further.ne_nil
      | cons last lasts =>
        cases rest with
        | nil =>
          refine ⟨isStrict.1.trans further.head, ?_⟩
          -- where the longest sequence ends, the one between ends too
          rintro rfl rfl
          cases others with
          | nil => exact isStrict.2 rfl (isStrict.1.antisymm further.head)
          | cons next others => exact further.2.ne_nil rfl
        | cons next rest =>
          obtain ⟨rfl, restStrict⟩ := isStrict
          cases others with
          | nil => exact absurd rfl restStrict.ne_nil
          | cons nextBetween others => exact ⟨further.1, ih restStrict further.2⟩

/-- Every reference of a strict prefix covers a share of some reference of the sequence. -/
theorem IsStrictPrefixOf.exists_wider {shorter axes : AxisSequence} {reference : AxisRef}
    (isStrict : IsStrictPrefixOf shorter axes) (member : reference ∈ shorter) :
    ∃ wider ∈ axes, reference.IsPrefixOf wider := by
  obtain ⟨front, last, wider, others, rfl, rfl, covers, -⟩ :=
    isStrict.exists_last (List.ne_nil_of_mem member)
  rcases List.mem_append.mp member with inFront | isLast
  · exact ⟨reference, List.mem_append_left _ inFront, .refl reference⟩
  · cases List.mem_singleton.mp isLast
    exact ⟨wider, List.mem_append_right _ List.mem_cons_self, covers⟩

/-- What overlaps a sequence overlaps every sequence that it is a strict prefix of, if the
references of that end within a word. -/
theorem Overlaps.of_isStrictPrefixOf {shorter axes other : AxisSequence}
    (overlap : Overlaps shorter other) (isStrict : IsStrictPrefixOf shorter axes)
    (ends : ∀ reference ∈ axes, reference.EndsInWord) : Overlaps axes other := by
  obtain ⟨reference, member, own, isOwn, overlaps⟩ := overlap
  obtain ⟨wider, isWider, covers⟩ := isStrict.exists_wider isOwn
  exact ⟨reference, member, wider, isWider, overlaps.of_isPrefixOf covers (ends wider isWider)⟩

/-- Some references of the two sequences share shards. -/
def Meets (first second : AxisSequence) : Prop :=
  ∃ reference ∈ second, ∃ own ∈ first, own.Meets reference

instance (first second : AxisSequence) : Decidable (Meets first second) :=
  inferInstanceAs (Decidable (∃ reference ∈ second, ∃ own ∈ first, own.Meets reference))

/-- Sequences whose references end within a word overlap exactly if they share shards. -/
theorem overlaps_iff_meets {first second : AxisSequence}
    (ends : ∀ reference ∈ first, reference.EndsInWord)
    (otherEnds : ∀ reference ∈ second, reference.EndsInWord) :
    Overlaps first second ↔ Meets first second :=
  exists_congr fun reference => and_congr_right fun member => exists_congr fun own =>
    and_congr_right fun isOwn => AxisRef.overlaps_iff_meets (ends own isOwn)
      (otherEnds reference member)

/-- **Among sequences whose references have shards, being a strict prefix is a strict order along
which overlap grows.** Each of them can be held against any sequence, none is a strict prefix of
itself, and strict prefixes compose; a sequence overlaps what a strict prefix of it overlaps, if its
references end within a word, and it does not matter which of two sequences is asked whether it
overlaps the other. -/
theorem isStrictPrefixOf_strictOrder (first second third : AxisSequence)
    (hasShards : ∀ axes ∈ [first, second, third], ∀ reference ∈ axes, reference.HasShards) :
    (∀ shorter ∈ [first, second, third], ∀ axes, Comparable shorter axes) ∧
      ¬ IsStrictPrefixOf first first ∧
      (IsStrictPrefixOf first second → IsStrictPrefixOf second third →
        IsStrictPrefixOf first third) ∧
      ((∀ reference ∈ second, reference.EndsInWord) → IsStrictPrefixOf first second →
        Overlaps first third → Overlaps second third) ∧
      (Overlaps first second ↔ Overlaps second first) := by
  refine ⟨?_, IsStrictPrefixOf.irrefl first, IsStrictPrefixOf.trans, ?_, Overlaps.symm,
    Overlaps.symm⟩
  · intro shorter isOne axes
    exact comparable_of_hasShards (hasShards shorter isOne) axes
  · intro ends isStrict overlap
    exact overlap.of_isStrictPrefixOf isStrict ends

/-- Beside the pier a part of the quay, a longer part of it, and the whole quay with some of the
cranes: each is a strict prefix of the next, and what overlaps the first part overlaps the longer
one. -/
theorem quay_covers_more :
    IsStrictPrefixOf [.whole "pier", .part "quay" 1 3]
        [.whole "pier", .whole "quay", .part "crane" 2 5] ∧
      Overlaps [.whole "pier", .part "quay" 1 12] [.part "quay" 2 9] ∧
      Overlaps [.part "quay" 2 9] [.whole "pier", .part "quay" 1 12] := by
  have longer : IsStrictPrefixOf [.whole "pier", .part "quay" 1 3]
      [.whole "pier", .part "quay" 1 12] := by decide
  have whole : IsStrictPrefixOf [.whole "pier", .part "quay" 1 12]
      [.whole "pier", .whole "quay", .part "crane" 2 5] := by decide
  obtain ⟨-, -, compose, -, -⟩ := isStrictPrefixOf_strictOrder
    [.whole "pier", .part "quay" 1 3] [.whole "pier", .part "quay" 1 12]
    [.whole "pier", .whole "quay", .part "crane" 2 5] (by decide)
  obtain ⟨-, -, -, grows, -⟩ := isStrictPrefixOf_strictOrder
    [.whole "pier", .part "quay" 1 3] [.whole "pier", .part "quay" 1 12] [.part "quay" 2 9]
    (by decide)
  have overlap := grows (by decide) longer (by decide)
  exact ⟨compose longer whole, overlap, overlap.symm⟩

/-- Two parts of a quay start at the same place. The shorter one is a strict prefix of the longer one
and overlaps itself. The longer one ends where a word holds nothing any more, so it does not overlap
the shorter one. -/
theorem overlap_lost_beyond_word :
    (∀ axes ∈ [[AxisRef.part "quay" 4611686018427387904 2],
        [AxisRef.part "quay" 4611686018427387904 4]], ∀ reference ∈ axes, reference.HasShards) ∧
      IsStrictPrefixOf [.part "quay" 4611686018427387904 2]
        [.part "quay" 4611686018427387904 4] ∧
      Overlaps [.part "quay" 4611686018427387904 2] [.part "quay" 4611686018427387904 2] ∧
      ¬ Overlaps [.part "quay" 4611686018427387904 4] [.part "quay" 4611686018427387904 2] := by
  decide +kernel

/-- Without shards a part cannot be held against one that starts where it starts. -/
example : ¬ Comparable [.part "quay" 1 0] [.part "quay" 1 4] := by decide

end AxisSequence

end MeshSharding
