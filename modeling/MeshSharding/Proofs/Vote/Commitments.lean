import MeshSharding.Proofs.Axis.Shards
import MeshSharding.Proofs.Vote.Agreement

/-!
# The run of an election

When axes are committed for a factor, they extend what the factor holds at that
time and overlap nothing that another factor holds (`commitments_extend`). So
nothing is committed twice, there are no more commitments than candidates, and no
two of the sequences that the election ends with overlap. The main theorem puts
this together (`Projection.election_commits`).

Sizes and the ends of parts are computed in machine words. If those of the
tensors fit into a word (`Projection.WithinWord`) and the parts of axes have
shards, the election asks only questions that have an answer
(`Projection.WithinWord.electable`), and sequences that do not overlap share no
shards. If they do not fit, an election may stop, and different factors may be
left with the same shards (`Projection.cable_shared`).
-/

set_option autoImplicit false

namespace MeshSharding

variable {mesh : Mesh}

/-! ## Questions with an answer -/

namespace Projection

variable {projection : Projection} {factorCount : Nat}

/-- Every reference that shards a factor of some tensor has shards. -/
def HasShards (projection : Projection) : Prop :=
  ∀ tensor ∈ projection.tensors, ∀ entry ∈ tensor.entries, ∀ reference ∈ entry.2.axes,
    reference.HasShards

/-- Every factor of some tensor is below a count. -/
def FactorsBelow (factorCount : Nat) (projection : Projection) : Prop :=
  ∀ tensor ∈ projection.tensors, ∀ entry ∈ tensor.entries, entry.1 < factorCount

instance (projection : Projection) : Decidable projection.HasShards :=
  inferInstanceAs (Decidable (∀ tensor ∈ projection.tensors, ∀ entry ∈ tensor.entries,
    ∀ reference ∈ entry.2.axes, reference.HasShards))

instance (factorCount : Nat) (projection : Projection) :
    Decidable (projection.FactorsBelow factorCount) :=
  inferInstanceAs (Decidable (∀ tensor ∈ projection.tensors, ∀ entry ∈ tensor.entries,
    entry.1 < factorCount))

/-- What holds of all references that a tensor has for factors holds of those that begin its axes
for one factor. -/
theorem forall_of_begins {Holds : AxisRef → Prop} {tensor : TensorProjection}
    (all : ∀ entry ∈ tensor.entries, ∀ reference ∈ entry.2.axes, Holds reference) {factor : Nat}
    {axes : AxisSequence} (begins : axes <+: tensor.axesOf factor) :
    ∀ reference ∈ axes, Holds reference := by
  intro reference isReference
  have isUsed := begins.subset isReference
  obtain ⟨sharding, found, isAxes⟩ := exists_factor?_of_axesOf (List.ne_nil_of_mem isUsed)
  rw [isAxes] at isUsed
  exact all _ (TensorProjection.mem_entries_iff.mpr found) reference isUsed

/-- What holds of all references that tensors have for factors holds of those that an election leaves
a factor with. -/
theorem forall_lastCommitted {Holds : AxisRef → Prop}
    (all : ∀ tensor ∈ projection.tensors, ∀ entry ∈ tensor.entries, ∀ reference ∈ entry.2.axes,
      Holds reference) (factor : Nat) :
    ∀ reference ∈ lastCommitted (projection.commitments mesh factorCount) factor,
      Holds reference := by
  rcases lastCommitted_prefix factor with unsharded | ⟨tensor, isTensor, begins⟩
  · rw [unsharded]
    exact fun _ member => absurd member List.not_mem_nil
  · exact forall_of_begins (all tensor isTensor) begins

/-- What begins the axes of a tensor for a factor has shards. -/
theorem HasShards.of_begins (hasShards : projection.HasShards) {tensor : TensorProjection}
    (member : tensor ∈ projection.tensors) {factor : Nat} {axes : AxisSequence}
    (begins : axes <+: tensor.axesOf factor) : ∀ reference ∈ axes, reference.HasShards :=
  forall_of_begins (hasShards tensor member) begins

theorem HasShards.comparable (hasShards : projection.HasShards) :
    projection.Comparable factorCount := by
  intro tensor _ entry _ shorter proposed
  obtain ⟨-, source, isSource, begins⟩ := mem_proposals (mem_proposals_of_table proposed)
  exact AxisSequence.comparable_of_hasShards (hasShards.of_begins isSource begins) _

/-- If the sizes of commitments are not zero, the sizes beyond them are defined. -/
theorem measurable_of_commitments {pool : List Candidate}
    (sharded : ∀ choice ∈ MeshSharding.commitments mesh pool,
      0 < AxisSequence.size mesh choice.axes) :
    ∀ round ∈ rounds mesh pool, round.Measurable mesh := by
  rintro round isRound candidate - ⟨empty, -⟩
  have isCommitted : round.commitment ∈ MeshSharding.commitments mesh pool :=
    List.mem_map_of_mem isRound
  exact absurd empty (Nat.ne_of_gt (sharded round.commitment isCommitted))

/-! ## Numbers that fit into a word -/

/-- What tensors have for factors ends within a machine word, and a word can count the shards. -/
structure WithinWord (mesh : Mesh) (projection : Projection) : Prop where
  ends : ∀ tensor ∈ projection.tensors, ∀ entry ∈ tensor.entries, ∀ reference ∈ entry.2.axes,
    reference.EndsInWord
  counted : ∀ tensor ∈ projection.tensors, ∀ entry ∈ tensor.entries,
    AxisSequence.CountsInWord mesh entry.2.axes

instance (mesh : Mesh) (projection : Projection) : Decidable (projection.WithinWord mesh) :=
  decidable_of_iff
    ((∀ tensor ∈ projection.tensors, ∀ entry ∈ tensor.entries, ∀ reference ∈ entry.2.axes,
        reference.EndsInWord) ∧
      ∀ tensor ∈ projection.tensors, ∀ entry ∈ tensor.entries,
        AxisSequence.CountsInWord mesh entry.2.axes)
    ⟨fun ⟨ends, counted⟩ => ⟨ends, counted⟩, fun ⟨ends, counted⟩ => ⟨ends, counted⟩⟩

section Within

variable (within : projection.WithinWord mesh)
include within

/-- The axes that an election leaves a factor with end within a word. -/
theorem WithinWord.ends_lastCommitted (factor : Nat) :
    ∀ reference ∈ lastCommitted (projection.commitments mesh factorCount) factor,
      reference.EndsInWord :=
  forall_lastCommitted within.ends factor

theorem WithinWord.ends_agreedAxes : ∀ axes ∈ projection.agreedAxes mesh factorCount,
    ∀ reference ∈ axes, reference.EndsInWord :=
  List.forall_mem_map.mpr fun factor _ => within.ends_lastCommitted factor

/-- A word can count the shards of what begins the axes of a tensor, as those are no fewer. -/
theorem WithinWord.counts_of_begins (hasShards : projection.HasShards)
    {tensor : TensorProjection} (member : tensor ∈ projection.tensors) {factor : Nat}
    {axes : AxisSequence} (begins : axes <+: tensor.axesOf factor) :
    AxisSequence.CountsInWord mesh axes := by
  have positive : 0 < AxisSequence.shards mesh (tensor.axesOf factor) :=
    AxisSequence.shards_pos (hasShards.of_begins member (List.prefix_refl _))
  have counted : AxisSequence.CountsInWord mesh (tensor.axesOf factor) := by
    by_cases unsharded : tensor.axesOf factor = []
    · rw [unsharded]
      exact AxisSequence.countsInWord_nil mesh
    · obtain ⟨sharding, found, isAxes⟩ := exists_factor?_of_axesOf unsharded
      rw [isAxes]
      exact within.counted tensor member _ (TensorProjection.mem_entries_iff.mpr found)
  obtain ⟨others, isAxes⟩ := begins
  refine counted.of_dvd positive ?_
  rw [← isAxes, AxisSequence.shards_append]
  exact Nat.dvd_mul_right _ _

/-- **If references have shards and numbers fit into a word, every question that an election asks
has an answer.** -/
theorem WithinWord.electable (hasShards : projection.HasShards) :
    projection.Electable mesh factorCount := by
  refine ⟨hasShards.comparable, measurable_of_commitments fun choice isCommitted => ?_⟩
  obtain ⟨candidate, isCandidate, rfl⟩ := mem_commitments isCommitted
  obtain ⟨-, tensor, isTensor, begins⟩ := mem_ballots (mem_candidates isCandidate)
  rw [(within.counts_of_begins hasShards isTensor begins).size_eq]
  exact AxisSequence.shards_pos (hasShards.of_begins isTensor begins)

end Within

end Projection

/-! ## Commitments in their order -/

/-- A choice extends what its factor has been left with by earlier commitments, and it overlaps
nothing that another factor has been left with. -/
def FactorAxes.Extends (choice : FactorAxes) (made : List FactorAxes) : Prop :=
  AxisSequence.IsStrictPrefixOf (lastCommitted made choice.factor) choice.axes ∧
    ∀ other, other ≠ choice.factor →
      ¬ AxisSequence.Overlaps (lastCommitted made other) choice.axes

/-- A choice that has axes and follows every earlier commitment extends what they leave. -/
theorem FactorAxes.extends_of_follows {choice : FactorAxes} {made : List FactorAxes}
    (sharded : choice.axes ≠ []) (follows : ∀ earlier ∈ made, choice.Follows earlier) :
    choice.Extends made := by
  constructor
  · rcases lastCommitted_cases made choice.factor with unsharded | isMade
    · rw [unsharded]
      exact sharded
    · exact (follows _ isMade).1 rfl
  · intro other differ overlap
    rcases lastCommitted_cases made other with unsharded | isMade
    · rw [unsharded] at overlap
      obtain ⟨-, -, own, member, -⟩ := overlap
      exact List.not_mem_nil member
    · exact (follows _ isMade).2 differ.symm overlap.symm

/-- **Axes that are committed extend what their factor holds and overlap nothing that another factor
holds at that time.** -/
theorem commitments_extend {pool : List Candidate}
    (sharded : ∀ candidate ∈ pool, candidate.choice.axes ≠ []) {before after : List FactorAxes}
    {choice : FactorAxes} (inOrder : commitments mesh pool = before ++ choice :: after) :
    choice.Extends before := by
  have isCommitted : choice ∈ commitments mesh pool := by
    rw [inOrder]
    exact List.mem_append_right _ List.mem_cons_self
  obtain ⟨candidate, isCandidate, rfl⟩ := mem_commitments isCommitted
  have ordered : (commitments mesh pool).Pairwise fun earlier later => later.Follows earlier :=
    commitments_pairwise pool
  rw [inOrder, List.pairwise_append] at ordered
  exact FactorAxes.extends_of_follows (sharded candidate isCandidate) fun earlier isEarlier =>
    ordered.2.2 earlier isEarlier _ List.mem_cons_self

/-- No choice follows itself, so nothing is committed twice. -/
theorem commitments_nodup (mesh : Mesh) (pool : List Candidate) :
    (commitments mesh pool).Nodup := by
  refine (commitments_pairwise pool).imp ?_
  rintro earlier later follows rfl
  exact AxisSequence.IsStrictPrefixOf.irrefl _ (follows.1 rfl)

/-- Every round takes at least the winner out of the pool. -/
theorem length_commitments_le (mesh : Mesh) (pool : List Candidate) :
    (commitments mesh pool).length ≤ pool.length := by
  induction pool using election_induction mesh with
  | nothing =>
    rw [commitments_nil]
    exact Nat.le_refl 0
  | round candidate others ih =>
    have shrinks := length_survivors_lt mesh (Candidate.greatest_mem candidate others)
    rw [commitments_cons, List.length_cons]
    omega

namespace Projection

variable {projection : Projection} {factorCount : Nat}

/-- A factor that has axes in some tensor is below the count. -/
theorem FactorsBelow.of_axesOf (below : projection.FactorsBelow factorCount)
    {tensor : TensorProjection} (isTensor : tensor ∈ projection.tensors) {factor : Nat}
    (sharded : tensor.axesOf factor ≠ []) : factor < factorCount := by
  obtain ⟨sharding, found, -⟩ := exists_factor?_of_axesOf sharded
  exact below tensor isTensor _ (TensorProjection.mem_entries_iff.mpr found)

/-- Only factors of some tensor get votes. -/
theorem FactorsBelow.of_ballot (below : projection.FactorsBelow factorCount) {choice : FactorAxes}
    (member : choice ∈ projection.ballots factorCount) : choice.factor < factorCount := by
  obtain ⟨sharded, tensor, isTensor, begins⟩ := mem_ballots member
  exact below.of_axesOf isTensor (begins.ne_nil sharded)

theorem agreedAxes_pairwise (mesh : Mesh) (factorCount : Nat) (projection : Projection) :
    (projection.agreedAxes mesh factorCount).Pairwise fun first second =>
      ¬ AxisSequence.Overlaps first second :=
  List.pairwise_map.mpr (List.nodup_range.imp fun differ => lastCommitted_apart _ differ)

/-- **Every commitment is for one of the factors, extends what that factor holds and overlaps
nothing that another factor holds;** nothing is committed twice, there are no more commitments than
candidates, and the axes that the factors hold in the end do not overlap each other. If the numbers
of the tensors fit into a word, the election goes through, and the axes that different factors hold
in the end share no shards. -/
theorem election_commits (mesh : Mesh) (factorCount : Nat) (projection : Projection)
    (hasShards : projection.HasShards) (below : projection.FactorsBelow factorCount) :
    (∀ before choice after,
      projection.commitments mesh factorCount = before ++ choice :: after →
        choice.factor < factorCount ∧ choice.Extends before) ∧
      (projection.commitments mesh factorCount).Nodup ∧
      (projection.commitments mesh factorCount).length ≤
        (projection.candidates mesh factorCount).length ∧
      (projection.agreedAxes mesh factorCount).length = factorCount ∧
      ((projection.agreedAxes mesh factorCount).Pairwise fun first second =>
        ¬ AxisSequence.Overlaps first second) ∧
      (projection.WithinWord mesh → projection.Electable mesh factorCount ∧
        (projection.agreedAxes mesh factorCount).Pairwise fun first second =>
          ¬ AxisSequence.Meets first second) := by
  refine ⟨?_, commitments_nodup mesh _, length_commitments_le mesh _, ?_,
    agreedAxes_pairwise mesh factorCount projection, fun within => ⟨within.electable hasShards, ?_⟩⟩
  · intro before choice after inOrder
    have isCommitted : choice ∈ projection.commitments mesh factorCount := by
      rw [inOrder]
      exact List.mem_append_right _ List.mem_cons_self
    obtain ⟨candidate, isCandidate, rfl⟩ := mem_commitments isCommitted
    refine ⟨below.of_ballot (mem_candidates isCandidate), commitments_extend ?_ inOrder⟩
    intro other isOther
    exact (mem_ballots (mem_candidates isOther)).1
  · rw [agreedAxes, List.length_map, List.length_range]
  · refine (agreedAxes_pairwise mesh factorCount projection).imp_of_mem ?_
    intro first second isFirst isSecond apart shared
    exact apart ((AxisSequence.overlaps_iff_meets (within.ends_agreedAxes first isFirst)
      (within.ends_agreedAxes second isSecond)).mpr shared)

/-- A mesh of four devices along one axis. -/
def lineMesh : Mesh :=
  ⟨[⟨"line", 4, by decide, by decide, by decide⟩], by decide⟩

/-- Two tensors that share a factor, along half of the axis and along all of it, and a third one
that uses the minor half of the axis for another factor. -/
def halvesProjection : Projection where
  operands :=
    [⟨[some ⟨[.part "line" 1 2], [], false, true⟩, none], []⟩,
      ⟨[some ⟨[.whole "line"], [], false, true⟩, none], []⟩]
  results := [⟨[none, some ⟨[.part "line" 2 2], [], false, true⟩], []⟩]

/-- The major half has most votes, then the other factor gets the minor half, and the whole axis is
out of the question. -/
theorem halves_commit :
    halvesProjection.commitments lineMesh 2 =
        [⟨0, [.part "line" 1 2]⟩, ⟨1, [.part "line" 2 2]⟩] ∧
      (⟨1, [.part "line" 2 2]⟩ : FactorAxes).Extends [⟨0, [.part "line" 1 2]⟩] ∧
      (halvesProjection.candidates lineMesh 2).length = 3 ∧
      halvesProjection.Electable lineMesh 2 := by
  have inOrder : halvesProjection.commitments lineMesh 2 =
      [⟨0, [.part "line" 1 2]⟩, ⟨1, [.part "line" 2 2]⟩] := by decide +kernel
  obtain ⟨extend, -, -, -, -, computed⟩ := election_commits lineMesh 2 halvesProjection
    (by decide +kernel) (by decide +kernel)
  exact ⟨inOrder, (extend [⟨0, [.part "line" 1 2]⟩] _ [] inOrder).2, by decide +kernel,
    (computed (by decide +kernel)).1⟩

/-- A campus with towers, of which there are more in all than a word can count, with offices, a
garden, and a cable of many strands. -/
def campusMesh : Mesh where
  axes := [⟨"campus", 17179869184, by decide, by decide, by decide⟩,
    ⟨"tower", 34359738368, by decide, by decide, by decide⟩,
    ⟨"office", 23, by decide, by decide, by decide⟩,
    ⟨"garden", 31, by decide, by decide, by decide⟩,
    ⟨"cable", 9223372036854775808, by decide, by decide, by decide⟩]
  names_nodup := by decide

/-- Two tensors that share a factor, along the towers of the campus, and one of them also along the
offices. A third one uses the garden for another factor. -/
def campusProjection : Projection where
  operands :=
    [⟨[some ⟨[.whole "campus", .whole "tower", .whole "office"], [], false, true⟩, none], []⟩,
      ⟨[some ⟨[.whole "campus", .whole "tower"], [], false, true⟩, none], []⟩]
  results := [⟨[none, some ⟨[.whole "garden"], [], false, true⟩], []⟩]

/-- Two tensors that use a part of the cable for one factor, and a third one that uses a shorter
part from the same place on for another factor. -/
def cableProjection : Projection where
  operands :=
    [⟨[some ⟨[.part "cable" 4611686018427387904 4], [], false, true⟩, none], []⟩,
      ⟨[some ⟨[.part "cable" 4611686018427387904 4], [], false, true⟩, none], []⟩]
  results := [⟨[none, some ⟨[.part "cable" 4611686018427387904 2], [], false, true⟩], []⟩]

/-- A word holds nothing of the number of towers, so what the offices add to them is not defined.
And it holds nothing of where the longer part of the cable ends, so both factors get their parts,
though they share shards. -/
theorem cable_shared :
    (campusProjection.HasShards ∧ campusProjection.FactorsBelow 2 ∧
      ¬ campusProjection.Electable campusMesh 2) ∧
      cableProjection.HasShards ∧ cableProjection.FactorsBelow 2 ∧
      cableProjection.agreedAxes campusMesh 2 =
        [[.part "cable" 4611686018427387904 4], [.part "cable" 4611686018427387904 2]] ∧
      AxisSequence.Meets [.part "cable" 4611686018427387904 4]
        [.part "cable" 4611686018427387904 2] := by
  decide +kernel

end Projection

end MeshSharding
