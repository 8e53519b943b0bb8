import Mathlib.Data.List.Induction
import MeshSharding.Proofs.Axis.StrictPrefix
import MeshSharding.Proofs.Vote.Unanimous

/-!
# Elections leave nothing over

An election ends when its pool is empty, so every candidate has been committed
or taken out of the pool by some commitment that its choice does not follow
(`exists_commitment_against`). What was committed then may have been extended
since. But the axes that a factor holds only ever cover more: if they cover a
part of a candidate's axes in the end, they did so before, and what overlapped
the axes of another factor then does so still, if parts of axes end within a
machine word.

So no factor could be given more of what its tensors ask for. Where a candidate
would extend the axes on which its factor is agreed, it overlaps those of
another factor (`Projection.election_maximal`). Axes that end beyond a word may
have kept a factor from its axes without overlapping them in the end
(`Projection.cable_refused`).
-/

set_option autoImplicit false

namespace MeshSharding

variable {mesh : Mesh}

/-- Every candidate of the pool is committed or ruled out by some commitment, and then its choice
does not follow that commitment. -/
theorem exists_commitment_against (mesh : Mesh) {pool : List Candidate} {candidate : Candidate}
    (member : candidate ∈ pool) :
    ∃ commitment ∈ commitments mesh pool, ¬ candidate.choice.Follows commitment := by
  induction pool using election_induction mesh generalizing candidate with
  | nothing => exact absurd member List.not_mem_nil
  | round first others ih =>
    rw [commitments_cons]
    by_cases follows : candidate.choice.Follows (Candidate.greatest first others).choice
    · obtain ⟨survivor, stays, sameChoice⟩ := Candidate.exists_after? mesh follows
      have survives := List.mem_filterMap.mpr ⟨candidate, member, stays⟩
      obtain ⟨commitment, isLater, against⟩ := ih survives
      rw [sameChoice] at against
      exact ⟨commitment, List.mem_cons_of_mem _ isLater, against⟩
    · exact ⟨_, List.mem_cons_self, follows⟩

/-- What is committed for a factor is what the factor is left with, or a strict prefix of it. -/
theorem lastCommitted_of_mem {made : List FactorAxes}
    (ordered : made.Pairwise fun earlier later => later.Follows earlier) {choice : FactorAxes}
    (isMade : choice ∈ made) :
    choice.axes = lastCommitted made choice.factor ∨
      AxisSequence.IsStrictPrefixOf choice.axes (lastCommitted made choice.factor) := by
  induction made using List.reverseRecOn with
  | nil => exact absurd isMade List.not_mem_nil
  | append_singleton earlier last ih =>
    obtain ⟨earlierOrdered, -, follows⟩ := List.pairwise_append.mp ordered
    rw [lastCommitted_concat]
    rcases List.mem_append.mp isMade with isEarlier | isLast
    · by_cases sameFactor : last.factor = choice.factor
      · rw [if_pos sameFactor]
        exact .inr ((follows choice isEarlier last List.mem_cons_self).1 sameFactor)
      · rw [if_neg sameFactor]
        exact ih earlierOrdered isEarlier
    · rw [List.mem_singleton.mp isLast, if_pos rfl]
      exact .inl rfl

/-- A choice for a factor overlaps the axes on which another factor is agreed. -/
def FactorAxes.TakenElsewhere (agreed : List AxisSequence) (choice : FactorAxes) : Prop :=
  ∃ other axes, other ≠ choice.factor ∧ agreed[other]? = some axes ∧
    AxisSequence.Overlaps choice.axes axes

/-- **A candidate that would extend what its factor is left with overlaps what is left to the factor
of some commitment for another factor.** -/
theorem exists_overlap_of_extends {pool : List Candidate} {candidate : Candidate}
    (member : candidate ∈ pool)
    (ends : ∀ factor, ∀ reference ∈ lastCommitted (commitments mesh pool) factor,
      reference.EndsInWord)
    (extended : AxisSequence.IsStrictPrefixOf
      (lastCommitted (commitments mesh pool) candidate.choice.factor) candidate.choice.axes) :
    ∃ commitment ∈ commitments mesh pool, commitment.factor ≠ candidate.choice.factor ∧
      AxisSequence.Overlaps candidate.choice.axes
        (lastCommitted (commitments mesh pool) commitment.factor) := by
  obtain ⟨commitment, isMade, against⟩ := exists_commitment_against mesh member
  have grown := lastCommitted_of_mem (commitments_pairwise pool) isMade
  by_cases sameFactor : candidate.choice.factor = commitment.factor
  · -- what was committed for the factor is a prefix of what it holds, so of the candidate too
    refine absurd ⟨fun _ => ?_, fun differ => absurd sameFactor differ⟩ against
    rw [← sameFactor] at grown
    rcases grown with same | shorter
    · rwa [same]
    · exact shorter.trans extended
  · have overlap : candidate.choice.Overlaps commitment := by
      by_contra apart
      exact against ⟨fun same => absurd same sameFactor, fun _ => apart⟩
    refine ⟨commitment, isMade, Ne.symm sameFactor, ?_⟩
    rcases grown with same | shorter
    · rwa [← same]
    · exact (overlap.symm.of_isStrictPrefixOf shorter (ends _)).symm

namespace Projection

variable {projection : Projection} {factorCount : Nat}

/-- The axes on which a factor is agreed are none or those of a candidate for it. -/
theorem agreed_cases {factor : Nat} {axes : AxisSequence}
    (isAgreed : (projection.agreedAxes mesh factorCount)[factor]? = some axes) :
    axes = [] ∨
      ∃ candidate ∈ projection.candidates mesh factorCount, candidate.choice = ⟨factor, axes⟩ := by
  have below : factor < factorCount := by
    have inBounds := (List.getElem?_eq_some_iff.mp isAgreed).1
    rwa [agreedAxes, List.length_map, List.length_range] at inBounds
  rw [agreedAxes_getElem? below, Option.some.injEq] at isAgreed
  subst isAgreed
  exact (lastCommitted_cases _ factor).imp_right fun isMade => mem_commitments isMade

/-- A candidate that would extend the axes on which its factor is agreed is taken elsewhere. -/
theorem takenElsewhere_of_extends (below : projection.FactorsBelow factorCount)
    (within : projection.WithinWord mesh) {candidate : Candidate}
    (isCandidate : candidate ∈ projection.candidates mesh factorCount) {axes : AxisSequence}
    (isAgreed : (projection.agreedAxes mesh factorCount)[candidate.choice.factor]? = some axes)
    (extended : AxisSequence.IsStrictPrefixOf axes candidate.choice.axes) :
    candidate.choice.TakenElsewhere (projection.agreedAxes mesh factorCount) := by
  rw [agreedAxes_getElem? (below.of_ballot (mem_candidates isCandidate)),
    Option.some.injEq] at isAgreed
  subst isAgreed
  obtain ⟨commitment, isMade, differ, overlap⟩ :=
    exists_overlap_of_extends isCandidate within.ends_lastCommitted extended
  obtain ⟨other, isOther, rfl⟩ := mem_commitments isMade
  exact ⟨_, _, differ, agreedAxes_getElem? (below.of_ballot (mem_candidates isOther)), overlap⟩

/-- **An election is maximal.** Each factor is agreed on no axes or on those of one of its
candidates. If the numbers of the tensors fit into a word, the election goes through, and every
candidate whose axes would extend those on which its factor is agreed overlaps the axes of another
factor. In particular, if some tensor shards a factor and the factor is left without axes, all
candidates for it, and there are some, overlap the axes of other factors. -/
theorem election_maximal (mesh : Mesh) (factorCount : Nat) (projection : Projection)
    (hasShards : projection.HasShards) (below : projection.FactorsBelow factorCount) :
    let agreed := projection.agreedAxes mesh factorCount
    agreed.length = factorCount ∧
      (∀ factor axes, agreed[factor]? = some axes → axes = [] ∨
        ∃ candidate ∈ projection.candidates mesh factorCount,
          candidate.choice = ⟨factor, axes⟩) ∧
      (projection.WithinWord mesh → projection.Electable mesh factorCount ∧
        (∀ candidate ∈ projection.candidates mesh factorCount,
          ∃ axes, agreed[candidate.choice.factor]? = some axes ∧
            (AxisSequence.IsStrictPrefixOf axes candidate.choice.axes →
              candidate.choice.TakenElsewhere agreed)) ∧
        ∀ tensor ∈ projection.tensors, ∀ factor, tensor.axesOf factor ≠ [] →
          agreed[factor]? = some [] →
            (∃ candidate ∈ projection.candidates mesh factorCount,
              candidate.choice = ⟨factor, tensor.axesOf factor⟩) ∧
            ∀ candidate ∈ projection.candidates mesh factorCount,
              candidate.choice.factor = factor → candidate.choice.TakenElsewhere agreed) := by
  intro agreed
  refine ⟨?_, fun factor axes => agreed_cases,
    fun within => ⟨within.electable hasShards, ?_, ?_⟩⟩
  · simp [agreed, agreedAxes]
  · intro candidate isCandidate
    have isAgreed : agreed[candidate.choice.factor]? = some _ :=
      agreedAxes_getElem? (below.of_ballot (mem_candidates isCandidate))
    exact ⟨_, isAgreed, takenElsewhere_of_extends below within isCandidate isAgreed⟩
  · intro tensor isTensor factor sharded unsharded
    constructor
    · cases found : tensor.factor? factor with
      | none =>
        rw [TensorProjection.axesOf, found] at sharded
        exact absurd rfl sharded
      | some sharding =>
        rw [axesOf_eq found] at sharded ⊢
        exact exists_candidate mesh (mem_ballots_of_factor? isTensor found sharded)
    · rintro candidate isCandidate rfl
      exact takenElsewhere_of_extends below within isCandidate unsharded
        (mem_ballots (mem_candidates isCandidate)).1

/-- The whole axis would extend the major half on which the first factor is agreed, but it overlaps
the minor half, which the other factor has. -/
theorem halves_agreed_maximal :
    halvesProjection.agreedAxes lineMesh 2 = [[.part "line" 1 2], [.part "line" 2 2]] ∧
      ∃ candidate ∈ halvesProjection.candidates lineMesh 2,
        candidate.choice = ⟨0, [.whole "line"]⟩ ∧
          candidate.choice.TakenElsewhere (halvesProjection.agreedAxes lineMesh 2) := by
  have agreed : halvesProjection.agreedAxes lineMesh 2 =
      [[.part "line" 1 2], [.part "line" 2 2]] := by decide +kernel
  obtain ⟨-, -, computed⟩ := election_maximal lineMesh 2 halvesProjection
    (by decide +kernel) (by decide +kernel)
  obtain ⟨-, maximal, -⟩ := computed (by decide +kernel)
  have isCandidate : (⟨⟨0, [.whole "line"]⟩, 1, 4⟩ : Candidate) ∈
      halvesProjection.candidates lineMesh 2 := by decide +kernel
  obtain ⟨axes, isAgreed, taken⟩ := maximal _ isCandidate
  refine ⟨agreed, _, isCandidate, rfl, taken ?_⟩
  rw [agreed] at isAgreed
  cases isAgreed
  decide +kernel

/-- Two tensors share a factor, along a part of the cable and a longer one, and a third one uses the
shorter part for another factor. -/
def longerCableProjection : Projection where
  operands :=
    [⟨[some ⟨[.part "cable" 4611686018427387904 2], [], false, true⟩, none], []⟩,
      ⟨[some ⟨[.part "cable" 4611686018427387904 4], [], false, true⟩, none], []⟩]
  results := [⟨[none, some ⟨[.part "cable" 4611686018427387904 2], [], false, true⟩], []⟩]

/-- The shorter part is committed first and refuses the other factor its part. The longer part, which
replaces it, ends beyond a word and overlaps nothing, but the other factor stays without axes. -/
theorem cable_refused :
    longerCableProjection.HasShards ∧ longerCableProjection.FactorsBelow 2 ∧
      longerCableProjection.Electable campusMesh 2 ∧
      longerCableProjection.agreedAxes campusMesh 2 =
        [[.part "cable" 4611686018427387904 4], []] ∧
      (⟨⟨1, [.part "cable" 4611686018427387904 2]⟩, 1, 2⟩ : Candidate) ∈
        longerCableProjection.candidates campusMesh 2 ∧
      ¬ AxisSequence.Overlaps [.part "cable" 4611686018427387904 2]
        [.part "cable" 4611686018427387904 4] := by
  decide +kernel

end Projection

end MeshSharding
