import MeshSharding.Proofs.Vote.Maximal
import MeshSharding.Proofs.Vote.Supporters

/-!
# Majorities prevail

Commitments change the sizes of candidates and so their order, but never their
votes, and votes decide first. So as long as a candidate is in the pool, what is
committed has at least as many votes. If the candidate has more votes than all
that it conflicts with, none of these is ever committed before it: what is
committed leaves it in the pool, or is the candidate itself, or extends it
(`FactorAxes.follows_or_reachedBy`).

The pool is empty in the end. Hence the candidate or an extension of it has been
committed at some time, and what its factor holds in the end extends that
(`Projection.election_keeps_majorities`).
-/

set_option autoImplicit false

namespace MeshSharding

open Std

variable {mesh : Mesh}

/-! ## Conflicts -/

namespace FactorAxes

variable {choice other : FactorAxes}

/-- The choices cannot be made both: for different factors they overlap, and for one factor they
differ and neither extends the other. -/
def Conflicts (choice other : FactorAxes) : Prop :=
  (choice.factor ≠ other.factor ∧ choice.Overlaps other) ∨
    (choice.factor = other.factor ∧ choice.axes ≠ other.axes ∧
      ¬ AxisSequence.IsStrictPrefixOf choice.axes other.axes ∧
      ¬ AxisSequence.IsStrictPrefixOf other.axes choice.axes)

instance (choice other : FactorAxes) : Decidable (choice.Conflicts other) :=
  inferInstanceAs (Decidable ((_ ∧ _) ∨ (_ ∧ _ ∧ ¬ _ ∧ ¬ _)))

/-- A choice without a conflict with a commitment can be made after it, or the commitment reaches
it. -/
theorem follows_or_reachedBy (agrees : ¬ choice.Conflicts other) :
    choice.Follows other ∨ (other.factor = choice.factor ∧ choice.ReachedBy other.axes) := by
  by_cases sameFactor : choice.factor = other.factor
  · by_cases reached : choice.ReachedBy other.axes
    · exact .inr ⟨sameFactor.symm, reached⟩
    · obtain ⟨differ, notShorter⟩ := not_or.mp reached
      refine .inl ⟨fun _ => ?_, fun otherFactor => absurd sameFactor otherFactor⟩
      by_contra notLonger
      exact agrees (.inr ⟨sameFactor, differ, notShorter, notLonger⟩)
  · exact .inl ⟨fun same => absurd same sameFactor,
      fun _ overlap => agrees (.inl ⟨sameFactor, overlap⟩)⟩

end FactorAxes

/-! ## Votes during an election -/

namespace Candidate

/-- A candidate that is not greater does not have more votes. -/
theorem votes_le_of_isLE {first second : Candidate} (below : (order first second).isLE) :
    first.votes ≤ second.votes := by
  by_contra more
  have isGreater : compareOn votes first second = .gt :=
    Nat.compare_eq_gt.mpr (Nat.lt_of_not_le more)
  rw [order, compareLex, isGreater] at below
  cases below

@[simp]
theorem choice_beyond (mesh : Mesh) (commitment : FactorAxes) (candidate : Candidate) :
    (candidate.beyond mesh commitment).choice = candidate.choice := by
  unfold beyond
  split <;> rfl

@[simp]
theorem votes_beyond (mesh : Mesh) (commitment : FactorAxes) (candidate : Candidate) :
    (candidate.beyond mesh commitment).votes = candidate.votes := by
  unfold beyond
  split <;> rfl

/-- The candidate has more votes than every candidate of the pool that it conflicts with. -/
def Prevails (pool : List Candidate) (candidate : Candidate) : Prop :=
  ∀ other ∈ pool, candidate.choice.Conflicts other.choice → other.votes < candidate.votes

instance (pool : List Candidate) (candidate : Candidate) : Decidable (candidate.Prevails pool) :=
  inferInstanceAs (Decidable (∀ other ∈ pool, _ → _))

end Candidate

theorem mem_survivors_iff {commitment : FactorAxes} {pool : List Candidate}
    {survivor : Candidate} : survivor ∈ survivors mesh commitment pool ↔
      ∃ candidate ∈ pool, candidate.choice.Follows commitment ∧
        candidate.beyond mesh commitment = survivor := by
  simp only [survivors, List.mem_filterMap, Candidate.after?_eq, Option.ite_none_right_eq_some,
    Option.some.injEq]

namespace Candidate.Prevails

variable {pool : List Candidate} {candidate : Candidate}

/-- A commitment takes away no votes and adds no candidates. -/
theorem beyond (prevails : candidate.Prevails pool) (commitment : FactorAxes) :
    (candidate.beyond mesh commitment).Prevails (survivors mesh commitment pool) := by
  intro survivor survives conflict
  obtain ⟨other, inPool, -, rfl⟩ := mem_survivors_iff.mp survives
  simp only [choice_beyond, votes_beyond] at conflict ⊢
  exact prevails other inPool conflict

/-- Nothing that conflicts with the candidate wins a round. -/
theorem not_conflicts_winner {first : Candidate} {others : List Candidate}
    (prevails : candidate.Prevails (first :: others)) (member : candidate ∈ first :: others) :
    ¬ candidate.choice.Conflicts (greatest first others).choice := by
  intro conflict
  have fewer := prevails _ (greatest_mem first others) conflict
  exact Nat.not_le_of_gt fewer (votes_le_of_isLE (isLE_greatest first others candidate member))

/-- **A candidate that prevails is committed at some time, or another one that extends it is.** -/
theorem exists_commitment (prevails : candidate.Prevails pool) (member : candidate ∈ pool) :
    ∃ commitment ∈ commitments mesh pool, commitment.factor = candidate.choice.factor ∧
      candidate.choice.ReachedBy commitment.axes := by
  induction pool using election_induction mesh generalizing candidate with
  | nothing => exact absurd member List.not_mem_nil
  | round first others ih =>
    rw [commitments_cons]
    rcases FactorAxes.follows_or_reachedBy (prevails.not_conflicts_winner member) with
      follows | ⟨sameFactor, reached⟩
    · obtain ⟨commitment, isLater, reaches⟩ :=
        ih (prevails.beyond _) (mem_survivors_iff.mpr ⟨candidate, member, follows, rfl⟩)
      rw [choice_beyond] at reaches
      exact ⟨commitment, List.mem_cons_of_mem _ isLater, reaches⟩
    · exact ⟨_, List.mem_cons_self, sameFactor, reached⟩

/-- What a factor holds in the end reaches every candidate for it that prevails. -/
theorem reachedBy_lastCommitted (prevails : candidate.Prevails pool) (member : candidate ∈ pool) :
    candidate.choice.ReachedBy
      (lastCommitted (commitments mesh pool) candidate.choice.factor) := by
  obtain ⟨commitment, isMade, sameFactor, reached⟩ := prevails.exists_commitment member
  rw [← sameFactor]
  exact reached.trans (lastCommitted_of_mem (commitments_pairwise pool) isMade)

end Candidate.Prevails

namespace Projection

/-- **A majority prevails.** In an election among tensors whose references have shards, every
candidate that has more votes than each candidate that it conflicts with gets its axes for its
factor, or axes that extend them. The election goes through if the numbers of the tensors fit into a
word. -/
theorem election_keeps_majorities (mesh : Mesh) (factorCount : Nat) (projection : Projection)
    (hasShards : projection.HasShards) (below : projection.FactorsBelow factorCount) :
    (projection.WithinWord mesh → projection.Electable mesh factorCount) ∧
      ∀ candidate ∈ projection.candidates mesh factorCount,
        (∀ other ∈ projection.candidates mesh factorCount,
          candidate.choice.Conflicts other.choice → other.votes < candidate.votes) →
        ∃ axes, (projection.agreedAxes mesh factorCount)[candidate.choice.factor]? = some axes ∧
          (axes = candidate.choice.axes ∨
            AxisSequence.IsStrictPrefixOf candidate.choice.axes axes) := by
  refine ⟨fun within => within.electable hasShards, fun candidate isCandidate prevails => ?_⟩
  have isFactor := below.of_ballot (mem_candidates isCandidate)
  have reached : candidate.choice.ReachedBy
      (lastCommitted (projection.commitments mesh factorCount) candidate.choice.factor) :=
    Candidate.Prevails.reachedBy_lastCommitted prevails isCandidate
  exact ⟨_, agreedAxes_getElem? isFactor, reached.imp_left Eq.symm⟩

/-- Three tensors that share a factor, along half of the axis and twice along all of it, and a
fourth one that uses the minor half of the axis for another factor. -/
def outvotedProjection : Projection where
  operands :=
    [⟨[some ⟨[.part "line" 1 2], [], false, true⟩, none], []⟩,
      ⟨[some ⟨[.whole "line"], [], false, true⟩, none], []⟩,
      ⟨[none, some ⟨[.part "line" 2 2], [], false, true⟩], []⟩]
  results := [⟨[some ⟨[.whole "line"], [], false, true⟩, none], []⟩]

/-- The whole axis has two votes, and only the minor half for the other factor is against it. The
major half is committed first, but the whole axis extends it and gets its turn. -/
theorem outvoted_extended :
    outvotedProjection.commitments lineMesh 2 =
        [⟨0, [.part "line" 1 2]⟩, ⟨0, [.whole "line"]⟩] ∧
      (⟨0, [.whole "line"]⟩ : FactorAxes).Conflicts ⟨1, [.part "line" 2 2]⟩ ∧
      outvotedProjection.Electable lineMesh 2 ∧
      ∃ axes, (outvotedProjection.agreedAxes lineMesh 2)[0]? = some axes ∧
        (axes = [.whole "line"] ∨ AxisSequence.IsStrictPrefixOf [.whole "line"] axes) := by
  have isCandidate : (⟨⟨0, [.whole "line"]⟩, 2, 4⟩ : Candidate) ∈
      outvotedProjection.candidates lineMesh 2 := by decide +kernel
  obtain ⟨goesThrough, majorities⟩ := election_keeps_majorities lineMesh 2 outvotedProjection
    (by decide +kernel) (by decide +kernel)
  exact ⟨by decide +kernel, by decide, goesThrough (by decide +kernel),
    majorities _ isCandidate (by decide +kernel)⟩

/-- Nothing conflicts with the candidate for the garden, but the election stops before it comes to
it: once all towers are committed, for two votes, it cannot count the offices beyond them. -/
theorem garden_unopposed :
    campusProjection.HasShards ∧ campusProjection.FactorsBelow 2 ∧
      (⟨⟨1, [.whole "garden"]⟩, 1, 31⟩ : Candidate) ∈ campusProjection.candidates campusMesh 2 ∧
      (∀ other ∈ campusProjection.candidates campusMesh 2,
        ¬ (⟨1, [.whole "garden"]⟩ : FactorAxes).Conflicts other.choice) ∧
      ¬ campusProjection.Electable campusMesh 2 := by
  decide +kernel

end Projection

end MeshSharding
