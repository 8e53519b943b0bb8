import MeshSharding.Vote.Election

/-!
# What tensors agree on

A tensor votes only for axes that begin the axes of some tensor for the same
factor (`mem_ballots`), and only what has votes can be committed. In an election
every commitment follows the earlier ones: it extends those for its own factor
and overlaps none for another (`commitments_pairwise`). So the axes on which
different factors are agreed do not overlap (`lastCommitted_apart`), and those
of one factor are none or begin the axes of some tensor
(`lastCommitted_prefix`).
-/

set_option autoImplicit false

namespace MeshSharding

variable {mesh : Mesh}

/-! ## Votes -/

theorem axesOf_eq {tensor : TensorProjection} {factor : Nat} {sharding : FactorSharding}
    (found : tensor.factor? factor = some sharding) : tensor.axesOf factor = sharding.axes := by
  rw [TensorProjection.axesOf, found]
  rfl

/-- A factor that has axes is mapped. -/
theorem exists_factor?_of_axesOf {tensor : TensorProjection} {factor : Nat}
    (sharded : tensor.axesOf factor ≠ []) :
    ∃ sharding, tensor.factor? factor = some sharding ∧ tensor.axesOf factor = sharding.axes := by
  cases found : tensor.factor? factor with
  | none =>
    rw [TensorProjection.axesOf, found] at sharded
    exact absurd rfl sharded
  | some sharding => exact ⟨sharding, rfl, axesOf_eq found⟩

theorem mem_proposals {tensors : List TensorProjection} {factor : Nat} {axes : AxisSequence}
    (member : axes ∈ proposals tensors factor) :
    axes ≠ [] ∧ ∃ tensor ∈ tensors, axes <+: tensor.axesOf factor := by
  rw [proposals, List.mem_eraseDups, List.mem_flatMap] at member
  obtain ⟨tensor, isTensor, begins⟩ := member
  rw [mem_descendingPrefixes_iff] at begins
  exact ⟨begins.1, tensor, isTensor, begins.2⟩

/-- What the table lists for a factor is proposed for it; beyond its end it lists nothing. -/
theorem mem_proposals_of_table {tensors : List TensorProjection} {factorCount factor : Nat}
    {axes : AxisSequence}
    (member : axes ∈ (proposalTable tensors factorCount)[factor]?.getD []) :
    axes ∈ proposals tensors factor := by
  rw [proposalTable, List.getElem?_map] at member
  by_cases below : factor < factorCount
  · rw [List.getElem?_range below] at member
    exact member
  · rw [List.getElem?_eq_none (by rw [List.length_range]; omega)] at member
    exact absurd member List.not_mem_nil

/-- Every vote is for axes that some tensor begins with. -/
theorem mem_ballots {projection : Projection} {factorCount : Nat} {choice : FactorAxes}
    (member : choice ∈ projection.ballots factorCount) :
    choice.axes ≠ [] ∧
      ∃ tensor ∈ projection.tensors, choice.axes <+: tensor.axesOf choice.factor := by
  obtain ⟨tensor, isTensor, isVote⟩ := List.mem_flatMap.mp member
  obtain ⟨⟨factor, sharding⟩, isEntry, isVote⟩ := List.mem_flatMap.mp isVote
  rw [TensorProjection.mem_entries_iff] at isEntry
  unfold votesFor at isVote
  by_cases unsharded : sharding.axes = []
  · rw [if_pos unsharded] at isVote
    exact absurd isVote List.not_mem_nil
  · rw [if_neg unsharded] at isVote
    rcases List.mem_cons.mp isVote with rfl | isShorter
    · have isOwn := axesOf_eq isEntry
      exact ⟨unsharded, tensor, isTensor, isOwn.symm ▸ List.prefix_rfl⟩
    · obtain ⟨shorter, isProposed, rfl⟩ := List.mem_map.mp isShorter
      exact mem_proposals (mem_proposals_of_table (List.mem_filter.mp isProposed).1)

theorem mem_candidates {projection : Projection} {factorCount : Nat} {candidate : Candidate}
    (member : candidate ∈ projection.candidates mesh factorCount) :
    candidate.choice ∈ projection.ballots factorCount := by
  obtain ⟨choice, isChoice, rfl⟩ := List.mem_map.mp member
  exact List.mem_eraseDups.mp isChoice

/-! ## Commitments -/

/-- A choice can be made after a commitment: for the same factor it extends the commitment, and for
another factor it does not overlap it. -/
def FactorAxes.Follows (choice commitment : FactorAxes) : Prop :=
  (choice.factor = commitment.factor →
      AxisSequence.IsStrictPrefixOf commitment.axes choice.axes) ∧
    (choice.factor ≠ commitment.factor → ¬ choice.Overlaps commitment)

/-- A candidate that stays in the pool was there before, and its choice follows the commitment. -/
theorem mem_survivors {commitment : FactorAxes} {pool : List Candidate} {candidate : Candidate}
    (member : candidate ∈ survivors mesh commitment pool) :
    (∃ earlier ∈ pool, earlier.choice = candidate.choice) ∧
      candidate.choice.Follows commitment := by
  obtain ⟨earlier, inPool, stays⟩ := List.mem_filterMap.mp member
  unfold Candidate.after? at stays
  by_cases sameFactor : earlier.choice.factor = commitment.factor
  · rw [if_pos sameFactor] at stays
    split at stays
    · rename_i extended
      cases stays
      exact ⟨⟨earlier, inPool, rfl⟩, fun _ => extended, fun differ => absurd sameFactor differ⟩
    · cases stays
  · rw [if_neg sameFactor] at stays
    split at stays
    · cases stays
    · rename_i apart
      cases stays
      exact ⟨⟨candidate, inPool, rfl⟩, fun same => absurd same sameFactor, fun _ => apart⟩

theorem commitments_nil : commitments mesh [] = [] := by
  rw [commitments, rounds, List.map_nil]

/-- The winner of the first round is committed first, and the survivors hold the rest of the
election. -/
theorem commitments_cons (candidate : Candidate) (others : List Candidate) :
    commitments mesh (candidate :: others) =
      (Candidate.greatest candidate others).choice ::
        commitments mesh (survivors mesh (Candidate.greatest candidate others).choice
          (candidate :: others)) := by
  rw [commitments, rounds, List.map_cons]
  rfl

/-- What holds of an election without candidates, and of one that starts with a round when it holds
of the election among the survivors, holds of every election. -/
theorem election_induction (mesh : Mesh) {Holds : List Candidate → Prop} (nothing : Holds [])
    (round : ∀ (candidate : Candidate) (others : List Candidate),
      Holds (survivors mesh (Candidate.greatest candidate others).choice (candidate :: others)) →
        Holds (candidate :: others)) (pool : List Candidate) : Holds pool := by
  induction pool using rounds.induct mesh with
  | case1 => exact nothing
  | case2 candidate others winner ih => exact round candidate others ih

/-- Only candidates of the pool are committed. -/
theorem mem_commitments {pool : List Candidate} {choice : FactorAxes}
    (member : choice ∈ commitments mesh pool) : ∃ candidate ∈ pool, candidate.choice = choice := by
  induction pool using election_induction mesh with
  | nothing =>
    rw [commitments_nil] at member
    exact absurd member List.not_mem_nil
  | round candidate others ih =>
    rw [commitments_cons] at member
    rcases List.mem_cons.mp member with rfl | later
    · exact ⟨_, Candidate.greatest_mem candidate others, rfl⟩
    · obtain ⟨survivor, survives, rfl⟩ := ih later
      exact (mem_survivors survives).1

/-- **Every commitment follows all earlier ones.** -/
theorem commitments_pairwise (pool : List Candidate) :
    (commitments mesh pool).Pairwise fun earlier later => later.Follows earlier := by
  induction pool using election_induction mesh with
  | nothing =>
    rw [commitments_nil]
    exact .nil
  | round candidate others ih =>
    rw [commitments_cons]
    refine List.pairwise_cons.mpr ⟨?_, ih⟩
    intro later isLater
    obtain ⟨survivor, survives, rfl⟩ := mem_commitments isLater
    exact (mem_survivors survives).2

/-! ## Agreed axes -/

/-- A factor is left with no axes or with some that were committed for it. -/
theorem lastCommitted_cases (made : List FactorAxes) (factor : Nat) :
    lastCommitted made factor = [] ∨ ⟨factor, lastCommitted made factor⟩ ∈ made := by
  unfold lastCommitted
  cases last : (made.filter fun choice => choice.factor == factor).getLast? with
  | none => exact .inl rfl
  | some choice =>
    obtain ⟨isMade, isFactor⟩ := List.mem_filter.mp (List.mem_of_getLast? last)
    refine .inr ?_
    rw [← beq_iff_eq.mp isFactor]
    exact isMade

/-- A factor is left with the last choice if that is for it. -/
theorem lastCommitted_concat (made : List FactorAxes) (choice : FactorAxes) (factor : Nat) :
    lastCommitted (made ++ [choice]) factor =
      if choice.factor = factor then choice.axes else lastCommitted made factor := by
  unfold lastCommitted
  rw [List.filter_append]
  by_cases isFactor : choice.factor = factor
  · rw [if_pos isFactor, List.filter_cons_of_pos (by simpa using isFactor), List.filter_nil,
      List.getLast?_concat]
    rfl
  · rw [if_neg isFactor, List.filter_cons_of_neg (by simpa using isFactor), List.filter_nil,
      List.append_nil]

/-- If of two members for different factors the later one is apart from the earlier one, any two
members for different factors are apart. -/
theorem apart_of_pairwise {α : Type} {members : List α} (factorOf : α → Nat)
    (axesOf : α → AxisSequence)
    (ordered : members.Pairwise fun earlier later => factorOf later ≠ factorOf earlier →
      ¬ AxisSequence.Overlaps (axesOf later) (axesOf earlier)) {first second : α}
    (isFirst : first ∈ members) (isSecond : second ∈ members)
    (differ : factorOf first ≠ factorOf second) :
    ¬ AxisSequence.Overlaps (axesOf first) (axesOf second) := by
  have apart : ∀ choice ∈ members, ∀ other ∈ members, factorOf choice ≠ factorOf other →
      ¬ AxisSequence.Overlaps (axesOf choice) (axesOf other) := by
    refine List.Pairwise.forall_of_forall_of_flip (fun _ _ differ => absurd rfl differ) ?_ ?_
    · apply ordered.imp
      intro _ _ apart differ overlap
      exact apart differ.symm overlap.symm
    · exact ordered
  exact apart first isFirst second isSecond differ

/-- The axes on which different factors are left do not overlap. -/
theorem lastCommitted_apart (pool : List Candidate) {first second : Nat} (differ : first ≠ second) :
    ¬ AxisSequence.Overlaps (lastCommitted (commitments mesh pool) first)
      (lastCommitted (commitments mesh pool) second) := by
  have nothing (axes : AxisSequence) : ¬ AxisSequence.Overlaps [] axes := by
    rintro ⟨reference, -, own, member, -⟩
    exact List.not_mem_nil member
  rcases lastCommitted_cases (commitments mesh pool) first with unsharded | isFirst
  · rw [unsharded]
    exact nothing _
  · rcases lastCommitted_cases (commitments mesh pool) second with unsharded | isSecond
    · rw [unsharded]
      exact fun overlap => nothing _ overlap.symm
    · have ordered : (commitments mesh pool).Pairwise fun earlier later =>
          later.factor ≠ earlier.factor → ¬ later.Overlaps earlier :=
        (commitments_pairwise pool).imp fun follows => follows.2
      exact apart_of_pairwise FactorAxes.factor FactorAxes.axes ordered isFirst isSecond differ

namespace Projection

variable {projection : Projection} {factorCount : Nat}

theorem agreedAxes_getElem? {factor : Nat} (below : factor < factorCount) :
    (projection.agreedAxes mesh factorCount)[factor]? =
      some (lastCommitted (projection.commitments mesh factorCount) factor) := by
  rw [agreedAxes, List.getElem?_map, List.getElem?_range below]
  rfl

/-- The axes on which a factor is agreed are none or begin the axes of some tensor. -/
theorem lastCommitted_prefix (factor : Nat) :
    lastCommitted (projection.commitments mesh factorCount) factor = [] ∨
      ∃ tensor ∈ projection.tensors,
        lastCommitted (projection.commitments mesh factorCount) factor <+:
          tensor.axesOf factor := by
  apply (lastCommitted_cases _ factor).imp_right
  intro isMade
  obtain ⟨candidate, isCandidate, isChoice⟩ := mem_commitments isMade
  have begins := (mem_ballots (mem_candidates isCandidate)).2
  rw [isChoice] at begins
  exact begins

end Projection

end MeshSharding
