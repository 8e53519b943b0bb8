import MeshSharding.Proofs.Vote.Majority

/-!
# Elections among tensors that agree

An election among tensors that agree on every factor goes through, whatever
machine words hold of the numbers of shards (`Projection.electable_of_isConsistent`).
The sizes may be wrong, but they do not mislead it. As long as a candidate for a
factor is in the pool, so is the one for all of the agreed axes, with as many
votes (`Candidate.BelowAgreed`). If a word holds nothing of the shards of a
candidate, it holds nothing of those of the agreed axes either, for these go on
where the candidate ends. Then both have size zero, and the longer sequence is
preferred. So a candidate of size zero only wins if it has all agreed axes, and no
candidate has more.
-/

set_option autoImplicit false

namespace MeshSharding

open Std

variable {mesh : Mesh}

namespace AxisSequence

variable {shorter axes : AxisSequence}

/-- If a word holds nothing of the shards of a sequence, it holds nothing of those of a longer one
that the sequence begins. -/
theorem size_eq_zero_of_isPrefix (begins : shorter <+: axes) (empty : size mesh shorter = 0) :
    size mesh axes = 0 := by
  obtain ⟨others, rfl⟩ := begins
  rw [size_eq_mod, shards_append, Nat.mul_mod, ← size_eq_mod, empty, Nat.zero_mul, Nat.zero_mod]

/-- Of two sequences the shorter one comes first. -/
theorem order_lt_of_length_lt (fewer : shorter.length < axes.length) :
    order shorter axes = .lt := by
  have isLess : compareOn List.length shorter axes = .lt := Nat.compare_eq_lt.mpr fewer
  rw [order, compareLex, isLess]
  rfl

end AxisSequence

namespace Candidate

/-- With equal votes, sizes and factors a candidate with fewer references is less. -/
theorem order_lt_of_length_lt {first second : Candidate} (sameVotes : first.votes = second.votes)
    (sameSize : first.size = second.size)
    (sameFactor : first.choice.factor = second.choice.factor)
    (fewer : first.choice.axes.length < second.choice.axes.length) :
    order first second = .lt := by
  have votesEqual : compareOn votes first second = .eq := Nat.compare_eq_eq.mpr sameVotes
  have sizeEqual : compareOn size first second = .eq := Nat.compare_eq_eq.mpr sameSize
  have factorEqual : compareOn FactorAxes.factor first.choice second.choice = .eq :=
    Nat.compare_eq_eq.mpr sameFactor
  have axesLess : FactorAxes.axesOrder first.choice second.choice = .lt :=
    AxisSequence.order_lt_of_length_lt fewer
  simp only [order, compareLex, choiceOrder, FactorAxes.order, votesEqual, sizeEqual, factorEqual,
    axesLess, Ordering.then]

/-- The candidate begins the agreed axes of its factor, and the pool has a candidate for all of them
with as many votes. Its size is zero if that is what a word holds of its shards. -/
structure BelowAgreed (mesh : Mesh) (agreed : Nat → AxisSequence) (pool : List Candidate)
    (candidate : Candidate) : Prop where
  begins : candidate.choice.axes <+: agreed candidate.choice.factor
  top : ∃ top ∈ pool, top.choice = ⟨candidate.choice.factor, agreed candidate.choice.factor⟩ ∧
    top.votes = candidate.votes
  empty : AxisSequence.size mesh candidate.choice.axes = 0 → candidate.size = 0

/-- A candidate that begins the agreed axes and that another one extends does not have all of
them. -/
theorem ne_agreed_of_extended {winner candidate : Candidate} {axes : AxisSequence}
    (begins : candidate.choice.axes <+: axes)
    (extended : AxisSequence.IsStrictPrefixOf winner.choice.axes candidate.choice.axes) :
    winner.choice.axes ≠ axes := by
  rintro rfl
  exact AxisSequence.not_isStrictPrefixOf_of_isPrefix begins extended

end Candidate

section Pool

variable {agreed : Nat → AxisSequence} {first : Candidate} {others : List Candidate}
  (all : ∀ candidate ∈ first :: others, candidate.BelowAgreed mesh agreed (first :: others))
include all

/-- The winner of a round has a size if another candidate extends it. -/
theorem measurable_of_belowAgreed :
    Round.Measurable mesh ⟨first :: others, (Candidate.greatest first others).choice⟩ := by
  rintro candidate member ⟨empty, sameFactor, extended⟩
  have winner := all _ (Candidate.greatest_mem first others)
  have begins := (all candidate member).begins
  rw [show candidate.choice.factor = _ from sameFactor] at begins
  have differ := Candidate.ne_agreed_of_extended begins extended
  obtain ⟨top, isTop, isAgreed, sameVotes⟩ := winner.top
  have topEmpty : top.size = 0 := by
    refine (all top isTop).empty ?_
    rw [isAgreed]
    exact AxisSequence.size_eq_zero_of_isPrefix winner.begins empty
  -- the agreed axes tie with the winner in votes and size, and are longer
  have isLess : Candidate.order (Candidate.greatest first others) top = .lt := by
    refine Candidate.order_lt_of_length_lt sameVotes.symm ((winner.empty empty).trans topEmpty.symm)
      (by rw [isAgreed]) ?_
    rw [isAgreed]
    exact Nat.lt_of_le_of_ne winner.begins.length_le fun same =>
      differ (winner.begins.eq_of_length same)
  have notAbove : (Candidate.order top (Candidate.greatest first others)).isLE :=
    Candidate.isLE_greatest first others top isTop
  have swapped : Candidate.order top (Candidate.greatest first others) =
      (Candidate.order (Candidate.greatest first others) top).swap := OrientedCmp.eq_swap
  rw [swapped, isLess] at notAbove
  cases notAbove

/-- What stays in the pool still begins the agreed axes, and these stay in it. -/
theorem belowAgreed_survivors (apart : ∀ factor other, factor ≠ other →
      ¬ AxisSequence.Overlaps (agreed factor) (agreed other)) :
    ∀ survivor ∈ survivors mesh (Candidate.greatest first others).choice (first :: others),
      survivor.BelowAgreed mesh agreed
        (survivors mesh (Candidate.greatest first others).choice (first :: others)) := by
  intro survivor survives
  obtain ⟨candidate, member, follows, rfl⟩ := mem_survivors_iff.mp survives
  have winner := all _ (Candidate.greatest_mem first others)
  obtain ⟨begins, ⟨top, isTop, isAgreed, sameVotes⟩, empty⟩ := all candidate member
  have topFollows : top.choice.Follows (Candidate.greatest first others).choice := by
    rw [isAgreed]
    refine ⟨fun sameFactor => ?_, fun differ overlap => ?_⟩
    · have extended := follows.1 sameFactor
      have differ := Candidate.ne_agreed_of_extended begins extended
      rw [show candidate.choice.factor = _ from sameFactor] at differ ⊢
      exact AxisSequence.isStrictPrefixOf_of_isPrefix winner.begins differ
    · obtain ⟨reference, isReference, overlaps⟩ := overlap
      exact apart _ _ differ ⟨reference, winner.begins.subset isReference, overlaps⟩
  refine ⟨?_, ⟨_, mem_survivors_iff.mpr ⟨top, isTop, topFollows, rfl⟩, ?_, ?_⟩, ?_⟩
  · rwa [Candidate.choice_beyond]
  · rw [Candidate.choice_beyond, Candidate.choice_beyond, isAgreed]
  · rw [Candidate.votes_beyond, Candidate.votes_beyond, sameVotes]
  · rw [Candidate.choice_beyond]
    intro isEmpty
    unfold Candidate.beyond
    split
    · exact (congrArg (· / _) isEmpty).trans (Nat.zero_div _)
    · exact empty isEmpty

end Pool

/-- **In every round of an election whose candidates begin agreed axes all sizes are defined,** if
those of different factors do not overlap. -/
theorem measurable_of_agreed {agreed : Nat → AxisSequence} {pool : List Candidate}
    (all : ∀ candidate ∈ pool, candidate.BelowAgreed mesh agreed pool)
    (apart : ∀ factor other, factor ≠ other →
      ¬ AxisSequence.Overlaps (agreed factor) (agreed other)) :
    ∀ round ∈ rounds mesh pool, round.Measurable mesh := by
  induction pool using election_induction mesh with
  | nothing =>
    rw [rounds]
    exact fun _ member => absurd member List.not_mem_nil
  | round first others ih =>
    rw [rounds]
    exact List.forall_mem_cons.mpr
      ⟨measurable_of_belowAgreed all, ih (belowAgreed_survivors all apart)⟩

namespace Projection

variable {projection : Projection} {factorCount : Nat}

/-- The tensors that map a factor support all that begins the axes on which they agree. -/
theorem AgreesOn.supports_iff {factor : Nat} {axes shorter : AxisSequence}
    (agrees : projection.AgreesOn factor axes) (begins : shorter <+: axes)
    {tensor : TensorProjection} (isTensor : tensor ∈ projection.tensors) :
    tensor.Supports ⟨factor, shorter⟩ ↔ (tensor.factor? factor).isSome := by
  constructor
  · rintro ⟨sharding, found, -⟩
    exact Option.isSome_of_eq_some found
  · intro isMapped
    obtain ⟨sharding, found⟩ := Option.isSome_iff_exists.mp isMapped
    refine ⟨sharding, found, ?_⟩
    rw [agrees.2 tensor isTensor sharding found]
    by_cases same : shorter = axes
    · exact .inl same
    · exact .inr (AxisSequence.isStrictPrefixOf_of_isPrefix begins same)

/-- The candidates for a factor on which the tensors agree have as many votes as the one for all of
the agreed axes. -/
theorem AgreesOn.belowAgreed (below : projection.FactorsBelow factorCount)
    {agreed : Nat → AxisSequence} {candidate : Candidate}
    (agrees : projection.AgreesOn candidate.choice.factor (agreed candidate.choice.factor))
    (isCandidate : candidate ∈ projection.candidates mesh factorCount) :
    candidate.BelowAgreed mesh agreed (projection.candidates mesh factorCount) := by
  obtain ⟨sharded, begins⟩ := agrees.begins (mem_candidates isCandidate)
  obtain ⟨-, tensor, isTensor, used⟩ := mem_ballots (mem_candidates isCandidate)
  obtain ⟨sharding, found, isAxes⟩ := exists_factor?_of_axesOf (used.ne_nil sharded)
  have isOwn := agrees.2 tensor isTensor sharding found
  have isBallot : ⟨candidate.choice.factor, agreed candidate.choice.factor⟩ ∈
      projection.ballots factorCount := by
    rw [← isOwn]
    exact mem_ballots_of_factor? isTensor found (isOwn ▸ begins.ne_nil sharded)
  refine ⟨begins, ?_, ?_⟩
  · obtain ⟨top, isTop, isAgreed⟩ := exists_candidate mesh isBallot
    refine ⟨top, isTop, isAgreed, ?_⟩
    rw [votes_eq_countP below isTop, votes_eq_countP below isCandidate, isAgreed]
    refine List.countP_congr fun tensor isTensor => ?_
    rw [decide_eq_true_iff, decide_eq_true_iff, agrees.supports_iff (List.prefix_refl _) isTensor]
    exact (agrees.supports_iff begins isTensor).symm
  · obtain ⟨choice, -, rfl⟩ := List.mem_map.mp isCandidate
    exact id

/-- **An election among tensors that agree on every factor goes through,** if they keep the axes of
different factors apart and any two factors meet. -/
theorem electable_of_isConsistent (hasShards : projection.HasShards)
    (consistent : projection.IsConsistent)
    (apart : ∀ tensor ∈ projection.tensors, tensor.KeepsApart)
    (meet : projection.FactorsMeet factorCount) (below : projection.FactorsBelow factorCount) :
    projection.Electable mesh factorCount := by
  refine ⟨hasShards.comparable, ?_⟩
  have disjoint (factor other : Nat) (differ : factor ≠ other) :
      ¬ AxisSequence.Overlaps (lastCommitted (projection.commitments mesh factorCount) factor)
        (lastCommitted (projection.commitments mesh factorCount) other) :=
    lastCommitted_apart _ differ
  refine measurable_of_agreed (fun candidate isCandidate => ?_) disjoint
  have isFactor := below.of_ballot (mem_candidates isCandidate)
  have agrees : projection.AgreesOn candidate.choice.factor
      (lastCommitted (projection.commitments mesh factorCount) candidate.choice.factor) :=
    agreesOn_lastCommitted consistent apart meet below isFactor
  exact agrees.belowAgreed below isCandidate

end Projection

end MeshSharding
