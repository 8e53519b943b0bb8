import MeshSharding.Proofs.Projection.Bounded
import MeshSharding.Proofs.Vote.Commitments

/-!
# Voting within the factors

What tensors have for a factor has shards that divide its size, and so has
everything that begins it (`FactorAxes.Divides.of_begins`). Hence the shards of
every candidate divide the size of its factor, and if that fits into a machine
word, so do they. They still do in later rounds, where a candidate counts only
what is beyond a commitment: the commitment is a strict prefix of its axes, so the
division that finds the number is exact (`Candidate.Divides.of_after?`).

Sizes and overlaps are all that a round computes. With exact quotients and with
products that stay within the axes it comes to the same survivors
(`survivorsWithin?_eq_some`), and that is so in every round (`rounds_exact`).
-/

set_option autoImplicit false

namespace MeshSharding

variable {mesh : Mesh} {sizes : List Nat}

/-! ## Choices and candidates -/

/-- The axes fit the mesh, and their shards, which a word can count, divide the size of the factor,
which is not zero. -/
structure FactorAxes.Divides (mesh : Mesh) (sizes : List Nat) (choice : FactorAxes) : Prop where
  fits : ∀ reference ∈ choice.axes, reference.Fits mesh
  divides : ∃ size, sizes[choice.factor]? = some size ∧ 0 < size ∧
    AxisSequence.shards mesh choice.axes ∣ size
  counts : AxisSequence.CountsInWord mesh choice.axes

/-- The shards of the axes divide the size of the factor, and those that are counted divide them. -/
structure Candidate.Divides (mesh : Mesh) (sizes : List Nat) (candidate : Candidate) : Prop where
  choice : candidate.choice.Divides mesh sizes
  counted : candidate.size ∣ AxisSequence.shards mesh candidate.choice.axes

namespace FactorAxes.Divides

variable {choice : FactorAxes}

theorem shards_pos (divides : choice.Divides mesh sizes) :
    0 < AxisSequence.shards mesh choice.axes :=
  AxisSequence.shards_pos_of_fits divides.fits

theorem size_eq (divides : choice.Divides mesh sizes) :
    AxisSequence.size mesh choice.axes = AxisSequence.shards mesh choice.axes :=
  divides.counts.size_eq

theorem of_begins {factor : Nat} {shorter axes : AxisSequence}
    (divides : FactorAxes.Divides mesh sizes ⟨factor, axes⟩) (begins : shorter <+: axes) :
    FactorAxes.Divides mesh sizes ⟨factor, shorter⟩ := by
  have positive := divides.shards_pos
  obtain ⟨fits, ⟨size, isSize, isPositive, whole⟩, counts⟩ := divides
  obtain ⟨others, rfl⟩ := begins
  have isFactor : AxisSequence.shards mesh shorter ∣
      AxisSequence.shards mesh (shorter ++ others) := by
    rw [AxisSequence.shards_append]
    exact Nat.dvd_mul_right _ _
  exact ⟨fun reference member => fits reference (List.mem_append_left _ member),
    ⟨size, isSize, isPositive, Nat.dvd_trans isFactor whole⟩, counts.of_dvd positive isFactor⟩

theorem shards_lt (divides : choice.Divides mesh sizes) {limit : Nat}
    (below : ∀ size ∈ sizes, size < limit) : AxisSequence.shards mesh choice.axes < limit := by
  obtain ⟨size, isSize, positive, whole⟩ := divides.divides
  exact Nat.lt_of_le_of_lt (Nat.le_of_dvd positive whole)
    (below size (List.mem_of_getElem? isSize))

end FactorAxes.Divides

/-- What a candidate counts stays below a bound of the sizes of factors. -/
theorem Candidate.Divides.size_lt {candidate : Candidate} (divides : candidate.Divides mesh sizes)
    {limit : Nat} (below : ∀ size ∈ sizes, size < limit) : candidate.size < limit :=
  Nat.lt_of_le_of_lt (Nat.le_of_dvd divides.choice.shards_pos divides.counted)
    (divides.choice.shards_lt below)

/-! ## Rounds with care -/

/-- A candidate after a commitment, if it stays in the pool. -/
def Candidate.afterWithin? (mesh : Mesh) (commitment : FactorAxes) (candidate : Candidate) :
    Option (Option Candidate) :=
  if candidate.choice.factor = commitment.factor then
    if AxisSequence.IsStrictPrefixOf commitment.axes candidate.choice.axes then do
      let size ← quotient? (AxisSequence.size mesh candidate.choice.axes)
        (AxisSequence.size mesh commitment.axes)
      return some { candidate with size }
    else some none
  else do
    let overlaps ← AxisSequence.overlapsWithin? mesh candidate.choice.axes commitment.axes
    return if overlaps then none else some candidate

/-- The pool after a commitment. -/
def survivorsWithin? (mesh : Mesh) (commitment : FactorAxes) (pool : List Candidate) :
    Option (List Candidate) := do
  let outcomes ← pool.mapM (Candidate.afterWithin? mesh commitment)
  return outcomes.filterMap id

section Step

variable {commitment : FactorAxes} (committed : commitment.Divides mesh sizes)
include committed

namespace Candidate.Divides

variable {candidate survivor : Candidate} (divides : candidate.Divides mesh sizes)
include divides

/-- What is beyond the commitment divides the shards without a remainder. -/
theorem size_dvd (extended : AxisSequence.IsStrictPrefixOf commitment.axes candidate.choice.axes) :
    AxisSequence.size mesh commitment.axes ∣ AxisSequence.size mesh candidate.choice.axes := by
  rw [committed.size_eq, divides.choice.size_eq]
  exact extended.shards_dvd committed.fits

theorem afterWithin?_eq_some :
    candidate.afterWithin? mesh commitment = some (candidate.after? mesh commitment) := by
  unfold afterWithin? after?
  by_cases sameFactor : candidate.choice.factor = commitment.factor
  · rw [if_pos sameFactor, if_pos sameFactor]
    by_cases extended : AxisSequence.IsStrictPrefixOf commitment.axes candidate.choice.axes
    · rw [if_pos extended, if_pos extended,
        quotient?_eq_some (committed.size_eq ▸ committed.shards_pos)
          (divides.size_dvd committed extended)]
      rfl
    · rw [if_neg extended, if_neg extended]
  · rw [if_neg sameFactor, if_neg sameFactor,
      AxisSequence.overlapsWithin?_eq_some divides.choice.fits committed.fits]
    simp only [Option.bind_eq_bind, Option.bind_some, decide_eq_true_eq]
    rfl

/-- **What stays in the pool still divides the size of its factor.** -/
theorem of_after? (stays : candidate.after? mesh commitment = some survivor) :
    survivor.Divides mesh sizes := by
  unfold after? at stays
  split at stays
  · split at stays
    · rename_i extended
      cases stays
      refine ⟨divides.choice, ?_⟩
      rw [← divides.choice.size_eq]
      exact Nat.div_dvd_of_dvd (divides.size_dvd committed extended)
    · cases stays
  · split at stays
    · cases stays
    · cases stays
      exact divides

end Candidate.Divides

variable {pool : List Candidate} (all : ∀ candidate ∈ pool, candidate.Divides mesh sizes)
include all

theorem divides_survivors :
    ∀ survivor ∈ survivors mesh commitment pool, survivor.Divides mesh sizes := by
  intro survivor member
  obtain ⟨candidate, inPool, stays⟩ := List.mem_filterMap.mp member
  exact (all candidate inPool).of_after? committed stays

theorem survivorsWithin?_eq_some :
    survivorsWithin? mesh commitment pool = some (survivors mesh commitment pool) := by
  rw [survivorsWithin?, mapM_eq_some_of_forall fun candidate member =>
    (all candidate member).afterWithin?_eq_some committed]
  exact congrArg some List.filterMap_map

end Step

/-! ## Elections -/

/-- The candidates and the commitment of a round divide the sizes of their factors, and nothing is
refused when the survivors are found with care. -/
structure Round.Exact (mesh : Mesh) (sizes : List Nat) (round : Round) : Prop where
  pool : ∀ candidate ∈ round.pool, candidate.Divides mesh sizes
  commitment : round.commitment.Divides mesh sizes
  survivors : survivorsWithin? mesh round.commitment round.pool =
    some (MeshSharding.survivors mesh round.commitment round.pool)

/-- **If the candidates divide the sizes of their factors, those of every round do.** -/
theorem rounds_exact {pool : List Candidate}
    (all : ∀ candidate ∈ pool, candidate.Divides mesh sizes) :
    ∀ round ∈ rounds mesh pool, round.Exact mesh sizes := by
  induction pool using election_induction mesh with
  | nothing =>
    rw [rounds]
    exact fun _ member => absurd member List.not_mem_nil
  | round candidate others ih =>
    have winner := all _ (Candidate.greatest_mem candidate others)
    rw [rounds]
    refine List.forall_mem_cons.mpr ⟨⟨all, winner.choice, ?_⟩, ih ?_⟩
    · exact survivorsWithin?_eq_some winner.choice all
    · exact divides_survivors winner.choice all

namespace Projection

variable {projection : Projection} {factorCount : Nat}
  (fits : ∀ tensor ∈ projection.tensors, tensor.Fits mesh)
  (divides : ∀ tensor ∈ projection.tensors, tensor.DividesSizes mesh sizes)
include fits

theorem hasShards_of_fits : projection.HasShards :=
  fun tensor isTensor entry isEntry reference member =>
    ((fits tensor isTensor).of_entry entry isEntry reference member).hasShards

/-- All agreed axes fit the mesh. -/
theorem fits_agreedAxes : ∀ axes ∈ projection.agreedAxes mesh factorCount,
    ∀ reference ∈ axes, reference.Fits mesh :=
  List.forall_mem_map.mpr fun factor _ =>
    forall_lastCommitted (fun tensor isTensor => (fits tensor isTensor).of_entry) factor

variable (below : ∀ size ∈ sizes, size < UInt64.size)
include divides below

/-- **If the sizes of factors fit into a word, all numbers of the tensors do.** -/
theorem withinWord_of_divides : projection.WithinWord mesh := by
  refine ⟨fun tensor isTensor entry isEntry reference member => ?_,
    fun tensor isTensor entry isEntry => ?_⟩
  · exact ((fits tensor isTensor).of_entry entry isEntry reference member).endsInWord
  · obtain ⟨size, isSize, whole, several⟩ :=
      divides tensor isTensor entry.1 entry.2 (TensorProjection.mem_entries_iff.mp isEntry)
    by_cases unsharded : entry.2.axes = []
    · rw [unsharded]
      exact AxisSequence.countsInWord_nil mesh
    · exact Nat.lt_of_le_of_lt (Nat.le_of_dvd (Nat.lt_of_succ_lt (several unsharded)) whole)
        (below size (List.mem_of_getElem? isSize))

/-- The axes of a factor in a tensor divide its size. -/
theorem divides_axesOf {tensor : TensorProjection} (isTensor : tensor ∈ projection.tensors)
    {factor : Nat} (sharded : tensor.axesOf factor ≠ []) :
    FactorAxes.Divides mesh sizes ⟨factor, tensor.axesOf factor⟩ := by
  obtain ⟨sharding, found, isAxes⟩ := exists_factor?_of_axesOf sharded
  have within := withinWord_of_divides fits divides below
  rw [isAxes] at sharded ⊢
  obtain ⟨size, isSize, whole, several⟩ := divides tensor isTensor factor sharding found
  refine ⟨fun reference member => ?_, ⟨size, isSize, Nat.lt_of_succ_lt (several sharded), whole⟩,
    within.counted tensor isTensor (factor, sharding) (TensorProjection.mem_entries_iff.mpr found)⟩
  exact fits tensor isTensor factor sharding found reference (List.mem_append_left _ member)

/-- **The shards of every candidate divide the size of its factor,** and its size is their number. -/
theorem divides_candidates : ∀ candidate ∈ projection.candidates mesh factorCount,
    candidate.Divides mesh sizes ∧
      candidate.size = AxisSequence.shards mesh candidate.choice.axes := by
  intro candidate member
  obtain ⟨sharded, tensor, isTensor, begins⟩ := mem_ballots (mem_candidates member)
  have chosen :=
    (divides_axesOf fits divides below isTensor (begins.ne_nil sharded)).of_begins begins
  obtain ⟨choice, -, rfl⟩ := List.mem_map.mp member
  exact ⟨⟨chosen, 1, chosen.size_eq.symm.trans (Nat.mul_one _).symm⟩, chosen.size_eq⟩

end Projection

end MeshSharding
