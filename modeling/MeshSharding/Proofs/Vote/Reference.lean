import Mathlib.Data.Finset.Image
import Mathlib.Data.List.Perm.Basic
import MeshSharding.Proofs.ListsAndChecks
import MeshSharding.Proofs.Vote.Unanimous

/-!
# Elections on sets of candidates

An election keeps its candidates in a list, but what it commits depends on the
set of them only. On a set, a round commits the choice of the greatest
candidate, keeps the candidates whose choices follow it, and counts the shards
of those for the same factor beyond it, or stops if it cannot (`Elects`). Which
candidate is the greatest is no question of order, since candidates that are equal
in the order have one choice. So an election on a list has the outcome of the
election on the set of its members, and that has no other (`elects_iff`).

In particular it does not matter in which order tensors vote: it changes the
order in which candidates come up, but neither their votes nor their sizes
(`Projection.toFinset_candidates_of_perm`).
-/

set_option autoImplicit false

namespace MeshSharding

open Std

variable {mesh : Mesh}

instance (choice commitment : FactorAxes) : Decidable (choice.Follows commitment) :=
  inferInstanceAs (Decidable ((_ → _) ∧ (_ → _)))

namespace Candidate

/-! ## The greatest candidate -/

/-- The candidate is in the set, and none in the set is greater. -/
def IsGreatest (pool : Finset Candidate) (winner : Candidate) : Prop :=
  winner ∈ pool ∧ ∀ other ∈ pool, (order other winner).isLE

/-- Two greatest candidates of a set have one choice. -/
theorem IsGreatest.choice_eq {pool : Finset Candidate} {first second : Candidate}
    (isFirst : IsGreatest pool first) (isSecond : IsGreatest pool second) :
    first.choice = second.choice :=
  choice_eq_of_order_eq
    (OrientedCmp.isLE_antisymm (isSecond.2 first isFirst.1) (isFirst.2 second isSecond.1))

theorem isLE_refl (candidate : Candidate) : (order candidate candidate).isLE := by
  have same : order candidate candidate = .eq := ReflCmp.compare_self
  rw [same]
  rfl

theorem isLE_greater_left (first second : Candidate) :
    (order first (greater first second)).isLE := by
  unfold greater
  split
  · rename_i below
    rw [below]
    rfl
  · exact isLE_refl first

theorem isLE_greater_right (first second : Candidate) :
    (order second (greater first second)).isLE := by
  unfold greater
  split
  · exact isLE_refl second
  · rename_i notBelow
    have swapped : order second first = (order first second).swap := OrientedCmp.eq_swap
    rw [swapped]
    cases compared : order first second with
    | lt => exact absurd compared notBelow
    | eq => rfl
    | gt => rfl

theorem isLE_greatest (first : Candidate) (others : List Candidate) :
    ∀ other ∈ first :: others, (order other (greatest first others)).isLE := by
  induction others generalizing first with
  | nil =>
    intro other member
    rw [List.mem_singleton.mp member]
    exact isLE_refl first
  | cons second rest ih =>
    have behind := ih (greater first second)
    have below := behind _ List.mem_cons_self
    intro other member
    rcases List.mem_cons.mp member with rfl | member
    · exact TransCmp.isLE_trans (isLE_greater_left other second) below
    · rcases List.mem_cons.mp member with rfl | later
      · exact TransCmp.isLE_trans (isLE_greater_right first other) below
      · exact behind other (List.mem_cons_of_mem _ later)

theorem isGreatest_greatest (first : Candidate) (others : List Candidate) :
    IsGreatest (first :: others).toFinset (greatest first others) :=
  ⟨List.mem_toFinset.mpr (greatest_mem first others),
    fun other member => isLE_greatest first others other (List.mem_toFinset.mp member)⟩

/-! ## What remains after a commitment -/

/-- The candidate counting, if the commitment is for its factor, the shards beyond it. -/
def beyond (mesh : Mesh) (commitment : FactorAxes) (candidate : Candidate) : Candidate :=
  if candidate.choice.factor = commitment.factor then
    { candidate with
      size := AxisSequence.sizeBeyond mesh candidate.choice.axes commitment.axes }
  else candidate

/-- A candidate stays exactly when its choice follows the commitment. -/
theorem after?_eq (commitment : FactorAxes) (candidate : Candidate) :
    candidate.after? mesh commitment =
      if candidate.choice.Follows commitment then some (candidate.beyond mesh commitment)
      else none := by
  unfold after? beyond FactorAxes.Follows
  by_cases sameFactor : candidate.choice.factor = commitment.factor
  · simp [sameFactor]
  · simp [sameFactor]

end Candidate

/-- A set of candidates after a commitment: those whose choices follow it. -/
def remaining (mesh : Mesh) (commitment : FactorAxes) (pool : Finset Candidate) :
    Finset Candidate :=
  (pool.filter fun candidate => candidate.choice.Follows commitment).image
    (Candidate.beyond mesh commitment)

theorem toFinset_survivors (commitment : FactorAxes) (pool : List Candidate) :
    (survivors mesh commitment pool).toFinset = remaining mesh commitment pool.toFinset := by
  ext candidate
  simp only [survivors, remaining, List.mem_toFinset, List.mem_filterMap, Finset.mem_image,
    Finset.mem_filter, Candidate.after?_eq, Option.ite_none_right_eq_some, Option.some.injEq,
    and_assoc]

/-! ## Elections -/

/-- The outcome of an election on a set of candidates. Without candidates it ends and has committed
nothing. It stops if some size beyond the choice of a greatest candidate is not defined. Otherwise
that choice is committed, and then what an election on the remaining candidates commits. -/
inductive Elects (mesh : Mesh) : Finset Candidate → Option (List FactorAxes) → Prop where
  | nothing : Elects mesh ∅ (some [])
  | stops {pool : Finset Candidate} {winner candidate : Candidate} (wins : winner.IsGreatest pool)
    (member : candidate ∈ pool) (stops : candidate.Stops mesh winner.choice) :
    Elects mesh pool none
  | round {pool : Finset Candidate} {winner : Candidate} {made : Option (List FactorAxes)}
    (wins : winner.IsGreatest pool)
    (measurable : ∀ candidate ∈ pool, ¬ candidate.Stops mesh winner.choice)
    (later : Elects mesh (remaining mesh winner.choice pool) made) :
    Elects mesh pool (made.map (winner.choice :: ·))

/-- An election on a set has one outcome only. -/
theorem Elects.unique {pool : Finset Candidate} {first second : Option (List FactorAxes)}
    (isFirst : Elects mesh pool first) (isSecond : Elects mesh pool second) : first = second := by
  induction isFirst generalizing second with
  | nothing =>
    cases isSecond with
    | nothing => rfl
    | stops wins => exact absurd wins.1 (Finset.notMem_empty _)
    | round wins => exact absurd wins.1 (Finset.notMem_empty _)
  | stops wins member stops =>
    cases isSecond with
    | nothing => exact absurd member (Finset.notMem_empty _)
    | stops => rfl
    | round alsoWins measurable =>
      rw [wins.choice_eq alsoWins] at stops
      exact absurd stops (measurable _ member)
  | round wins measurable later ih =>
    cases isSecond with
    | nothing => exact absurd wins.1 (Finset.notMem_empty _)
    | stops alsoWins member stops =>
      rw [← wins.choice_eq alsoWins] at stops
      exact absurd stops (measurable _ member)
    | round alsoWins alsoMeasurable alsoLater =>
      have sameChoice := wins.choice_eq alsoWins
      rw [← sameChoice] at alsoLater
      rw [← sameChoice, ih alsoLater]

/-- What an election commits, unless it stops. -/
def outcome (mesh : Mesh) (pool : List Candidate) : Option (List FactorAxes) :=
  if ∀ round ∈ rounds mesh pool, round.Measurable mesh then some (commitments mesh pool) else none

theorem outcome_nil : outcome mesh [] = some [] := by
  rw [outcome, rounds, commitments_nil]
  exact if_pos fun _ member => absurd member List.not_mem_nil

theorem outcome_cons (candidate : Candidate) (others : List Candidate) :
    outcome mesh (candidate :: others) =
      if Round.Measurable mesh ⟨candidate :: others, (Candidate.greatest candidate others).choice⟩
      then (outcome mesh (survivors mesh (Candidate.greatest candidate others).choice
        (candidate :: others))).map ((Candidate.greatest candidate others).choice :: ·)
      else none := by
  rw [outcome, rounds, commitments_cons, outcome]
  by_cases measurable : Round.Measurable mesh
      ⟨candidate :: others, (Candidate.greatest candidate others).choice⟩
  · rw [if_pos measurable]
    by_cases later : ∀ round ∈ rounds mesh (survivors mesh
        (Candidate.greatest candidate others).choice (candidate :: others)), round.Measurable mesh
    · rw [if_pos (List.forall_mem_cons.mpr ⟨measurable, later⟩), if_pos later]
      rfl
    · rw [if_neg fun all => later (List.forall_mem_cons.mp all).2, if_neg later]
      rfl
  · rw [if_neg fun all => measurable (List.forall_mem_cons.mp all).1, if_neg measurable]

theorem elects_outcome (pool : List Candidate) :
    Elects mesh pool.toFinset (outcome mesh pool) := by
  induction pool using election_induction mesh with
  | nothing =>
    rw [outcome_nil]
    exact .nothing
  | round candidate others ih =>
    have wins := Candidate.isGreatest_greatest candidate others
    rw [outcome_cons]
    rw [toFinset_survivors] at ih
    split
    · rename_i measurable
      exact .round wins (fun other member => measurable other (List.mem_toFinset.mp member)) ih
    · rename_i fault
      obtain ⟨other, member, stops⟩ : ∃ other ∈ candidate :: others,
          other.Stops mesh (Candidate.greatest candidate others).choice := by
        simpa only [Round.Measurable, not_forall, not_not, exists_prop] using fault
      exact .stops wins (List.mem_toFinset.mpr member) stops

/-- **An election on a list has the outcome of the election on the set of its members.** -/
theorem elects_iff {pool : List Candidate} {made : Option (List FactorAxes)} :
    Elects mesh pool.toFinset made ↔ made = outcome mesh pool := by
  constructor
  · exact fun elects => elects.unique (elects_outcome pool)
  · rintro rfl
    exact elects_outcome pool

/-! ## Tensors in another order -/

/-- The same proposals are made for a factor. -/
theorem proposals_perm {tensors others : List TensorProjection} (sameTensors : tensors.Perm others)
    (factor : Nat) : (proposals tensors factor).Perm (proposals others factor) := by
  refine (List.perm_ext_iff_of_nodup (nodup_eraseDups _) (nodup_eraseDups _)).mpr fun axes => ?_
  rw [List.mem_eraseDups, List.mem_eraseDups]
  exact (sameTensors.flatMap_right _).mem_iff

theorem proposalTable_perm {tensors others : List TensorProjection}
    (sameTensors : tensors.Perm others) (factorCount factor : Nat) :
    ((proposalTable tensors factorCount)[factor]?.getD []).Perm
      ((proposalTable others factorCount)[factor]?.getD []) := by
  simp only [proposalTable, List.getElem?_map]
  cases (List.range factorCount)[factor]? with
  | none => exact .nil
  | some own => exact proposals_perm sameTensors own

theorem votesFor_perm {proposed others : List AxisSequence} (sameProposals : proposed.Perm others)
    (factor : Nat) (axes : AxisSequence) :
    (votesFor proposed factor axes).Perm (votesFor others factor axes) := by
  unfold votesFor
  split
  · exact .nil
  · exact ((sameProposals.filter _).map _).cons _

namespace Projection

variable {projection other : Projection} {factorCount : Nat}

/-- Tensors in another order cast the same votes. -/
theorem ballots_perm (sameTensors : other.tensors.Perm projection.tensors) :
    (other.ballots factorCount).Perm (projection.ballots factorCount) := by
  refine sameTensors.flatMap fun tensor _ => ?_
  exact List.Perm.flatMap_left _ fun entry _ =>
    votesFor_perm (proposalTable_perm sameTensors factorCount entry.1) entry.1 entry.2.axes

/-- **Tensors in another order bring up the same candidates.** -/
theorem toFinset_candidates_of_perm (sameTensors : other.tensors.Perm projection.tensors) :
    (other.candidates mesh factorCount).toFinset =
      (projection.candidates mesh factorCount).toFinset := by
  have sameBallots : (other.ballots factorCount).Perm (projection.ballots factorCount) :=
    ballots_perm sameTensors
  ext candidate
  simp only [candidates, candidatesOf, List.mem_toFinset, List.mem_map, List.mem_eraseDups,
    sameBallots.mem_iff, sameBallots.count_eq]

/-- An election among tensors in another order has the same outcome. -/
theorem outcome_of_perm (sameTensors : other.tensors.Perm projection.tensors) :
    outcome mesh (other.candidates mesh factorCount) =
      outcome mesh (projection.candidates mesh factorCount) := by
  apply elects_iff.mp
  rw [← toFinset_candidates_of_perm sameTensors]
  exact elects_outcome _

/-- Among tensors whose references have shards an election goes through exactly if its outcome is not
that it stops. -/
theorem HasShards.electable_iff (hasShards : projection.HasShards) :
    projection.Electable mesh factorCount ↔
      (outcome mesh (projection.candidates mesh factorCount)).isSome := by
  rw [Electable, and_iff_right hasShards.comparable, outcome]
  split
  · rename_i measurable
    exact iff_of_true measurable rfl
  · rename_i fault
    exact iff_of_false fault Bool.false_ne_true

end Projection

end MeshSharding
