import MeshSharding.Proofs.Vote.Commitments

/-!
# Elections among tensors that agree

An election settles disagreements. Where the tensors agree on a factor there is
nothing to settle, and the factor should end with the axes that the tensors
have. It does if no tensor uses any of these axes for another factor. The axes
then follow every other candidate: whatever begins them is extended by them, and
what wins for other factors is apart from them. So no commitment removes them
from the pool, whichever wins first and whatever is in dispute elsewhere, and
nothing is committed for the factor after them
(`Projection.election_keeps_uncontested`).

If the tensors agree on every factor, the axes of different factors do not
overlap within one tensor, but that is all that is known. So any two factors
have to meet in some tensor (`Projection.agreesOn_lastCommitted`).
-/

set_option autoImplicit false

namespace MeshSharding

variable {mesh : Mesh}

namespace AxisSequence

/-- What begins a sequence and differs from it is a strict prefix. -/
theorem isStrictPrefixOf_of_isPrefix {shorter axes : AxisSequence} (begins : shorter <+: axes)
    (differ : shorter ≠ axes) : IsStrictPrefixOf shorter axes := by
  induction shorter generalizing axes with
  | nil => exact differ.symm
  | cons reference rest ih =>
    cases axes with
    | nil => exact absurd (List.prefix_nil.mp begins) (List.cons_ne_nil _ _)
    | cons other others =>
      obtain ⟨rfl, restBegins⟩ := List.cons_prefix_cons.mp begins
      have restDiffer : rest ≠ others := fun same => differ (by rw [same])
      cases rest with
      | nil => exact ⟨AxisRef.IsPrefixOf.refl reference, fun empty => absurd empty.symm restDiffer⟩
      | cons next rest => exact ⟨rfl, ih restBegins restDiffer⟩

theorem IsStrictPrefixOf.length_le {shorter axes : AxisSequence}
    (isStrict : IsStrictPrefixOf shorter axes) : shorter.length ≤ axes.length := by
  induction shorter generalizing axes with
  | nil => exact Nat.zero_le _
  | cons reference rest ih =>
    cases axes with
    | nil => cases rest <;> exact isStrict.elim
    | cons other others =>
      cases rest with
      | nil => exact Nat.succ_le_succ (Nat.zero_le _)
      | cons next rest => exact Nat.succ_le_succ (ih isStrict.2)

/-- A sequence is no strict prefix of what begins it. -/
theorem not_isStrictPrefixOf_of_isPrefix {shorter axes : AxisSequence}
    (begins : shorter <+: axes) : ¬ IsStrictPrefixOf axes shorter := by
  intro isStrict
  rw [begins.eq_of_length_le isStrict.length_le] at isStrict
  exact IsStrictPrefixOf.irrefl axes isStrict

end AxisSequence

/-! ## Choices that follow all others -/

/-- A candidate whose choice follows a commitment stays in the pool. -/
theorem Candidate.exists_after? (mesh : Mesh) {commitment : FactorAxes} {candidate : Candidate}
    (follows : candidate.choice.Follows commitment) :
    ∃ survivor, candidate.after? mesh commitment = some survivor ∧
      survivor.choice = candidate.choice := by
  obtain ⟨extended, apart⟩ := follows
  unfold Candidate.after?
  by_cases sameFactor : candidate.choice.factor = commitment.factor
  · rw [if_pos sameFactor, if_pos (extended sameFactor)]
    exact ⟨_, rfl, rfl⟩
  · rw [if_neg sameFactor, if_neg (apart sameFactor)]
    exact ⟨_, rfl, rfl⟩

/-- A choice that follows all other choices of the pool is made. -/
theorem mem_commitments_of_follows {pool : List Candidate} {candidate : Candidate}
    (member : candidate ∈ pool)
    (follows : ∀ other ∈ pool,
      other.choice = candidate.choice ∨ candidate.choice.Follows other.choice) :
    candidate.choice ∈ commitments mesh pool := by
  induction pool using election_induction mesh generalizing candidate with
  | nothing => exact absurd member List.not_mem_nil
  | round first others ih =>
    rw [commitments_cons, List.mem_cons]
    rcases follows _ (Candidate.greatest_mem first others) with wins | followsWinner
    · exact .inl wins.symm
    · obtain ⟨survivor, stays, sameChoice⟩ := Candidate.exists_after? mesh followsWinner
      rw [← sameChoice] at follows ⊢
      refine .inr (ih (List.mem_filterMap.mpr ⟨candidate, member, stays⟩) fun other isOther => ?_)
      obtain ⟨earlier, inPool, isEarlier⟩ := (mem_survivors isOther).1
      rw [← isEarlier]
      exact follows earlier inPool

/-- A choice that none extends is what its factor is left with. -/
theorem lastCommitted_eq_of_mem {made : List FactorAxes}
    (ordered : made.Pairwise fun earlier later => later.Follows earlier) {choice : FactorAxes}
    (isMade : choice ∈ made)
    (greatest : ∀ other ∈ made, other.factor = choice.factor →
      ¬ AxisSequence.IsStrictPrefixOf choice.axes other.axes) :
    lastCommitted made choice.factor = choice.axes := by
  obtain ⟨before, after, rfl⟩ := List.append_of_mem isMade
  have isLast : (after.filter fun other => other.factor == choice.factor) = [] := by
    refine List.filter_eq_nil_iff.mpr fun other isAfter isFactor => ?_
    have sameFactor : other.factor = choice.factor := beq_iff_eq.mp isFactor
    have follows : other.Follows choice :=
      (List.pairwise_cons.mp (List.pairwise_append.mp ordered).2.1).1 other isAfter
    exact greatest other (List.mem_append_right _ (List.mem_cons_of_mem _ isAfter)) sameFactor
      (follows.1 sameFactor)
  rw [lastCommitted, List.filter_append, List.filter_cons, beq_self_eq_true, if_pos rfl, isLast,
    List.getLast?_append, List.getLast?_singleton]
  rfl

/-! ## Tensors that agree on a factor -/

namespace TensorProjection

/-- The axes of different factors do not overlap. -/
def KeepsApart (tensor : TensorProjection) : Prop :=
  ∀ first second, first ≠ second →
    ¬ AxisSequence.Overlaps (tensor.axesOf first) (tensor.axesOf second)

end TensorProjection

namespace Projection

variable {projection : Projection} {factorCount : Nat}

/-- Any two factors below a count are mapped by one tensor. -/
def FactorsMeet (factorCount : Nat) (projection : Projection) : Prop :=
  ∀ first < factorCount, ∀ second < factorCount, ∃ tensor ∈ projection.tensors,
    (tensor.factor? first).isSome ∧ (tensor.factor? second).isSome

/-- Some tensor maps the factor, and all that do shard it along the given axes. -/
def AgreesOn (projection : Projection) (factor : Nat) (axes : AxisSequence) : Prop :=
  (∃ tensor ∈ projection.tensors, (tensor.factor? factor).isSome) ∧
    ∀ tensor ∈ projection.tensors, ∀ sharding,
      tensor.factor? factor = some sharding → sharding.axes = axes

/-- Tensors that are consistent agree on every factor that one of them maps. -/
theorem IsConsistent.agreesOn (consistent : projection.IsConsistent) {tensor : TensorProjection}
    (member : tensor ∈ projection.tensors) {factor : Nat} {sharding : FactorSharding}
    (found : tensor.factor? factor = some sharding) :
    projection.AgreesOn factor sharding.axes := by
  refine ⟨⟨tensor, member, Option.isSome_of_eq_some found⟩, ?_⟩
  intro other isOther otherSharding otherFound
  exact consistent other isOther tensor member _ (TensorProjection.mem_entries_iff.mpr otherFound) _
    (TensorProjection.mem_entries_iff.mpr found) rfl

/-- A tensor that shards a factor votes for the axes along which it does. -/
theorem mem_ballots_of_factor? {tensor : TensorProjection} (member : tensor ∈ projection.tensors)
    {factor : Nat} {sharding : FactorSharding} (found : tensor.factor? factor = some sharding)
    (sharded : sharding.axes ≠ []) :
    ⟨factor, sharding.axes⟩ ∈ projection.ballots factorCount := by
  refine List.mem_flatMap.mpr ⟨tensor, member, List.mem_flatMap.mpr
    ⟨(factor, sharding), TensorProjection.mem_entries_iff.mpr found, ?_⟩⟩
  rw [votesFor, if_neg sharded]
  exact List.mem_cons_self

/-- What has a vote is the choice of a candidate. -/
theorem exists_candidate (mesh : Mesh) {choice : FactorAxes}
    (member : choice ∈ projection.ballots factorCount) :
    ∃ candidate ∈ projection.candidates mesh factorCount, candidate.choice = choice :=
  ⟨_, List.mem_map_of_mem (List.mem_eraseDups.mpr member), rfl⟩

/-- Only axes that begin those on which the tensors agree get votes. -/
theorem AgreesOn.begins {choice : FactorAxes} {axes : AxisSequence}
    (agrees : projection.AgreesOn choice.factor axes)
    (member : choice ∈ projection.ballots factorCount) :
    choice.axes ≠ [] ∧ choice.axes <+: axes := by
  obtain ⟨sharded, tensor, isTensor, begins⟩ := mem_ballots member
  refine ⟨sharded, ?_⟩
  obtain ⟨sharding, found, isAxes⟩ := exists_factor?_of_axesOf (begins.ne_nil sharded)
  rw [isAxes, agrees.2 tensor isTensor sharding found] at begins
  exact begins

/-! ## Factors that are not in dispute -/

/-- No tensor has axes for another factor that overlap the given ones. -/
def Uncontested (projection : Projection) (factor : Nat) (axes : AxisSequence) : Prop :=
  ∀ tensor ∈ projection.tensors, ∀ entry ∈ tensor.entries,
    entry.1 ≠ factor → ¬ AxisSequence.Overlaps axes entry.2.axes

instance (factor : Nat) (axes : AxisSequence) :
    Decidable (projection.Uncontested factor axes) :=
  inferInstanceAs (Decidable (∀ tensor ∈ projection.tensors, ∀ entry ∈ tensor.entries, _ → ¬ _))

section Uncontested

variable {factor : Nat} {axes : AxisSequence} (agrees : projection.AgreesOn factor axes)
  (uncontested : projection.Uncontested factor axes)
include agrees uncontested

/-- The axes on which the tensors agree for a factor follow all other axes that get votes. -/
theorem AgreesOn.eq_or_follows {choice : FactorAxes}
    (isBallot : choice ∈ projection.ballots factorCount) :
    choice = ⟨factor, axes⟩ ∨ (⟨factor, axes⟩ : FactorAxes).Follows choice := by
  by_cases sameFactor : choice.factor = factor
  · subst sameFactor
    have begins := (agrees.begins isBallot).2
    by_cases sameAxes : choice.axes = axes
    · exact .inl (congrArg (FactorAxes.mk choice.factor) sameAxes)
    · exact .inr ⟨fun _ => AxisSequence.isStrictPrefixOf_of_isPrefix begins sameAxes,
        fun differ => absurd rfl differ⟩
  · refine .inr ⟨fun same => absurd same.symm sameFactor, fun _ overlap => ?_⟩
    -- what gets votes begins the axes that some tensor has for the other factor
    obtain ⟨sharded, tensor, isTensor, begins⟩ := mem_ballots isBallot
    obtain ⟨sharding, found, isAxes⟩ := exists_factor?_of_axesOf (begins.ne_nil sharded)
    rw [isAxes] at begins
    obtain ⟨reference, isReference, overlaps⟩ := overlap
    exact uncontested tensor isTensor _ (TensorProjection.mem_entries_iff.mpr found) sameFactor
      ⟨reference, begins.subset isReference, overlaps⟩

/-- The axes on which the tensors agree for a factor are what an election leaves it with. -/
theorem AgreesOn.lastCommitted_eq :
    lastCommitted (projection.commitments mesh factorCount) factor = axes := by
  have committedBegins : ∀ choice ∈ projection.commitments mesh factorCount,
      choice.factor = factor → choice.axes ≠ [] ∧ choice.axes <+: axes := by
    rintro choice isMade rfl
    obtain ⟨candidate, isCandidate, rfl⟩ := mem_commitments isMade
    exact agrees.begins (mem_candidates isCandidate)
  by_cases unsharded : axes = []
  · rcases lastCommitted_cases (projection.commitments mesh factorCount) factor with
      nothing | isMade
    · rw [nothing, unsharded]
    · obtain ⟨sharded, begins⟩ := committedBegins _ isMade rfl
      rw [unsharded] at begins
      exact absurd (List.prefix_nil.mp begins) sharded
  · obtain ⟨tensor, isTensor, isMapped⟩ := agrees.1
    obtain ⟨sharding, found⟩ := Option.isSome_iff_exists.mp isMapped
    have isAxes := agrees.2 tensor isTensor sharding found
    have isBallot : ⟨factor, axes⟩ ∈ projection.ballots factorCount := by
      rw [← isAxes] at unsharded ⊢
      exact mem_ballots_of_factor? isTensor found unsharded
    obtain ⟨candidate, isCandidate, isChoice⟩ := exists_candidate mesh isBallot
    have isMade : candidate.choice ∈ projection.commitments mesh factorCount := by
      refine mem_commitments_of_follows isCandidate fun other isOther => ?_
      rw [isChoice]
      exact agrees.eq_or_follows uncontested (mem_candidates isOther)
    rw [isChoice] at isMade
    exact lastCommitted_eq_of_mem (commitments_pairwise _) isMade fun other isOther sameFactor =>
      AxisSequence.not_isStrictPrefixOf_of_isPrefix (committedBegins other isOther sameFactor).2

end Uncontested

/-- **A factor that is not in dispute keeps its axes.** In an election among tensors whose
references have shards, if all tensors that map a factor have the same axes for it, and no tensor
has axes for another factor that overlap these, then the factor is left with exactly these axes,
whatever is in dispute between the other factors. A factor that no tensor maps is left without
axes. The election goes through if the numbers of the tensors fit into a word. -/
theorem election_keeps_uncontested (mesh : Mesh) (factorCount : Nat) (projection : Projection)
    (hasShards : projection.HasShards) (below : projection.FactorsBelow factorCount) :
    (projection.WithinWord mesh → projection.Electable mesh factorCount) ∧
      ∀ factor,
        (∀ axes, projection.AgreesOn factor axes → projection.Uncontested factor axes →
          (projection.agreedAxes mesh factorCount)[factor]? = some axes) ∧
        (factor < factorCount → (∀ tensor ∈ projection.tensors, tensor.factor? factor = none) →
          (projection.agreedAxes mesh factorCount)[factor]? = some []) := by
  refine ⟨fun within => within.electable hasShards,
    fun factor => ⟨fun axes agrees uncontested => ?_, ?_⟩⟩
  · obtain ⟨tensor, isTensor, isMapped⟩ := agrees.1
    obtain ⟨sharding, found⟩ := Option.isSome_iff_exists.mp isMapped
    have isFactor := below tensor isTensor _ (TensorProjection.mem_entries_iff.mpr found)
    rw [agreedAxes_getElem? isFactor, agrees.lastCommitted_eq uncontested]
  · intro isFactor unmapped
    rw [agreedAxes_getElem? isFactor, Option.some.injEq]
    rcases lastCommitted_prefix factor with nothing | ⟨tensor, isTensor, begins⟩
    · exact nothing
    · rw [TensorProjection.axesOf, unmapped tensor isTensor] at begins
      exact List.prefix_nil.mp begins

/-- A store with shelves along an aisle, and a depth of one. -/
def storeMesh : Mesh where
  axes := [⟨"aisle", 16, by decide, by decide, by decide⟩,
    ⟨"shelf", 18, by decide, by decide, by decide⟩,
    ⟨"depth", 1, by decide, Nat.one_pos, by decide⟩]
  names_nodup := by decide

/-- Two tensors have the aisle and the depth for their first factor. All three have something of the
shelves for their other factors. -/
def storeProjection : Projection where
  operands :=
    [⟨[some ⟨[.whole "aisle", .whole "depth"], [], true, true⟩,
        some ⟨[.whole "shelf"], [], true, true⟩, none], []⟩,
      ⟨[some ⟨[.whole "aisle", .whole "depth"], [], true, true⟩, none,
        some ⟨[.part "shelf" 1 9], [], true, true⟩], []⟩]
  results :=
    [⟨[none, some ⟨[.part "shelf" 1 3], [], true, true⟩,
      some ⟨[.whole "shelf"], [], true, true⟩], []⟩]

/-- The shelves are in dispute. The aisle alone has as many votes and as many shards as the aisle
with the depth, and the first factor is left with both. -/
theorem store_keeps_aisle :
    (∃ candidate ∈ storeProjection.candidates storeMesh 3,
        candidate.choice = ⟨0, [.whole "aisle"]⟩ ∧ candidate.votes = 2 ∧ candidate.size = 16) ∧
      (∃ candidate ∈ storeProjection.candidates storeMesh 3,
        candidate.choice = ⟨0, [.whole "aisle", .whole "depth"]⟩ ∧ candidate.votes = 2 ∧
          candidate.size = 16) ∧
      ¬ storeProjection.IsConsistent ∧ storeProjection.Electable storeMesh 3 ∧
      (storeProjection.agreedAxes storeMesh 3)[0]? = some [.whole "aisle", .whole "depth"] := by
  have agrees : storeProjection.AgreesOn 0 [.whole "aisle", .whole "depth"] := by
    refine ⟨by decide, fun tensor isTensor sharding found => ?_⟩
    have alike : ∀ tensor ∈ storeProjection.tensors, ∀ entry ∈ tensor.entries, entry.1 = 0 →
        entry.2.axes = [.whole "aisle", .whole "depth"] := by decide
    exact alike tensor isTensor _ (TensorProjection.mem_entries_iff.mpr found) rfl
  obtain ⟨goesThrough, keeps⟩ := election_keeps_uncontested storeMesh 3 storeProjection
    (by decide +kernel) (by decide +kernel)
  exact ⟨by decide +kernel, by decide +kernel, by decide +kernel, goesThrough (by decide +kernel),
    (keeps 0).1 _ agrees (by decide +kernel)⟩

/-- Nobody disputes the garden, but the election stops over the towers before it comes to it. -/
theorem garden_not_reached :
    campusProjection.HasShards ∧ campusProjection.FactorsBelow 2 ∧
      campusProjection.AgreesOn 1 [.whole "garden"] ∧
      campusProjection.Uncontested 1 [.whole "garden"] ∧
      ¬ campusProjection.Electable campusMesh 2 := by
  refine ⟨by decide, by decide, ⟨by decide, fun tensor isTensor sharding found => ?_⟩, by decide,
    by decide +kernel⟩
  have alike : ∀ tensor ∈ campusProjection.tensors, ∀ entry ∈ tensor.entries, entry.1 = 1 →
      entry.2.axes = [.whole "garden"] := by decide
  exact alike tensor isTensor _ (TensorProjection.mem_entries_iff.mpr found) rfl

/-! ## Tensors that agree on every factor -/

section Agreement

variable (consistent : projection.IsConsistent)
  (apart : ∀ tensor ∈ projection.tensors, tensor.KeepsApart)
  (meet : projection.FactorsMeet factorCount) (below : projection.FactorsBelow factorCount)
  {factor : Nat} (isFactor : factor < factorCount)
include consistent apart meet below isFactor

/-- No factor is in dispute, since the tensor in which it meets another keeps the two apart. -/
theorem AgreesOn.uncontested {axes : AxisSequence} (agrees : projection.AgreesOn factor axes) :
    projection.Uncontested factor axes := by
  rintro other isOther ⟨otherFactor, otherSharding⟩ isEntry differ
  obtain ⟨tensor, isTensor, mapsFactor, mapsOther⟩ :=
    meet factor isFactor otherFactor (below other isOther _ isEntry)
  obtain ⟨own, isOwn⟩ := Option.isSome_iff_exists.mp mapsFactor
  obtain ⟨sharding, found⟩ := Option.isSome_iff_exists.mp mapsOther
  have disjoint := apart tensor isTensor factor otherFactor (Ne.symm differ)
  rw [axesOf_eq isOwn, agrees.2 tensor isTensor own isOwn, axesOf_eq found] at disjoint
  rwa [(consistent.agreesOn isTensor found).2 other isOther otherSharding
    (TensorProjection.mem_entries_iff.mp isEntry)]

/-- **Tensors that agree on every factor agree on the axes that an election leaves it with,** if
they keep the axes of different factors apart and any two factors meet. -/
theorem agreesOn_lastCommitted :
    projection.AgreesOn factor
      (lastCommitted (projection.commitments mesh factorCount) factor) := by
  obtain ⟨tensor, isTensor, isMapped, -⟩ := meet factor isFactor factor isFactor
  obtain ⟨sharding, found⟩ := Option.isSome_iff_exists.mp isMapped
  have agrees := consistent.agreesOn isTensor found
  rwa [agrees.lastCommitted_eq (agrees.uncontested consistent apart meet below isFactor)]

end Agreement

/-- Two tensors that have no factor in common, both sharded along the whole axis. -/
def strangersProjection : Projection where
  operands :=
    [⟨[some ⟨[.whole "line"], [], false, true⟩, none], []⟩,
      ⟨[none, some ⟨[.whole "line"], [], false, true⟩], []⟩]
  results := []

/-- They agree on both factors, but the election gives the axis to one of them only. -/
example : strangersProjection.IsConsistent ∧
    strangersProjection.agreedAxes lineMesh 2 = [[], [.whole "line"]] := by decide +kernel

end Projection

end MeshSharding
