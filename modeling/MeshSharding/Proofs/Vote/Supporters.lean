import MeshSharding.Proofs.Axis.StrictPrefix
import MeshSharding.Proofs.Vote.Reference

/-!
# Candidates and their supporters

Votes are counted in two passes over the tensors. The first pass collects what
is proposed for each factor. The second one registers the votes of a tensor one
by one: the first vote for a choice makes a candidate, and every further one is
added to it. The candidates that come out are those of the ballots, in the same
order (`Projection.registeredCandidates_eq`).

A tensor supports a choice when it shards the factor along these axes or along
axes that extend them. It has one vote for each choice, for its own axes or for
a proposal that they extend, and all proposals have been collected before the
first vote. So a candidate has the votes of exactly the tensors that support it,
whichever of them brought it up (`Projection.candidates_counted`). Its size is
computed in machine words.
-/

set_option autoImplicit false

namespace MeshSharding

variable {mesh : Mesh}

/-! ## Support -/

/-- The axes are those of the choice or extend them. -/
def FactorAxes.ReachedBy (choice : FactorAxes) (axes : AxisSequence) : Prop :=
  choice.axes = axes ∨ AxisSequence.IsStrictPrefixOf choice.axes axes

instance (choice : FactorAxes) (axes : AxisSequence) : Decidable (choice.ReachedBy axes) :=
  inferInstanceAs (Decidable (_ ∨ _))

/-- What extends axes that reach a choice reaches it too. -/
theorem FactorAxes.ReachedBy.trans {choice : FactorAxes} {axes longer : AxisSequence}
    (reached : choice.ReachedBy axes)
    (extended : axes = longer ∨ AxisSequence.IsStrictPrefixOf axes longer) :
    choice.ReachedBy longer := by
  rcases reached with same | shorter
  · rw [ReachedBy, same]
    exact extended
  · rcases extended with rfl | further
    · exact .inr shorter
    · exact .inr (shorter.trans further)

namespace TensorProjection

variable {tensor : TensorProjection} {factor : Nat} {choice : FactorAxes}

/-- The tensor maps the factor of the choice, and its axes for it reach the choice. -/
def Supports (tensor : TensorProjection) (choice : FactorAxes) : Prop :=
  ∃ sharding ∈ tensor.factor? choice.factor, choice.ReachedBy sharding.axes

instance (tensor : TensorProjection) (choice : FactorAxes) : Decidable (tensor.Supports choice) :=
  inferInstanceAs (Decidable (∃ sharding ∈ tensor.factor? choice.factor, _))

/-- A choice with axes is supported by the tensors whose axes for the factor reach it; those of a
factor that the tensor does not map reach nothing. -/
theorem supports_iff (sharded : choice.axes ≠ []) :
    tensor.Supports choice ↔ choice.ReachedBy (tensor.axesOf choice.factor) := by
  unfold Supports axesOf
  cases tensor.factor? choice.factor with
  | none =>
    refine ⟨fun ⟨_, found, _⟩ => absurd found (by simp), ?_⟩
    rintro (unsharded | shorter)
    · exact absurd unsharded sharded
    · exact absurd rfl shorter.ne_nil
  | some sharding => simp

/-! ## Entries -/

/-- The only entry of a factor is what is found for it. -/
theorem filter_entries (tensor : TensorProjection) (factor : Nat) :
    (tensor.entries.filter fun entry => entry.1 == factor) =
      (tensor.factor? factor).toList.map fun sharding => (factor, sharding) := by
  have distinct := (List.Nodup.of_map _ tensor.entries_factors_nodup).filter
    fun entry => entry.1 == factor
  cases found : tensor.factor? factor with
  | none =>
    refine List.filter_eq_nil_iff.mpr fun ⟨own, sharding⟩ isEntry same => ?_
    have isFactor : own = factor := beq_iff_eq.mp same
    rw [mem_entries_iff, isFactor, found] at isEntry
    cases isEntry
  | some sharding =>
    refine List.perm_singleton.mp ?_
    refine (List.perm_ext_iff_of_nodup distinct (List.nodup_singleton _)).mpr fun ⟨own, other⟩ => ?_
    rw [List.mem_filter, List.mem_singleton, mem_entries_iff, beq_iff_eq, Prod.mk.injEq]
    constructor
    · rintro ⟨isFound, rfl⟩
      exact ⟨rfl, Option.some.inj (isFound.symm.trans found)⟩
    · rintro ⟨rfl, rfl⟩
      exact ⟨found, rfl⟩

end TensorProjection

/-! ## Collecting proposals -/

/-- The proposals with one more, unless it is among them. -/
def withProposal (proposed : List AxisSequence) (axes : AxisSequence) : List AxisSequence :=
  if axes ∈ proposed then proposed else proposed ++ [axes]

/-- The proposals for all factors after those of a tensor. -/
def collected (table : List (List AxisSequence)) (tensor : TensorProjection) :
    List (List AxisSequence) :=
  tensor.entries.foldl (fun table entry =>
    table.modify entry.1 fun proposed =>
      (descendingPrefixes entry.2.axes).foldl withProposal proposed) table

theorem foldl_withProposal (sequences : List AxisSequence) :
    sequences.foldl withProposal [] = sequences.eraseDups := by
  induction sequences using List.reverseRecOn with
  | nil => rfl
  | append_singleton earlier last ih =>
    rw [List.foldl_concat, ih, eraseDups_concat, withProposal]
    simp only [List.mem_eraseDups]

/-- A tensor adds to the proposals for a factor what begins its axes for it. -/
theorem getElem?_collected (table : List (List AxisSequence)) (tensor : TensorProjection)
    (factor : Nat) : (collected table tensor)[factor]? = table[factor]?.map fun proposed =>
      (descendingPrefixes (tensor.axesOf factor)).foldl withProposal proposed := by
  have each (entries : List (Nat × FactorSharding)) (table : List (List AxisSequence)) :
      (entries.foldl (fun table entry => table.modify entry.1 fun proposed =>
        (descendingPrefixes entry.2.axes).foldl withProposal proposed) table)[factor]? =
      table[factor]?.map fun proposed => (entries.filter fun entry => entry.1 == factor).foldl
        (fun proposed entry => (descendingPrefixes entry.2.axes).foldl withProposal proposed)
          proposed := by
    induction entries generalizing table with
    | nil => simp
    | cons entry rest ih =>
      rw [List.foldl_cons, ih, List.getElem?_modify]
      cases table[factor]? with
      | none => rfl
      | some proposed => by_cases same : entry.1 = factor <;> simp [same]
  rw [collected, each, tensor.filter_entries, TensorProjection.axesOf]
  cases tensor.factor? factor <;> rfl

/-- The first pass collects the proposals for each factor. -/
theorem foldl_collected (tensors : List TensorProjection) (factorCount : Nat) :
    tensors.foldl collected (List.replicate factorCount []) =
      proposalTable tensors factorCount := by
  have each (factor : Nat) (table : List (List AxisSequence)) :
      (tensors.foldl collected table)[factor]? = table[factor]?.map fun proposed =>
        (tensors.flatMap fun tensor => descendingPrefixes (tensor.axesOf factor)).foldl
          withProposal proposed := by
    induction tensors generalizing table with
    | nil => simp
    | cons tensor rest ih =>
      rw [List.foldl_cons, ih, getElem?_collected, Option.map_map]
      simp only [Function.comp_def, List.flatMap_cons, List.foldl_append]
  refine List.ext_getElem? fun factor => ?_
  rw [each, proposalTable, List.getElem?_map, List.getElem?_replicate]
  by_cases below : factor < factorCount
  · rw [if_pos below, List.getElem?_range below, Option.map_some, Option.map_some, proposals,
      foldl_withProposal]
  · rw [if_neg below, List.getElem?_eq_none (by rw [List.length_range]; omega)]
    rfl

/-! ## Registering votes -/

/-- The candidates after one more vote, which counts for the candidate of its choice or makes a new
one. -/
def registered (mesh : Mesh) (choice : FactorAxes) : List Candidate → List Candidate
  | [] => [⟨choice, 1, AxisSequence.size mesh choice.axes⟩]
  | candidate :: rest =>
    if candidate.choice = choice then { candidate with votes := candidate.votes + 1 } :: rest
    else candidate :: registered mesh choice rest

/-- The candidates after the votes of a tensor. -/
def withVotes (mesh : Mesh) (table : List (List AxisSequence)) (pool : List Candidate)
    (tensor : TensorProjection) : List Candidate :=
  tensor.entries.foldl (fun pool entry =>
    (votesFor (table[entry.1]?.getD []) entry.1 entry.2.axes).foldl
      (fun pool choice => registered mesh choice pool) pool) pool

/-- The candidates that two passes over the tensors make. -/
def Projection.registeredCandidates (mesh : Mesh) (factorCount : Nat) (projection : Projection) :
    List Candidate :=
  let table := projection.tensors.foldl collected (List.replicate factorCount [])
  projection.tensors.foldl (withVotes mesh table) []

/-- Registering a vote among candidates with different choices. -/
theorem registered_map (choice : FactorAxes) {choices : List FactorAxes} (distinct : choices.Nodup)
    (votes : FactorAxes → Nat) :
    registered mesh choice
        (choices.map fun own => ⟨own, votes own, AxisSequence.size mesh own.axes⟩) =
      (choices.map fun own => ⟨own, votes own + if choice = own then 1 else 0,
        AxisSequence.size mesh own.axes⟩) ++
      if choice ∈ choices then [] else [⟨choice, 1, AxisSequence.size mesh choice.axes⟩] := by
  induction choices with
  | nil => rfl
  | cons first rest ih =>
    obtain ⟨absent, restDistinct⟩ := List.nodup_cons.mp distinct
    rw [List.map_cons, registered]
    by_cases same : choice = first
    · subst same
      have untouched : ∀ own ∈ rest, choice ≠ own := fun own member equal =>
        absent (equal ▸ member)
      simp only [if_true, List.mem_cons_self, List.append_nil, List.map_cons]
      congr 1
      refine List.map_congr_left fun own member => ?_
      rw [if_neg (untouched own member), Nat.add_zero]
    · rw [if_neg (Ne.symm same), ih restDistinct]
      simp [same]

/-- Registering votes one by one makes the candidates that have them. -/
theorem foldl_registered (mesh : Mesh) (ballots : List FactorAxes) :
    ballots.foldl (fun pool choice => registered mesh choice pool) [] =
      candidatesOf mesh ballots := by
  induction ballots using List.reverseRecOn with
  | nil => rfl
  | append_singleton earlier last ih =>
    rw [List.foldl_concat, ih, candidatesOf, registered_map last (nodup_eraseDups _), candidatesOf,
      eraseDups_concat]
    simp only [List.mem_eraseDups, List.count_append, List.count_singleton, beq_iff_eq]
    by_cases known : last ∈ earlier
    · simp only [known, if_true, List.append_nil]
    · have unvoted : earlier.count last = 0 := List.count_eq_zero.mpr known
      simp only [known, if_false, List.map_append, List.map_cons, List.map_nil, unvoted, if_true]

/-- **Two passes over the tensors make the candidates of the ballots, in the same order.** -/
theorem Projection.registeredCandidates_eq (mesh : Mesh) (factorCount : Nat)
    (projection : Projection) : projection.registeredCandidates mesh factorCount =
      projection.candidates mesh factorCount := by
  rw [registeredCandidates, candidates, ballots, ← foldl_registered, foldl_collected,
    List.foldl_flatMap]
  congr 1
  funext pool tensor
  rw [withVotes, TensorProjection.votes, List.foldl_flatMap]

/-! ## Counting votes -/

section Votes

variable {proposed : List AxisSequence} {factor : Nat} {axes : AxisSequence} {choice : FactorAxes}

theorem mem_votesFor_iff (sharded : choice.axes ≠ []) (isProposed : choice.axes ∈ proposed) :
    choice ∈ votesFor proposed choice.factor axes ↔ choice.ReachedBy axes := by
  unfold votesFor FactorAxes.ReachedBy
  by_cases unsharded : axes = []
  · rw [if_pos unsharded]
    refine ⟨fun isVote => absurd isVote List.not_mem_nil, ?_⟩
    rintro (same | shorter)
    · exact absurd (same.trans unsharded) sharded
    · exact absurd unsharded shorter.ne_nil
  · cases choice
    simp_all

/-- Votes for one factor are for different axes. -/
theorem votesFor_nodup (distinct : proposed.Nodup) (factor : Nat) (axes : AxisSequence) :
    (votesFor proposed factor axes).Nodup := by
  unfold votesFor
  split
  · exact List.nodup_nil
  · refine List.nodup_cons.mpr ⟨?_, (distinct.filter _).map fun first second same => ?_⟩
    · intro isShorter
      obtain ⟨shorter, isProposed, same⟩ := List.mem_map.mp isShorter
      cases same
      exact AxisSequence.IsStrictPrefixOf.irrefl _
        (of_decide_eq_true (List.mem_filter.mp isProposed).2)
    · cases same
      rfl

theorem factor_of_mem_votesFor {vote : FactorAxes} (isVote : vote ∈ votesFor proposed factor axes) :
    vote.factor = factor := by
  unfold votesFor at isVote
  split at isVote
  · exact absurd isVote List.not_mem_nil
  · rcases List.mem_cons.mp isVote with rfl | isShorter
    · rfl
    · obtain ⟨shorter, -, rfl⟩ := List.mem_map.mp isShorter
      rfl

/-- The votes of a tensor for a factor are those that its axes for it cast. -/
theorem filter_votes (table : List (List AxisSequence)) (tensor : TensorProjection)
    (factor : Nat) : ((tensor.votes table).filter fun vote => vote.factor == factor) =
      votesFor (table[factor]?.getD []) factor (tensor.axesOf factor) := by
  have byEntry (entries : List (Nat × FactorSharding)) :
      ((entries.flatMap fun entry => votesFor (table[entry.1]?.getD []) entry.1 entry.2.axes).filter
        fun vote => vote.factor == factor) =
      (entries.filter fun entry => entry.1 == factor).flatMap fun entry =>
        votesFor (table[factor]?.getD []) factor entry.2.axes := by
    induction entries with
    | nil => rfl
    | cons entry rest ih =>
      rw [List.flatMap_cons, List.filter_append, ih]
      by_cases same : entry.1 = factor
      · have isOwn : ∀ vote ∈ votesFor (table[factor]?.getD []) factor entry.2.axes,
            (vote.factor == factor) = true :=
          fun vote isVote => beq_iff_eq.mpr (factor_of_mem_votesFor isVote)
        rw [same, List.filter_eq_self.mpr isOwn, List.filter_cons_of_pos (by simpa using same),
          List.flatMap_cons]
      · have isOther : ∀ vote ∈ votesFor (table[entry.1]?.getD []) entry.1 entry.2.axes,
            ¬ (vote.factor == factor) = true := by
          intro vote isVote isFactor
          exact same ((factor_of_mem_votesFor isVote).symm.trans (beq_iff_eq.mp isFactor))
        rw [List.filter_eq_nil_iff.mpr isOther, List.filter_cons_of_neg (by simpa using same),
          List.nil_append]
  rw [TensorProjection.votes, byEntry, tensor.filter_entries, TensorProjection.axesOf]
  cases tensor.factor? factor with
  | none => exact (if_pos rfl).symm
  | some sharding => exact List.flatMap_singleton _ _

/-- **A tensor has one vote for each proposal that it supports, and none for others.** -/
theorem count_votes {table : List (List AxisSequence)} {tensor : TensorProjection}
    (sharded : choice.axes ≠ []) (distinct : (table[choice.factor]?.getD []).Nodup)
    (isProposed : choice.axes ∈ table[choice.factor]?.getD []) :
    (tensor.votes table).count choice = if tensor.Supports choice then 1 else 0 := by
  have ofFactor : ((tensor.votes table).filter fun vote => vote.factor == choice.factor).count
      choice = (tensor.votes table).count choice :=
    List.count_filter (beq_self_eq_true _)
  rw [← ofFactor, filter_votes, (votesFor_nodup distinct _ _).count]
  simp only [mem_votesFor_iff sharded isProposed, tensor.supports_iff sharded]

end Votes

namespace Projection

variable {projection : Projection} {factorCount : Nat}

/-- The choice begins, with at least one reference, the axes of some tensor for its factor. -/
def Offers (projection : Projection) (choice : FactorAxes) : Prop :=
  choice.axes ≠ [] ∧ ∃ tensor ∈ projection.tensors, choice.axes <+: tensor.axesOf choice.factor

instance (projection : Projection) (choice : FactorAxes) : Decidable (projection.Offers choice) :=
  inferInstanceAs (Decidable (_ ∧ ∃ tensor ∈ projection.tensors, _))

/-- What is offered for a factor below the count is proposed for it. -/
theorem Offers.mem_table {choice : FactorAxes} (offers : projection.Offers choice)
    (below : choice.factor < factorCount) :
    choice.axes ∈ (proposalTable projection.tensors factorCount)[choice.factor]?.getD [] := by
  obtain ⟨sharded, tensor, isTensor, begins⟩ := offers
  rw [proposalTable, List.getElem?_map, List.getElem?_range below]
  exact List.mem_eraseDups.mpr (List.mem_flatMap.mpr
    ⟨tensor, isTensor, mem_descendingPrefixes_iff.mpr ⟨sharded, begins⟩⟩)

/-- Only factors of some tensor are offered axes. -/
theorem Offers.factor_lt {choice : FactorAxes} (offers : projection.Offers choice)
    (below : projection.FactorsBelow factorCount) : choice.factor < factorCount := by
  obtain ⟨sharded, tensor, isTensor, begins⟩ := offers
  exact below.of_axesOf isTensor (begins.ne_nil sharded)

/-- A choice has as many votes as it has supporters. -/
theorem Offers.count_ballots {choice : FactorAxes} (offers : projection.Offers choice)
    (below : projection.FactorsBelow factorCount) :
    (projection.ballots factorCount).count choice =
      projection.tensors.countP fun tensor => decide (tensor.Supports choice) := by
  have isProposed := offers.mem_table (offers.factor_lt below)
  refine count_flatMap_eq_countP fun tensor _ => count_votes offers.1 ?_ isProposed
  rw [proposalTable, List.getElem?_map, List.getElem?_range (offers.factor_lt below)]
  exact nodup_eraseDups _

/-- What gets votes is what is offered. -/
theorem mem_ballots_iff (below : projection.FactorsBelow factorCount) {choice : FactorAxes} :
    choice ∈ projection.ballots factorCount ↔ projection.Offers choice := by
  refine ⟨mem_ballots, fun offers => ?_⟩
  rw [← List.count_pos_iff, offers.count_ballots below, List.countP_pos_iff]
  obtain ⟨sharded, tensor, isTensor, begins⟩ := offers
  refine ⟨tensor, isTensor, decide_eq_true ((tensor.supports_iff sharded).mpr ?_)⟩
  by_cases same : choice.axes = tensor.axesOf choice.factor
  · exact .inl same
  · exact .inr (AxisSequence.isStrictPrefixOf_of_isPrefix begins same)

/-- A candidate has the votes of the tensors that support it. -/
theorem votes_eq_countP (below : projection.FactorsBelow factorCount) {candidate : Candidate}
    (isCandidate : candidate ∈ projection.candidates mesh factorCount) :
    candidate.votes =
      projection.tensors.countP fun tensor => decide (tensor.Supports candidate.choice) := by
  have offers := (mem_ballots_iff below).mp (mem_candidates isCandidate)
  obtain ⟨choice, -, rfl⟩ := List.mem_map.mp isCandidate
  exact offers.count_ballots below

theorem map_choice_candidates (mesh : Mesh) (factorCount : Nat) (projection : Projection) :
    (projection.candidates mesh factorCount).map Candidate.choice =
      (projection.ballots factorCount).eraseDups := by
  rw [candidates, candidatesOf, List.map_map]
  exact List.map_id _

/-- **Counting votes goes through among tensors whose references have shards, and makes one
candidate for each choice that is offered and none for others.** The votes of a candidate are the
tensors that map its factor along its axes or along axes that extend them. Its size is what a word
holds of the number of shards along its axes, which is that number if the numbers of the tensors fit
into a word. -/
theorem candidates_counted (mesh : Mesh) (factorCount : Nat) (projection : Projection)
    (hasShards : projection.HasShards) (below : projection.FactorsBelow factorCount) :
    projection.Comparable factorCount ∧
      projection.registeredCandidates mesh factorCount = projection.candidates mesh factorCount ∧
      (∀ choice, ((projection.candidates mesh factorCount).map Candidate.choice).count choice =
        if projection.Offers choice then 1 else 0) ∧
      ∀ candidate ∈ projection.candidates mesh factorCount,
        candidate.votes = (projection.tensors.countP fun tensor =>
          decide (tensor.Supports candidate.choice)) ∧
        candidate.size = AxisSequence.shards mesh candidate.choice.axes % UInt64.size ∧
        (projection.WithinWord mesh →
          candidate.size = AxisSequence.shards mesh candidate.choice.axes) := by
  refine ⟨hasShards.comparable, registeredCandidates_eq mesh factorCount projection, ?_, ?_⟩
  · intro choice
    rw [map_choice_candidates, (nodup_eraseDups _).count]
    simp only [List.mem_eraseDups, mem_ballots_iff below]
  · intro candidate isCandidate
    refine ⟨votes_eq_countP below isCandidate, ?_⟩
    obtain ⟨-, tensor, isTensor, begins⟩ := mem_ballots (mem_candidates isCandidate)
    obtain ⟨choice, -, rfl⟩ := List.mem_map.mp isCandidate
    refine ⟨AxisSequence.size_eq_mod mesh _, fun within => ?_⟩
    exact (within.counts_of_begins hasShards isTensor begins).size_eq

/-- A mesh of forty-five devices in rows and columns. -/
def gridMesh : Mesh :=
  ⟨[⟨"row", 9, by decide, by decide, by decide⟩,
    ⟨"column", 5, by decide, by decide, by decide⟩], by decide⟩

/-- Three tensors that share a factor, along rows and columns, along nothing, and along a third of
the rows. -/
def gridProjection : Projection where
  operands :=
    [⟨[some ⟨[.whole "row", .whole "column"], [], false, true⟩], []⟩,
      ⟨[some ⟨[], [], false, true⟩], []⟩]
  results := [⟨[some ⟨[.part "row" 1 3], [], false, true⟩], []⟩]

/-- The first tensor brings up two candidates and supports the one of the last tensor, too. -/
theorem grid_counted :
    gridProjection.candidates gridMesh 1 =
        [⟨⟨0, [.whole "row", .whole "column"]⟩, 1, 45⟩, ⟨⟨0, [.whole "row"]⟩, 1, 9⟩,
          ⟨⟨0, [.part "row" 1 3]⟩, 2, 3⟩] ∧
      gridProjection.Offers ⟨0, [.whole "row"]⟩ ∧
      ((gridProjection.candidates gridMesh 1).map Candidate.choice).count ⟨0, [.whole "row"]⟩ = 1 ∧
      (gridProjection.tensors.countP fun tensor =>
        decide (tensor.Supports ⟨0, [.part "row" 1 3]⟩)) = 2 ∧
      AxisSequence.shards gridMesh [.part "row" 1 3] = 3 := by
  have isList : gridProjection.candidates gridMesh 1 =
      [⟨⟨0, [.whole "row", .whole "column"]⟩, 1, 45⟩, ⟨⟨0, [.whole "row"]⟩, 1, 9⟩,
        ⟨⟨0, [.part "row" 1 3]⟩, 2, 3⟩] := by decide +kernel
  have offers : gridProjection.Offers ⟨0, [.whole "row"]⟩ := by decide +kernel
  obtain ⟨-, -, once, counted⟩ := candidates_counted gridMesh 1 gridProjection
    (by decide +kernel) (by decide +kernel)
  obtain ⟨votes, -, isSize⟩ := counted ⟨⟨0, [.part "row" 1 3]⟩, 2, 3⟩ (by rw [isList]; decide)
  exact ⟨isList, offers, (once _).trans (if_pos offers), votes.symm,
    (isSize (by decide +kernel)).symm⟩

/-- Of the number of towers on the campus a word holds nothing, so their candidate has size zero. -/
theorem towers_uncounted :
    campusProjection.HasShards ∧ campusProjection.FactorsBelow 2 ∧
      (⟨⟨0, [.whole "campus", .whole "tower"]⟩, 2, 0⟩ : Candidate) ∈
        campusProjection.candidates campusMesh 2 ∧
      AxisSequence.shards campusMesh [.whole "campus", .whole "tower"] =
        590295810358705651712 := by
  decide +kernel

end Projection

end MeshSharding
