import MeshSharding.Projection.Basic

/-!
# Elections

The tensors of an operation vote on the axes of each factor. A tensor that
shards a factor votes for the axes that it uses and also for every proposed
sequence that is a strict prefix of them. Proposed are the axes that some tensor
uses for the factor, and what is left of them when references are dropped from
the end (`proposals`). A vote for factors numbered beyond the given count is
possible, but nothing is proposed for them.

The axes for a factor that got votes are candidates. A candidate with more votes
is greater, then one with more shards, and then the order of factors and axes
decides. Since a candidate is determined by factor and axes, no two candidates
of a vote are equal in this order.

An election goes in rounds. In every round the greatest candidate of the pool
wins and its axes are committed for its factor. Candidates of the same factor
stay in the pool if they extend these axes, and then count only the shards
beyond them; candidates of other factors stay if they do not overlap them. The
winner itself never stays, so the pool shrinks and the election ends
(`length_survivors_lt`).

The axes on which a factor is agreed are those committed for it last.

The shards beyond a commitment are found by a division. It cannot be made if a
machine word holds nothing of the shards of the commitment, and then the election
stops (`Candidate.Stops`).
-/

set_option autoImplicit false

namespace MeshSharding

/-! ## Ballots -/

open Std

/-- Axes for a factor. -/
structure FactorAxes where
  factor : Nat
  axes : AxisSequence
  deriving DecidableEq

namespace FactorAxes

/-- The text of a factor with its axes. -/
def text (choice : FactorAxes) : String :=
  "#" ++ toString choice.factor ++ " -> " ++ AxisSequence.text choice.axes

/-- The axes overlap, whatever the factors. -/
def Overlaps (first second : FactorAxes) : Prop :=
  AxisSequence.Overlaps first.axes second.axes

instance (first second : FactorAxes) : Decidable (first.Overlaps second) :=
  inferInstanceAs (Decidable (AxisSequence.Overlaps first.axes second.axes))

/-- The order of the axes alone. -/
def axesOrder (first second : FactorAxes) : Ordering :=
  AxisSequence.order first.axes second.axes

instance : TransCmp axesOrder :=
  transCmp_through AxisSequence.order axes

/-- The order by factor and then by axes. -/
def order : FactorAxes → FactorAxes → Ordering :=
  compareLex (compareOn factor) axesOrder

instance : TransCmp order :=
  inferInstanceAs (TransCmp (compareLex (compareOn factor) axesOrder))

instance : LawfulEqCmp order where
  eq_of_compare {first second} same := by
    have both := compareLex_eq_eq.mp same
    have sameFactor : first.factor = second.factor := LawfulEqOrd.eq_of_compare both.1
    have sameOrder : AxisSequence.order first.axes second.axes = .eq := both.2
    have sameAxes : first.axes = second.axes := LawfulEqCmp.eq_of_compare sameOrder
    cases first
    cases second
    simp_all

end FactorAxes

/-! ## Proposals -/

/-- The sequences that begin a sequence, the longest first, without the empty one. -/
def descendingPrefixes : AxisSequence → List AxisSequence
  | [] => []
  | reference :: rest => (descendingPrefixes rest).map (reference :: ·) ++ [[reference]]

/-- A sequence is listed exactly when it is not empty and begins the given one. -/
theorem mem_descendingPrefixes_iff {shorter axes : AxisSequence} :
    shorter ∈ descendingPrefixes axes ↔ shorter ≠ [] ∧ shorter <+: axes := by
  induction axes generalizing shorter with
  | nil => simp [descendingPrefixes]
  | cons reference rest ih =>
    cases shorter with
    | nil => simp [descendingPrefixes]
    | cons first others =>
      simp only [descendingPrefixes, List.mem_append, List.mem_map, List.mem_singleton,
        List.cons.injEq, List.cons_prefix_cons, ne_eq, reduceCtorEq, not_false_eq_true, true_and]
      constructor
      · rintro (⟨tail, member, rfl, rfl⟩ | ⟨rfl, rfl⟩)
        · exact ⟨rfl, (ih.mp member).2⟩
        · exact ⟨rfl, List.nil_prefix⟩
      · rintro ⟨rfl, begins⟩
        by_cases empty : others = []
        · exact .inr ⟨rfl, empty⟩
        · exact .inl ⟨others, ih.mpr ⟨empty, begins⟩, rfl, rfl⟩

/-- The sequences proposed for a factor, in the order in which tensors bring them up. -/
def proposals (tensors : List TensorProjection) (factor : Nat) : List AxisSequence :=
  (tensors.flatMap fun tensor => descendingPrefixes (tensor.axesOf factor)).eraseDups

/-! ## Votes -/

/-- The votes of a tensor for a factor that it shards along the given axes. -/
def votesFor (proposed : List AxisSequence) (factor : Nat) (axes : AxisSequence) :
    List FactorAxes :=
  if axes = [] then []
  else
    ⟨factor, axes⟩ ::
      (proposed.filter fun shorter => decide (AxisSequence.IsStrictPrefixOf shorter axes)).map
        fun shorter => ⟨factor, shorter⟩

/-- The proposals for the factors below a count, in a list by factor. -/
def proposalTable (tensors : List TensorProjection) (factorCount : Nat) :
    List (List AxisSequence) :=
  (List.range factorCount).map (proposals tensors)

/-- The votes of a tensor, by increasing factor. -/
def TensorProjection.votes (table : List (List AxisSequence)) (tensor : TensorProjection) :
    List FactorAxes :=
  tensor.entries.flatMap fun entry =>
    votesFor (table[entry.1]?.getD []) entry.1 entry.2.axes

/-- All votes, tensor by tensor. -/
def Projection.ballots (projection : Projection) (factorCount : Nat) : List FactorAxes :=
  projection.tensors.flatMap
    (TensorProjection.votes (proposalTable projection.tensors factorCount))

/-- Whether the prefix questions that voting asks all have an answer. -/
def Projection.Comparable (projection : Projection) (factorCount : Nat) : Prop :=
  ∀ tensor ∈ projection.tensors, ∀ entry ∈ tensor.entries,
    ∀ shorter ∈ (proposalTable projection.tensors factorCount)[entry.1]?.getD [],
      AxisSequence.Comparable shorter entry.2.axes

instance (projection : Projection) (factorCount : Nat) :
    Decidable (projection.Comparable factorCount) :=
  inferInstanceAs (Decidable (∀ tensor ∈ projection.tensors, ∀ entry ∈ tensor.entries,
    ∀ shorter ∈ (proposalTable projection.tensors factorCount)[entry.1]?.getD [],
      AxisSequence.Comparable shorter entry.2.axes))

/-! ## Candidates -/

/-- Axes for a factor, the votes they got and the shards they would add. -/
structure Candidate where
  choice : FactorAxes
  votes : Nat
  /-- The number of shards beyond the axes that the factor already has, in a machine word. -/
  size : Nat
  deriving DecidableEq

namespace Candidate

/-- The order of the choices alone. -/
def choiceOrder (first second : Candidate) : Ordering :=
  FactorAxes.order first.choice second.choice

instance : TransCmp choiceOrder :=
  transCmp_through FactorAxes.order choice

/-- The order by votes, then by size, then by choice. -/
def order : Candidate → Candidate → Ordering :=
  compareLex (compareOn votes) (compareLex (compareOn size) choiceOrder)

instance : TransCmp order :=
  inferInstanceAs (TransCmp (compareLex (compareOn votes) (compareLex (compareOn size)
    choiceOrder)))

/-- Candidates that are equal in the order have the same choice. -/
theorem choice_eq_of_order_eq {first second : Candidate} (same : order first second = .eq) :
    first.choice = second.choice := by
  have sameOrder : FactorAxes.order first.choice second.choice = .eq :=
    (compareLex_eq_eq.mp (compareLex_eq_eq.mp same).2).2
  exact LawfulEqCmp.eq_of_compare sameOrder

/-- The greater of two candidates. -/
def greater (first second : Candidate) : Candidate :=
  if order first second = .lt then second else first

/-- The greatest of a first candidate and others. -/
def greatest (first : Candidate) (others : List Candidate) : Candidate :=
  others.foldl greater first

/-- The greatest candidate is one of those given. -/
theorem greatest_mem (first : Candidate) (others : List Candidate) :
    greatest first others ∈ first :: others := by
  induction others generalizing first with
  | nil => exact List.mem_singleton_self first
  | cons second rest ih =>
    have member := ih (greater first second)
    have either : greater first second = second ∨ greater first second = first := by
      unfold greater
      split
      · exact .inl rfl
      · exact .inr rfl
    rcases List.mem_cons.mp member with same | later
    · rcases either with isSecond | isFirst
      · exact List.mem_cons_of_mem _ (List.mem_cons.mpr (.inl (same.trans isSecond)))
      · exact List.mem_cons.mpr (.inl (same.trans isFirst))
    · exact List.mem_cons_of_mem _ (List.mem_cons_of_mem _ later)

end Candidate

/-- The candidates that votes make, in the order of their first votes. -/
def candidatesOf (mesh : Mesh) (ballots : List FactorAxes) : List Candidate :=
  ballots.eraseDups.map fun choice =>
    ⟨choice, ballots.count choice, AxisSequence.size mesh choice.axes⟩

/-- The candidates of a projection for a rule with the given number of factors. -/
def Projection.candidates (mesh : Mesh) (factorCount : Nat) (projection : Projection) :
    List Candidate :=
  candidatesOf mesh (projection.ballots factorCount)

/-! ## Rounds -/

/-- A candidate after a commitment, if it stays in the pool. -/
def Candidate.after? (mesh : Mesh) (commitment : FactorAxes) (candidate : Candidate) :
    Option Candidate :=
  if candidate.choice.factor = commitment.factor then
    if AxisSequence.IsStrictPrefixOf commitment.axes candidate.choice.axes then
      some { candidate with
        size := AxisSequence.sizeBeyond mesh candidate.choice.axes commitment.axes }
    else none
  else if candidate.choice.Overlaps commitment then none
  else some candidate

/-- The pool after a commitment. -/
def survivors (mesh : Mesh) (commitment : FactorAxes) (pool : List Candidate) : List Candidate :=
  pool.filterMap (Candidate.after? mesh commitment)

/-- A candidate whose axes are committed leaves the pool. -/
theorem Candidate.after?_self (mesh : Mesh) (candidate : Candidate) :
    candidate.after? mesh candidate.choice = none := by
  simp only [Candidate.after?, AxisSequence.IsStrictPrefixOf.irrefl, if_true, if_false]

/-- The pool shrinks when the axes of one of its candidates are committed. -/
theorem length_survivors_lt (mesh : Mesh) {winner : Candidate} {pool : List Candidate}
    (member : winner ∈ pool) : (survivors mesh winner.choice pool).length < pool.length :=
  List.length_filterMap_lt_length_iff_exists.mpr
    ⟨winner, member, Candidate.after?_self mesh winner⟩

/-- The pool of a round and the axes committed in it. -/
structure Round where
  pool : List Candidate
  commitment : FactorAxes

/-- The rounds of an election that starts with the given pool. -/
def rounds (mesh : Mesh) (pool : List Candidate) : List Round :=
  match pool with
  | [] => []
  | candidate :: others =>
    let winner := Candidate.greatest candidate others
    ⟨candidate :: others, winner.choice⟩ ::
      rounds mesh (survivors mesh winner.choice (candidate :: others))
termination_by pool.length
decreasing_by exact length_survivors_lt mesh (Candidate.greatest_mem candidate others)

/-- The commitments of an election in their order. -/
def commitments (mesh : Mesh) (pool : List Candidate) : List FactorAxes :=
  (rounds mesh pool).map Round.commitment

/-- The axes that a list of commitments leaves a factor with. -/
def lastCommitted (made : List FactorAxes) (factor : Nat) : AxisSequence :=
  (((made.filter fun choice => choice.factor == factor).getLast?).map FactorAxes.axes).getD []

/-- The candidate extends the commitment for its factor, which has size zero, so that there is no
size beyond it. -/
def Candidate.Stops (mesh : Mesh) (commitment : FactorAxes) (candidate : Candidate) : Prop :=
  AxisSequence.size mesh commitment.axes = 0 ∧ candidate.choice.factor = commitment.factor ∧
    AxisSequence.IsStrictPrefixOf commitment.axes candidate.choice.axes

instance (mesh : Mesh) (commitment : FactorAxes) (candidate : Candidate) :
    Decidable (candidate.Stops mesh commitment) :=
  inferInstanceAs (Decidable (_ ∧ _ ∧ _))

/-- All sizes beyond the commitment of a round that are asked for are defined. -/
def Round.Measurable (mesh : Mesh) (round : Round) : Prop :=
  ∀ candidate ∈ round.pool, ¬ candidate.Stops mesh round.commitment

instance (mesh : Mesh) (round : Round) : Decidable (round.Measurable mesh) :=
  inferInstanceAs (Decidable (∀ candidate ∈ round.pool, ¬ _))

namespace Projection

/-- The commitments of the election that the tensors of a projection hold. -/
def commitments (mesh : Mesh) (factorCount : Nat) (projection : Projection) : List FactorAxes :=
  MeshSharding.commitments mesh (projection.candidates mesh factorCount)

/-- The axes on which each factor is agreed. -/
def agreedAxes (mesh : Mesh) (factorCount : Nat) (projection : Projection) :
    List AxisSequence :=
  (List.range factorCount).map (lastCommitted (projection.commitments mesh factorCount))

/-- Whether every prefix and every size that the election asks for is defined. -/
def Electable (mesh : Mesh) (factorCount : Nat) (projection : Projection) : Prop :=
  projection.Comparable factorCount ∧
    ∀ round ∈ rounds mesh (projection.candidates mesh factorCount), round.Measurable mesh

instance (mesh : Mesh) (factorCount : Nat) (projection : Projection) :
    Decidable (projection.Electable mesh factorCount) :=
  inferInstanceAs (Decidable (_ ∧ ∀ round ∈ rounds mesh (projection.candidates mesh factorCount),
    round.Measurable mesh))

end Projection

end MeshSharding
