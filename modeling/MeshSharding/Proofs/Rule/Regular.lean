import MeshSharding.Proofs.Rule.Synthesis

/-!
# Rules that use no factor twice

A rule is simple when no tensor uses a factor twice and no dimension has more
than one factor. It suits an operation when its mappings have the ranks of the
operands and results (`check_eq_ok_iff`). Every rule that follows from the kind
and the shapes of an operation is simple and suits that operation
(`ofKind?_isSimple`): each of its mappings lists one factor for every dimension,
and no factor twice.
-/

set_option autoImplicit false

namespace MeshSharding

namespace FactorRule

variable {rule : FactorRule}

/-- No tensor uses a factor twice. -/
def UsesFactorsOnce (rule : FactorRule) : Prop :=
  ∀ mapping ∈ rule.operands ++ rule.results, mapping.factors.Nodup

/-- Every dimension has at most one factor, and no tensor uses a factor twice. -/
def IsSimple (rule : FactorRule) : Prop :=
  rule.UsesFactorsOnce ∧
    ∀ mapping ∈ rule.operands ++ rule.results, ∀ dim ∈ mapping, dim.length ≤ 1

instance : Decidable rule.UsesFactorsOnce :=
  inferInstanceAs (Decidable (∀ mapping ∈ rule.operands ++ rule.results, mapping.factors.Nodup))

instance : Decidable rule.IsSimple :=
  inferInstanceAs (Decidable (rule.UsesFactorsOnce ∧
    ∀ mapping ∈ rule.operands ++ rule.results, ∀ dim ∈ mapping, dim.length ≤ 1))

/-! ## Suiting an operation -/

theorem checkRanks_eq_ok_iff {mappings : List TensorMapping} {ranks : List Nat}
    (sameCount : mappings.length = ranks.length) :
    checkRanks mappings ranks = .ok () ↔ mappings.map List.length = ranks := by
  induction mappings generalizing ranks with
  | nil =>
    rw [List.length_eq_zero_iff.mp sameCount.symm]
    exact ⟨fun _ => rfl, fun _ => rfl⟩
  | cons mapping rest ih =>
    cases ranks with
    | nil => cases sameCount
    | cons rank ranks =>
      rw [List.map_cons, List.cons.injEq, ← ih (Nat.succ.inj sameCount), checkRanks]
      by_cases sameRank : mapping.length = rank
      · simp [sameRank]
      · simp [sameRank]

/-- A rule suits an operation when its mappings have the ranks of the operands and results. -/
theorem check_eq_ok_iff {operandRanks resultRanks : List Nat} :
    rule.check operandRanks resultRanks = .ok () ↔
      rule.operands.map List.length = operandRanks ∧
        rule.results.map List.length = resultRanks := by
  have side {word : TensorSide} {mappings : List TensorMapping} {ranks : List Nat} :
      checkCount word mappings ranks = .ok () ∧ checkRanks mappings ranks = .ok () ↔
        mappings.map List.length = ranks := by
    rw [checkCount, ite_eq_ok_iff]
    constructor
    · rintro ⟨sameCount, sameRanks⟩
      exact (checkRanks_eq_ok_iff sameCount).mp sameRanks
    · intro sameRanks
      have sameCount : mappings.length = ranks.length := by rw [← sameRanks, List.length_map]
      exact ⟨sameCount, (checkRanks_eq_ok_iff sameCount).mpr sameRanks⟩
  rw [check, seq_eq_ok_iff, seq_eq_ok_iff, seq_eq_ok_iff, ← and_assoc, side, side]

/-! ## One factor for every dimension -/

/-- The mapping lists one factor for each of as many dimensions, and no factor twice. -/
def ListsFactors (mapping : TensorMapping) (rank : Nat) : Prop :=
  ∃ factors : List Nat, factors.Nodup ∧ factors.length = rank ∧
    mapping = TensorMapping.ofFactors factors

theorem listsFactors_of_nodup {factors : List Nat} {rank : Nat} (distinct : factors.Nodup)
    (count : factors.length = rank) : ListsFactors (TensorMapping.ofFactors factors) rank :=
  ⟨factors, distinct, count, rfl⟩

theorem listsFactors_range (rank : Nat) :
    ListsFactors (TensorMapping.ofFactors (List.range rank)) rank :=
  listsFactors_of_nodup List.nodup_range List.length_range

/-- A rule whose mappings list factors for the ranks of an operation is simple and suits it. -/
theorem isSimple_of_listsFactors {operandRanks resultRanks : List Nat}
    (operands : List.Forall₂ ListsFactors rule.operands operandRanks)
    (results : List.Forall₂ ListsFactors rule.results resultRanks) :
    rule.IsSimple ∧ rule.check operandRanks resultRanks = .ok () := by
  have lengths {mappings : List TensorMapping} {ranks : List Nat}
      (lists : List.Forall₂ ListsFactors mappings ranks) :
      mappings.map List.length = ranks := by
    induction lists with
    | nil => rfl
    | @cons mapping rank mappings ranks first rest ih =>
      obtain ⟨factors, -, rfl, rfl⟩ := first
      rw [List.map_cons, ih, TensorMapping.ofFactors, List.length_map]
  have each {mappings : List TensorMapping} {ranks : List Nat}
      (lists : List.Forall₂ ListsFactors mappings ranks) {mapping : TensorMapping}
      (member : mapping ∈ mappings) :
      mapping.factors.Nodup ∧ ∀ dim ∈ mapping, dim.length ≤ 1 := by
    induction lists with
    | nil => exact absurd member List.not_mem_nil
    | cons first rest ih =>
      rcases List.mem_cons.mp member with rfl | later
      · obtain ⟨factors, distinct, -, rfl⟩ := first
        constructor
        · rwa [factors_ofFactors]
        · intro dim isDim
          obtain ⟨factor, -, rfl⟩ := List.mem_map.mp isDim
          exact Nat.le_refl 1
      · exact ih later
  have all : ∀ mapping ∈ rule.operands ++ rule.results,
      mapping.factors.Nodup ∧ ∀ dim ∈ mapping, dim.length ≤ 1 := by
    intro mapping member
    exact (List.mem_append.mp member).elim (each operands) (each results)
  have isSimple : rule.IsSimple :=
    ⟨fun mapping member => (all mapping member).1, fun mapping member => (all mapping member).2⟩
  exact ⟨isSimple, check_eq_ok_iff.mpr ⟨lengths operands, lengths results⟩⟩

/-! ## Elementwise operations and transpositions -/

theorem elementwise?_listsFactors {operands results : List Shape}
    (synthesized : elementwise? operands results = some rule) :
    List.Forall₂ ListsFactors rule.operands (operands.map List.length) ∧
      List.Forall₂ ListsFactors rule.results (results.map List.length) := by
  obtain ⟨shape, rfl, -, sameShapes, lists⟩ := elementwise?_eq_some synthesized
  rw [lists.operands_eq, lists.results_eq]
  refine ⟨?_, .cons (listsFactors_range _) .nil⟩
  rw [List.map_map, List.forall₂_map_left_iff, List.forall₂_map_right_iff, List.forall₂_same]
  intro operand member
  rw [sameShapes operand member]
  exact listsFactors_range _

theorem transpose?_listsFactors {permutation : List Nat} {operands results : List Shape}
    (synthesized : transpose? permutation operands results = some rule) :
    List.Forall₂ ListsFactors rule.operands (operands.map List.length) ∧
      List.Forall₂ ListsFactors rule.results (results.map List.length) := by
  obtain ⟨operand, result, rfl, rfl, -, distinct, sized, lists⟩ := transpose?_eq_some synthesized
  rw [lists.operands_eq, lists.results_eq]
  exact ⟨.cons (listsFactors_range _) .nil,
    .cons (listsFactors_of_nodup distinct sized.length_eq) .nil⟩

/-! ## Products -/

/-- The factors of a product are those of two operands of the given ranks. -/
def ProductFactors.Regular (factors : ProductFactors) (lhsRank rhsRank : Nat) : Prop :=
  factors.lhs.Nodup ∧ factors.lhs.length = lhsRank ∧ factors.rhs.Nodup ∧
    factors.rhs.length = rhsRank ∧ factors.result.Nodup

theorem product?_listsFactors {factors : ProductFactors} {lhs rhs result : Shape}
    (regular : factors.Regular lhs.length rhs.length)
    (synthesized : product? factors result = some rule) :
    List.Forall₂ ListsFactors rule.operands ([lhs, rhs].map List.length) ∧
      List.Forall₂ ListsFactors rule.results ([result].map List.length) := by
  obtain ⟨lhsDistinct, lhsRank, rhsDistinct, rhsRank, resultDistinct⟩ := regular
  obtain ⟨sized, lists⟩ := product?_eq_some synthesized
  rw [lists.operands_eq, lists.results_eq]
  exact ⟨.cons (listsFactors_of_nodup lhsDistinct lhsRank)
    (.cons (listsFactors_of_nodup rhsDistinct rhsRank) .nil),
    .cons (listsFactors_of_nodup resultDistinct sized.length_eq) .nil⟩

theorem dotFactors?_regular {lhs rhs : Shape} {factors : ProductFactors}
    (isSome : dotFactors? lhs rhs = some factors) : factors.Regular lhs.length rhs.length := by
  refine dotFactors?_cases isSome ?_ ?_ ?_ ?_ <;> simp [ProductFactors.Regular]

/-- If no factor is assigned twice, the dimensions get distinct factors. -/
theorem assignedFactors?_nodup {rank : Nat} {assigned : List (Nat × Nat)} {factors : List Nat}
    (isSome : assignedFactors? rank assigned = some factors)
    (distinct : (assigned.map Prod.snd).Nodup) :
    factors.Nodup ∧ factors.length = rank := by
  refine ⟨List.nodup_iff_pairwise_ne.mpr (List.pairwise_iff_getElem.mpr ?_),
    length_assignedFactors? isSome⟩
  intro first second firstBelow secondBelow before same
  have sameEntry := List.inj_on_of_nodup_map distinct
    (mem_assigned isSome (List.getElem?_eq_getElem firstBelow))
    (mem_assigned isSome (List.getElem?_eq_getElem secondBelow)) same
  exact Nat.ne_of_lt before (congrArg Prod.fst sameEntry)

/-- Dimensions numbered in three ranges, one after the other, get distinct numbers. -/
theorem numbered_nodup {batch free contract : List Nat} {freeStart contractStart : Nat}
    (batchBelow : batch.length ≤ freeStart) (freeBelow : freeStart + free.length ≤ contractStart) :
    ((batch.zipIdx ++ free.zipIdx freeStart ++ contract.zipIdx contractStart).map
      Prod.snd).Nodup := by
  simp only [List.map_append, List.zipIdx_map_snd]
  refine List.nodup_append.mpr ⟨List.nodup_append.mpr ⟨List.nodup_range', List.nodup_range', ?_⟩,
    List.nodup_range', ?_⟩
  · intro first inBatch second inFree same
    rw [List.mem_range'_1] at inBatch inFree
    omega
  · intro first inFront second inContract same
    rw [List.mem_append, List.mem_range'_1, List.mem_range'_1] at inFront
    rw [List.mem_range'_1] at inContract
    omega

theorem IsGeneral.regular {numbers : DotNumbers} {lhs rhs : Shape} {batch contract : List Nat}
    {factors : ProductFactors} (general : IsGeneral numbers lhs rhs batch contract factors) :
    factors.Regular lhs.length rhs.length := by
  have lhsRegular := assignedFactors?_nodup general.isLhs
    (numbered_nodup (Nat.le_refl _) (by rw [List.length_map]; exact Nat.le_add_right ..))
  have rhsRegular := assignedFactors?_nodup general.isRhs
    (numbered_nodup (by rw [← general.batchCount]; exact Nat.le_add_right ..)
      (Nat.le_of_eq (by rw [List.length_map, contractStart])))
  refine ⟨lhsRegular.1, lhsRegular.2, rhsRegular.1, rhsRegular.2, ?_⟩
  rw [general.isResult]
  exact List.nodup_range

theorem dot?_listsFactors {operands results : List Shape}
    (synthesized : dot? operands results = some rule) :
    List.Forall₂ ListsFactors rule.operands (operands.map List.length) ∧
      List.Forall₂ ListsFactors rule.results (results.map List.length) := by
  obtain ⟨lhs, rhs, result, factors, rfl, rfl, isSome, isRule⟩ := dot?_eq_some synthesized
  exact product?_listsFactors (dotFactors?_regular isSome) isRule

theorem dotGeneral?_listsFactors {numbers : DotNumbers} {operands results : List Shape}
    (synthesized : dotGeneral? numbers operands results = some rule) :
    List.Forall₂ ListsFactors rule.operands (operands.map List.length) ∧
      List.Forall₂ ListsFactors rule.results (results.map List.length) := by
  obtain ⟨lhs, rhs, result, batch, contract, factors, rfl, rfl, general, isRule⟩ :=
    dotGeneral?_eq_some synthesized
  exact product?_listsFactors general.regular isRule

/-- **A rule that follows from kind and shapes is simple and suits the operation.** -/
theorem ofKind?_isSimple {kind : OperationKind} {operands results : List Shape}
    (synthesized : ofKind? kind operands results = some rule) :
    rule.IsSimple ∧
      rule.check (operands.map List.length) (results.map List.length) = .ok () := by
  have lists : List.Forall₂ ListsFactors rule.operands (operands.map List.length) ∧
      List.Forall₂ ListsFactors rule.results (results.map List.length) := by
    cases kind with
    | elementwise function => exact elementwise?_listsFactors synthesized
    | dot => exact dot?_listsFactors synthesized
    | dotGeneral numbers => exact dotGeneral?_listsFactors synthesized
    | transpose permutation => exact transpose?_listsFactors synthesized
    | custom name => cases synthesized
    | reshard => cases synthesized
    | exit => cases synthesized
  exact isSimple_of_listsFactors lists.1 lists.2

end FactorRule

end MeshSharding
