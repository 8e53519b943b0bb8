import MeshSharding.Proofs.Rule.Regular

/-!
# Rules whose factors meet

Two factors meet in a rule when some tensor has dimensions along both. A
sharding of that tensor keeps the axes of the two apart, and this is all that
keeps them apart: nothing compares the axes of factors that never meet.

In a rule that follows from kind and shapes any two factors meet
(`ofKind?_factorsMeet`). Elementwise operations and transpositions have a tensor
with all factors. In a product each of the three tensors lacks one group of
factors, and two factors always leave some tensor that lacks neither of them. A
general product has to list no dimension of an operand twice for this: a
dimension has one factor, and the others that it is listed for have none.
-/

set_option autoImplicit false

namespace MeshSharding

namespace FactorRule

variable {rule : FactorRule}

/-- Some tensor of the rule has both factors. -/
def Meet (rule : FactorRule) (first second : Nat) : Prop :=
  ∃ mapping ∈ rule.operands ++ rule.results, first ∈ mapping.factors ∧ second ∈ mapping.factors

/-- Any two factors of the rule meet, and any factor occurs in some tensor. -/
def FactorsMeet (rule : FactorRule) : Prop :=
  ∀ first < rule.factorCount, ∀ second < rule.factorCount, rule.Meet first second

instance (first second : Nat) : Decidable (rule.Meet first second) :=
  inferInstanceAs (Decidable (∃ mapping ∈ rule.operands ++ rule.results, _ ∧ _))

instance : Decidable rule.FactorsMeet :=
  inferInstanceAs (Decidable (∀ first < rule.factorCount, ∀ second < rule.factorCount,
    rule.Meet first second))

/-- A tensor that has all factors lets any two of them meet. -/
theorem factorsMeet_of_mapping (mapping : TensorMapping)
    (member : mapping ∈ rule.operands ++ rule.results)
    (all : ∀ factor < rule.factorCount, factor ∈ mapping.factors) : rule.FactorsMeet :=
  fun first firstBelow second secondBelow =>
    ⟨mapping, member, all first firstBelow, all second secondBelow⟩

/-- A tensor that lists all factors in order has them all. -/
theorem Lists.mem_range {shape : Shape} {operands results : List (List Nat)}
    {reduction : List Nat} (lists : rule.Lists shape operands results reduction) :
    ∀ factor < rule.factorCount,
      factor ∈ (TensorMapping.ofFactors (List.range shape.length)).factors := by
  intro factor below
  rw [factorCount, lists.sizes_eq] at below
  rw [factors_ofFactors]
  exact List.mem_range.mpr below

/-! ## Elementwise operations and transpositions -/

theorem elementwise?_factorsMeet {operands results : List Shape}
    (synthesized : elementwise? operands results = some rule) : rule.FactorsMeet := by
  obtain ⟨shape, -, -, -, lists⟩ := elementwise?_eq_some synthesized
  exact factorsMeet_of_mapping _
    (List.mem_append_right _ (lists.mem_results (List.mem_singleton_self _))) lists.mem_range

theorem transpose?_factorsMeet {permutation : List Nat} {operands results : List Shape}
    (synthesized : transpose? permutation operands results = some rule) : rule.FactorsMeet := by
  obtain ⟨operand, result, -, -, -, -, -, lists⟩ := transpose?_eq_some synthesized
  exact factorsMeet_of_mapping _
    (List.mem_append_left _ (lists.mem_operands (List.mem_singleton_self _))) lists.mem_range

/-! ## Products -/

/-- Any two factors of a product are both factors of the left operand, of the right one or of the
result. -/
def ProductFactors.Meet (factors : ProductFactors) : Prop :=
  ∀ first < factors.sizes.length, ∀ second < factors.sizes.length,
    ∃ listed ∈ [factors.lhs, factors.rhs, factors.result], first ∈ listed ∧ second ∈ listed

theorem product?_factorsMeet {factors : ProductFactors} {result : Shape} (meet : factors.Meet)
    (synthesized : product? factors result = some rule) : rule.FactorsMeet := by
  obtain ⟨-, lists⟩ := product?_eq_some synthesized
  intro first firstBelow second secondBelow
  rw [factorCount, lists.sizes_eq] at firstBelow secondBelow
  obtain ⟨listed, isListed, both⟩ := meet first firstBelow second secondBelow
  refine ⟨TensorMapping.ofFactors listed, ?_, ?_⟩
  · rw [lists.operands_eq, lists.results_eq]
    exact List.mem_map.mpr ⟨listed, isListed, rfl⟩
  · rwa [factors_ofFactors]

theorem dotFactors?_meet {lhs rhs : Shape} {factors : ProductFactors}
    (isSome : dotFactors? lhs rhs = some factors) : factors.Meet := by
  refine dotFactors?_cases isSome ?_ ?_ ?_ ?_
  all_goals
    intros
    simp only [ProductFactors.Meet, List.length_cons, List.length_nil]
    decide

/-- If no dimension is assigned twice, every factor that is assigned to a dimension is listed. -/
theorem mem_of_assignedFactors? {rank : Nat} {assigned : List (Nat × Nat)} {factors : List Nat}
    (isSome : assignedFactors? rank assigned = some factors)
    (distinct : (assigned.map Prod.fst).Nodup) {dim factor : Nat} (below : dim < rank)
    (member : (dim, factor) ∈ assigned) : factor ∈ factors := by
  have found := lookup_reverse_of_mem distinct member
  exact List.mem_of_getElem? ((getElem?_assignedFactors? isSome).mpr ⟨below, found⟩)

/-- An operand of which no dimension is listed twice has the factors of all its groups. -/
theorem mem_of_operandFactors {shape : Shape} {batch contract factors : List Nat}
    {freeStart contractStart : Nat}
    (isSome : assignedFactors? shape.length
      (operandFactors shape batch contract freeStart contractStart) = some factors)
    (once : (batch ++ contract).Nodup) (batchWithin : ∀ dim ∈ batch, dim < shape.length)
    (contractWithin : ∀ dim ∈ contract, dim < shape.length) {factor : Nat}
    (isGiven : factor < batch.length ∨
      freeStart ≤ factor ∧ factor < freeStart + (freeDims shape batch contract).length ∨
      contractStart ≤ factor ∧ factor < contractStart + contract.length) : factor ∈ factors := by
  have isFree {dim : Nat} (member : dim ∈ (freeDims shape batch contract).map Prod.snd) :
      dim < shape.length ∧ dim ∉ batch ∧ dim ∉ contract := by
    obtain ⟨entry, inFree, rfl⟩ := List.mem_map.mp member
    obtain ⟨inShape, unlisted⟩ := List.mem_filter.mp inFree
    have below := List.snd_lt_of_mem_zipIdx inShape
    exact ⟨by omega, of_decide_eq_true unlisted⟩
  have freeOnce : ((freeDims shape batch contract).map Prod.snd).Nodup := by
    have inOrder : (shape.zipIdx.map Prod.snd).Nodup := by
      rw [List.zipIdx_map_snd]
      exact List.nodup_range'
    exact inOrder.sublist (List.filter_sublist.map Prod.snd)
  have distinct :
      ((operandFactors shape batch contract freeStart contractStart).map Prod.fst).Nodup := by
    obtain ⟨batchOnce, contractOnce, batchApart⟩ := List.nodup_append.mp once
    simp only [operandFactors, List.map_append, List.zipIdx_map_fst]
    refine List.nodup_append.mpr ⟨List.nodup_append.mpr ⟨batchOnce, freeOnce, ?_⟩,
      contractOnce, ?_⟩
    · rintro dim inBatch _ inFree rfl
      exact (isFree inFree).2.1 inBatch
    · rintro dim inFront _ inContract rfl
      rcases List.mem_append.mp inFront with inBatch | inFree
      · exact batchApart dim inBatch dim inContract rfl
      · exact (isFree inFree).2.2 inContract
  -- the factor is the number of a dimension of one of the groups
  have numbered (group : List Nat) (start : Nat) (within : ∀ dim ∈ group, dim < shape.length)
      (inGroup : group.zipIdx start ⊆ operandFactors shape batch contract freeStart contractStart)
      (low : start ≤ factor) (high : factor < start + group.length) : factor ∈ factors := by
    have below : factor - start < group.length := by omega
    refine mem_of_assignedFactors? isSome distinct (within _ (List.getElem_mem below)) (inGroup ?_)
    exact List.mem_zipIdx_iff_le_and_getElem?_sub.mpr ⟨low, List.getElem?_eq_getElem below⟩
  rcases isGiven with isBatch | ⟨low, high⟩ | ⟨low, high⟩
  · exact numbered batch 0 batchWithin
      (fun _ member => List.mem_append_left _ (List.mem_append_left _ member))
      (Nat.zero_le _) (by omega)
  · exact numbered _ freeStart (fun dim member => (isFree member).1)
      (fun _ member => List.mem_append_left _ (List.mem_append_right _ member))
      low (by rwa [List.length_map])
  · exact numbered contract contractStart contractWithin
      (fun _ member => List.mem_append_right _ member) low high

end FactorRule

/-- No dimension of an operand is listed twice among its batching and contracting dimensions. -/
def DotNumbers.ListsOnce (numbers : DotNumbers) : Prop :=
  (numbers.lhsBatch ++ numbers.lhsContract).Nodup ∧
    (numbers.rhsBatch ++ numbers.rhsContract).Nodup

instance (numbers : DotNumbers) : Decidable numbers.ListsOnce :=
  inferInstanceAs (Decidable (_ ∧ _))

/-- A general product lists no dimension of an operand twice. -/
def OperationKind.ListsOnce : OperationKind → Prop
  | .dotGeneral numbers => numbers.ListsOnce
  | _ => True

instance (kind : OperationKind) : Decidable kind.ListsOnce := by
  cases kind <;> unfold OperationKind.ListsOnce <;> infer_instance

namespace FactorRule

variable {rule : FactorRule}

namespace IsGeneral

variable {numbers : DotNumbers} {lhs rhs : Shape} {batch contract : List Nat}
  {factors : ProductFactors} (general : IsGeneral numbers lhs rhs batch contract factors)
  (once : numbers.ListsOnce)
include general once

/-- The left operand lacks only what remains of the right one. -/
theorem mem_lhs {factor : Nat} (below : factor < factors.sizes.length)
    (isGiven : factor < rhsStart numbers lhs ∨ contractStart numbers lhs rhs ≤ factor) :
    factor ∈ factors.lhs := by
  apply mem_of_operandFactors general.isLhs once.1 general.batchSizes.1.lt
    general.contractSizes.1.lt
  rw [general.sizes_length] at below
  rw [rhsStart] at isGiven
  omega

/-- The right operand lacks only what remains of the left one. -/
theorem mem_rhs {factor : Nat} (below : factor < factors.sizes.length)
    (isGiven : factor < numbers.lhsBatch.length ∨ rhsStart numbers lhs ≤ factor) :
    factor ∈ factors.rhs := by
  apply mem_of_operandFactors general.isRhs once.2 general.batchSizes.2.lt
    general.contractSizes.2.lt
  have batchCount := general.batchCount
  have contractCount := general.contractCount
  rw [general.sizes_length] at below
  rw [contractStart] at below ⊢
  omega

theorem meet : factors.Meet := by
  intro first firstBelow second secondBelow
  simp only [List.mem_cons, exists_eq_or_imp]
  by_cases leftBoth : (first < rhsStart numbers lhs ∨ contractStart numbers lhs rhs ≤ first) ∧
      (second < rhsStart numbers lhs ∨ contractStart numbers lhs rhs ≤ second)
  · exact .inl ⟨general.mem_lhs once firstBelow leftBoth.1,
      general.mem_lhs once secondBelow leftBoth.2⟩
  · by_cases rightBoth : (first < numbers.lhsBatch.length ∨ rhsStart numbers lhs ≤ first) ∧
        (second < numbers.lhsBatch.length ∨ rhsStart numbers lhs ≤ second)
    · exact .inr (.inl ⟨general.mem_rhs once firstBelow rightBoth.1,
        general.mem_rhs once secondBelow rightBoth.2⟩)
    · -- one factor is of either kind, and neither is summed over
      have ordered : numbers.lhsBatch.length ≤ rhsStart numbers lhs := Nat.le_add_right ..
      have ordered' : rhsStart numbers lhs ≤ contractStart numbers lhs rhs := Nat.le_add_right ..
      rw [general.isResult, List.mem_range, List.mem_range]
      exact .inr (.inr (.inl ⟨by omega, by omega⟩))

end IsGeneral

theorem dot?_factorsMeet {operands results : List Shape}
    (synthesized : dot? operands results = some rule) : rule.FactorsMeet := by
  obtain ⟨lhs, rhs, result, factors, -, -, isSome, isRule⟩ := dot?_eq_some synthesized
  exact product?_factorsMeet (dotFactors?_meet isSome) isRule

theorem dotGeneral?_factorsMeet {numbers : DotNumbers} {operands results : List Shape}
    (once : numbers.ListsOnce) (synthesized : dotGeneral? numbers operands results = some rule) :
    rule.FactorsMeet := by
  obtain ⟨lhs, rhs, result, batch, contract, factors, -, -, general, isRule⟩ :=
    dotGeneral?_eq_some synthesized
  exact product?_factorsMeet (general.meet once) isRule

/-- **In a rule that follows from kind and shapes any two factors meet,** if a general product lists
no dimension of an operand twice. -/
theorem ofKind?_factorsMeet {kind : OperationKind} {operands results : List Shape}
    (once : kind.ListsOnce) (synthesized : ofKind? kind operands results = some rule) :
    rule.FactorsMeet := by
  cases kind with
  | elementwise function => exact elementwise?_factorsMeet synthesized
  | dot => exact dot?_factorsMeet synthesized
  | dotGeneral numbers => exact dotGeneral?_factorsMeet once synthesized
  | transpose permutation => exact transpose?_factorsMeet synthesized
  | custom name => cases synthesized
  | reshard => cases synthesized
  | exit => cases synthesized

/-- A product of vectors whose only dimension is listed for batching and for contracting: the factor
of the batch is lost. -/
example : (ofKind? (.dotGeneral ⟨[0], [0], [0], [0]⟩) [[4], [4]] [[4]]).map
    (fun rule => decide rule.FactorsMeet) = some false := by decide

end FactorRule

end MeshSharding
