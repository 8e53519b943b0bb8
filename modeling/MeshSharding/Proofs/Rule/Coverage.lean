import Mathlib.Data.List.Perm.Subperm
import MeshSharding.Proofs.Rule.Meeting

/-!
# What synthesised rules say

A rule that follows from kind and shapes describes the shapes (`Describes`): it
suits their ranks, every dimension has one factor, which has the size of the
dimension, no tensor uses a factor twice, and the reduction factors are those
that no result has.

Whether it also ties the result to the operands is another question (`Covers`).
A factor that is summed over should be a factor of every operand, a factor of
the result should come from some operand, and from both if it belongs to a pair
of batching dimensions. All kinds but one have rules of this form. The rule of a
general product has it exactly if the product lists no dimension of an operand
twice (`ofKind?_describes_covers_iff`): a dimension has one factor, and the
numbers that the other entries for it were given are in the rule, and in the
result if they come before the contracting ones, without being factors of that
operand. A transposition that lists a dimension twice has no rule, such a product
has one (`repeated_dimension_uncovered`).
-/

set_option autoImplicit false

namespace MeshSharding

/-- The number of pairs of batching dimensions. Their factors come first. -/
def OperationKind.batchCount : OperationKind → Nat
  | .dotGeneral numbers => numbers.lhsBatch.length
  | _ => 0

namespace FactorRule

variable {rule : FactorRule}

/-! ## What a rule says about shapes -/

/-- Every dimension of the tensor has one factor, of the size of the dimension. -/
def Measures (rule : FactorRule) (mapping : TensorMapping) (shape : Shape) : Prop :=
  List.Forall₂ (fun dim size => ∃ factor, dim = [factor] ∧ rule.sizes[factor]? = some size)
    mapping shape

/-- Some result has the factor. -/
def InResult (rule : FactorRule) (factor : Nat) : Prop :=
  ∃ mapping ∈ rule.results, factor ∈ mapping.factors

instance (factor : Nat) : Decidable (rule.InResult factor) :=
  inferInstanceAs (Decidable (∃ mapping ∈ rule.results, factor ∈ mapping.factors))

/-- The rule describes the shapes of the operands and results. -/
structure Describes (rule : FactorRule) (operands results : List Shape) : Prop where
  suits : rule.check (operands.map List.length) (results.map List.length) = .ok ()
  operandSizes : List.Forall₂ rule.Measures rule.operands operands
  resultSizes : List.Forall₂ rule.Measures rule.results results
  once : rule.UsesFactorsOnce
  summed : ∀ factor < rule.factorCount, factor ∈ rule.reduction ↔ ¬ rule.InResult factor

/-- The operands have the factors of the result and those that are summed over. -/
structure Covers (rule : FactorRule) (batchCount : Nat) : Prop where
  summed : ∀ factor ∈ rule.reduction, ∀ mapping ∈ rule.operands, factor ∈ mapping.factors
  kept : ∀ factor, rule.InResult factor → ∃ mapping ∈ rule.operands, factor ∈ mapping.factors
  batched : ∀ factor < batchCount, ∀ mapping ∈ rule.operands, factor ∈ mapping.factors

theorem sizesOf_iff {sizes factors : List Nat} {shape : Shape} :
    SizesOf sizes factors shape ↔
      List.Forall₂ (fun factor size => sizes[factor]? = some size) factors shape := by
  rw [SizesOf, ← List.forall₂_eq_eq_eq, List.forall₂_map_left_iff, List.forall₂_map_right_iff]

theorem measures_ofFactors {factors : List Nat} {shape : Shape}
    (sameSizes : SizesOf rule.sizes factors shape) :
    rule.Measures (TensorMapping.ofFactors factors) shape := by
  rw [Measures, TensorMapping.ofFactors, List.forall₂_map_left_iff]
  exact (sizesOf_iff.mp sameSizes).imp fun _ _ isSize => ⟨_, rfl, isSize⟩

/-- A rule measures the tensors whose factors it lists. -/
theorem measures_of_sizesOf {listed : List (List Nat)} {shapes : List Shape}
    (sized : List.Forall₂ (SizesOf rule.sizes) listed shapes) :
    List.Forall₂ rule.Measures (listed.map TensorMapping.ofFactors) shapes := by
  rw [List.forall₂_map_left_iff]
  exact sized.imp fun _ _ => measures_ofFactors

theorem sizesOf_range (shape : Shape) : SizesOf shape (List.range shape.length) shape := by
  simpa only [List.append_nil] using sizesOf_range_append shape []

/-! ## Elementwise operations and transpositions -/

/-- A rule without a reduction whose operands and results each have all factors. -/
structure Total (rule : FactorRule) : Prop where
  reduction : rule.reduction = []
  operand : ∃ mapping, mapping ∈ rule.operands
  operands : ∀ mapping ∈ rule.operands, ∀ factor < rule.factorCount, factor ∈ mapping.factors
  result : ∃ mapping, mapping ∈ rule.results
  results : ∀ mapping ∈ rule.results, ∀ factor < rule.factorCount, factor ∈ mapping.factors

theorem Total.summed (total : rule.Total) {factor : Nat} (below : factor < rule.factorCount) :
    factor ∈ rule.reduction ↔ ¬ rule.InResult factor := by
  obtain ⟨mapping, isResult⟩ := total.result
  have inResult : rule.InResult factor :=
    ⟨mapping, isResult, total.results mapping isResult factor below⟩
  simp [total.reduction, inResult]

theorem Total.covers (total : rule.Total) : rule.Covers 0 where
  summed factor isSummed := by
    rw [total.reduction] at isSummed
    cases isSummed
  kept factor inResult := by
    obtain ⟨result, isResult, member⟩ := inResult
    obtain ⟨operand, isOperand⟩ := total.operand
    have below := rule.mapped_lt result (List.mem_append_right _ isResult) factor member
    exact ⟨operand, isOperand, total.operands operand isOperand factor below⟩
  batched _ below := absurd below (Nat.not_lt_zero _)

/-- A rule that sums over nothing and lists all factors for each tensor is total. -/
theorem Lists.total {sizes : List Nat} {operands results : List (List Nat)}
    (lists : rule.Lists sizes operands results []) (someOperand : ∃ factors, factors ∈ operands)
    (someResult : ∃ factors, factors ∈ results)
    (all : ∀ factors ∈ operands ++ results, ∀ factor < sizes.length, factor ∈ factors) :
    rule.Total := by
  have listed {factors : List Nat} (member : factors ∈ operands ++ results) {factor : Nat}
      (below : factor < rule.factorCount) :
      factor ∈ (TensorMapping.ofFactors factors).factors := by
    rw [factorCount, lists.sizes_eq] at below
    rw [factors_ofFactors]
    exact all factors member factor below
  obtain ⟨operand, isOperand⟩ := someOperand
  obtain ⟨result, isResult⟩ := someResult
  refine ⟨lists.reduction_eq, ⟨_, lists.mem_operands isOperand⟩, ?_,
    ⟨_, lists.mem_results isResult⟩, ?_⟩
  · rw [lists.operands_eq]
    exact List.forall_mem_map.mpr fun factors member _ =>
      listed (List.mem_append_left _ member)
  · rw [lists.results_eq]
    exact List.forall_mem_map.mpr fun factors member _ =>
      listed (List.mem_append_right _ member)

theorem elementwise?_total {operands results : List Shape}
    (synthesized : elementwise? operands results = some rule) :
    rule.Total ∧ List.Forall₂ rule.Measures rule.operands operands ∧
      List.Forall₂ rule.Measures rule.results results := by
  obtain ⟨shape, rfl, notEmpty, sameShapes, lists⟩ := elementwise?_eq_some synthesized
  obtain ⟨operand, isOperand⟩ := List.exists_mem_of_ne_nil operands notEmpty
  have sized : SizesOf rule.sizes (List.range shape.length) shape :=
    lists.sizes_eq ▸ sizesOf_range shape
  refine ⟨lists.total ⟨_, List.mem_map_of_mem isOperand⟩ ⟨_, List.mem_singleton_self _⟩ ?_, ?_, ?_⟩
  · intro factors member factor below
    have isRange : factors = List.range shape.length := by
      rcases List.mem_append.mp member with isOperand | isResult
      · obtain ⟨-, -, same⟩ := List.mem_map.mp isOperand
        exact same.symm
      · exact List.mem_singleton.mp isResult
    rw [isRange]
    exact List.mem_range.mpr below
  · rw [lists.operands_eq]
    apply measures_of_sizesOf
    rw [List.forall₂_map_left_iff, List.forall₂_same]
    intro operand isOperand
    rw [sameShapes operand isOperand]
    exact sized
  · rw [lists.results_eq]
    exact measures_of_sizesOf (.cons sized .nil)

/-- Distinct numbers below a bound, as many as the bound, are all the numbers below it. -/
theorem mem_of_nodup_of_lt {numbers : List Nat} (distinct : numbers.Nodup)
    (below : ∀ number ∈ numbers, number < numbers.length) {number : Nat}
    (isBelow : number < numbers.length) : number ∈ numbers := by
  have within : numbers ⊆ List.range numbers.length :=
    fun other member => List.mem_range.mpr (below other member)
  have isPerm : numbers.Perm (List.range numbers.length) :=
    (List.subperm_of_subset distinct within).perm_of_length_le (Nat.le_of_eq List.length_range)
  exact isPerm.mem_iff.mpr (List.mem_range.mpr isBelow)

theorem transpose?_total {permutation : List Nat} {operands results : List Shape}
    (synthesized : transpose? permutation operands results = some rule) :
    rule.Total ∧ List.Forall₂ rule.Measures rule.operands operands ∧
      List.Forall₂ rule.Measures rule.results results := by
  obtain ⟨operand, result, rfl, rfl, sameRank, distinct, sized, lists⟩ :=
    transpose?_eq_some synthesized
  refine ⟨lists.total ⟨_, List.mem_singleton_self _⟩ ⟨_, List.mem_singleton_self _⟩ ?_, ?_, ?_⟩
  · simp only [List.cons_append, List.nil_append, List.forall_mem_cons]
    refine ⟨fun factor below => List.mem_range.mpr below, fun factor below => ?_, by simp⟩
    exact mem_of_nodup_of_lt distinct (sameRank ▸ sized.lt) (sameRank ▸ below)
  · rw [lists.operands_eq]
    exact measures_of_sizesOf (.cons (lists.sizes_eq ▸ sizesOf_range operand) .nil)
  · rw [lists.results_eq]
    exact measures_of_sizesOf (.cons (lists.sizes_eq ▸ sized) .nil)

/-! ## Products -/

/-- The factors of a product have the sizes of the dimensions of both operands, and those that are
summed over are the ones that the result is without. -/
structure ProductFactors.Measures (factors : ProductFactors) (lhs rhs : Shape) : Prop where
  lhsSizes : SizesOf factors.sizes factors.lhs lhs
  rhsSizes : SizesOf factors.sizes factors.rhs rhs
  summed : ∀ factor < factors.sizes.length, factor ∈ factors.reduction ↔ factor ∉ factors.result

/-- The operands of a product have the factors of the result and those that are summed over. -/
structure ProductFactors.Covers (factors : ProductFactors) (batchCount : Nat) : Prop where
  summed : ∀ factor ∈ factors.reduction, factor ∈ factors.lhs ∧ factor ∈ factors.rhs
  kept : ∀ factor ∈ factors.result, factor ∈ factors.lhs ∨ factor ∈ factors.rhs
  batched : ∀ factor < batchCount, factor ∈ factors.lhs ∧ factor ∈ factors.rhs

theorem product?_measures {factors : ProductFactors} {lhs rhs result : Shape}
    (measures : factors.Measures lhs rhs) (synthesized : product? factors result = some rule) :
    List.Forall₂ rule.Measures rule.operands [lhs, rhs] ∧
      List.Forall₂ rule.Measures rule.results [result] ∧
      ∀ factor < rule.factorCount, factor ∈ rule.reduction ↔ ¬ rule.InResult factor := by
  obtain ⟨resultSizes, lists⟩ := product?_eq_some synthesized
  have isSizes := lists.sizes_eq
  rw [lists.operands_eq, lists.results_eq, lists.reduction_eq]
  refine ⟨?_, ?_, ?_⟩
  · exact measures_of_sizesOf (.cons (isSizes ▸ measures.lhsSizes)
      (.cons (isSizes ▸ measures.rhsSizes) .nil))
  · exact measures_of_sizesOf (.cons (isSizes ▸ resultSizes) .nil)
  · intro factor below
    rw [factorCount, isSizes] at below
    simpa [InResult, lists.results_eq, factors_ofFactors] using measures.summed factor below

theorem product?_covers_iff {factors : ProductFactors} {result : Shape} {batchCount : Nat}
    (synthesized : product? factors result = some rule) :
    rule.Covers batchCount ↔ factors.Covers batchCount := by
  obtain ⟨-, lists⟩ := product?_eq_some synthesized
  have isReduction := lists.reduction_eq
  have operands {factor : Nat} : (∀ mapping ∈ rule.operands, factor ∈ mapping.factors) ↔
      factor ∈ factors.lhs ∧ factor ∈ factors.rhs := by
    simp [lists.operands_eq, factors_ofFactors]
  have someOperand {factor : Nat} : (∃ mapping ∈ rule.operands, factor ∈ mapping.factors) ↔
      factor ∈ factors.lhs ∨ factor ∈ factors.rhs := by
    simp [lists.operands_eq, factors_ofFactors]
  have inResult {factor : Nat} : rule.InResult factor ↔ factor ∈ factors.result := by
    simp [InResult, lists.results_eq, factors_ofFactors]
  constructor
  · rintro ⟨summed, kept, batched⟩
    refine ⟨fun factor isSummed => ?_, fun factor isKept => ?_, fun factor below => ?_⟩
    · exact operands.mp (summed factor (isReduction ▸ isSummed))
    · exact someOperand.mp (kept factor (inResult.mpr isKept))
    · exact operands.mp (batched factor below)
  · rintro ⟨summed, kept, batched⟩
    refine ⟨fun factor isSummed => ?_, fun factor isKept => ?_, fun factor below => ?_⟩
    · exact operands.mpr (summed factor (isReduction ▸ isSummed))
    · exact someOperand.mpr (kept factor (inResult.mp isKept))
    · exact operands.mpr (batched factor below)

theorem dotFactors?_measures {lhs rhs : Shape} {factors : ProductFactors}
    (isSome : dotFactors? lhs rhs = some factors) : factors.Measures lhs rhs := by
  refine dotFactors?_cases isSome ?_ ?_ ?_ ?_
  all_goals
    intros
    refine ⟨rfl, rfl, ?_⟩
    simp only [List.length_cons, List.length_nil]
    decide

theorem dotFactors?_covers {lhs rhs : Shape} {factors : ProductFactors}
    (isSome : dotFactors? lhs rhs = some factors) : factors.Covers 0 := by
  refine dotFactors?_cases isSome ?_ ?_ ?_ ?_
  all_goals
    intros
    exact ⟨by simp, by simp, by simp⟩

/-! ## General products -/

/-- The free dimensions have the sizes that they are listed with. -/
theorem sizesOf_freeDims (shape : Shape) (batch contract : List Nat) :
    SizesOf shape ((freeDims shape batch contract).map Prod.snd)
      ((freeDims shape batch contract).map Prod.fst) := by
  rw [SizesOf, List.map_map, List.map_map]
  apply List.map_congr_left
  intro entry inFree
  exact List.mem_zipIdx_iff_getElem?.mp (List.mem_filter.mp inFree).1

/-- The sizes of a group of dimensions stand among those of all factors where its numbers begin. -/
theorem size_of_group {shape sizes dims group : List Nat} {start : Nat} (front back : List Nat)
    (groupSizes : SizesOf shape dims group) (isSizes : sizes = front ++ (group ++ back))
    (isStart : front.length = start) {entry : Nat × Nat} (member : entry ∈ dims.zipIdx start) :
    sizes[entry.2]? = shape[entry.1]? := by
  obtain ⟨low, isDim⟩ := List.mem_zipIdx_iff_le_and_getElem?_sub.mp member
  have read := congrArg (·[entry.2 - start]?) groupSizes
  simp only [List.getElem?_map, isDim, Option.map_some] at read
  cases isSize : group[entry.2 - start]? with
  | none => simp [isSize] at read
  | some size =>
    have inGroup := (List.getElem?_eq_some_iff.mp isSize).1
    rw [isSizes, List.getElem?_append_right (by omega), isStart,
      List.getElem?_append_left inGroup, isSize]
    simpa [isSize, eq_comm] using read

/-- Factors that each have the size of the dimension they are given to. -/
theorem sizesOf_assignedFactors? {shape sizes factors : List Nat} {assigned : List (Nat × Nat)}
    (isSome : assignedFactors? shape.length assigned = some factors)
    (sized : ∀ entry ∈ assigned, sizes[entry.2]? = shape[entry.1]?) :
    SizesOf sizes factors shape := by
  apply List.ext_getElem
  · rw [List.length_map, List.length_map, length_assignedFactors? isSome]
  · intro dim below _
    rw [List.length_map] at below
    rw [List.getElem_map, List.getElem_map,
      sized _ (mem_assigned isSome (List.getElem?_eq_getElem below)), List.getElem?_eq_getElem]

/-- An operand of a general product has its sizes, whatever stands between the groups of its
dimensions. -/
theorem sizesOf_operandFactors {shape factors batchDims contractDims batch contract : List Nat}
    (before after : List Nat) (batchSizes : SizesOf shape batchDims batch)
    (contractSizes : SizesOf shape contractDims contract) {freeStart contractStart : Nat}
    (isSome : assignedFactors? shape.length
      (operandFactors shape batchDims contractDims freeStart contractStart) = some factors)
    (isFree : batch.length + before.length = freeStart)
    (isContract : freeStart + (freeDims shape batchDims contractDims).length + after.length =
      contractStart) :
    SizesOf (batch ++ (before ++ ((freeDims shape batchDims contractDims).map Prod.fst ++
      (after ++ contract)))) factors shape := by
  apply sizesOf_assignedFactors? isSome
  intro entry member
  rcases List.mem_append.mp member with inFront | inContract
  · rcases List.mem_append.mp inFront with inBatch | inFree
    · exact size_of_group [] _ batchSizes rfl rfl inBatch
    · refine size_of_group (batch ++ before) _ (sizesOf_freeDims ..)
        (List.append_assoc ..).symm ?_ inFree
      rw [List.length_append, isFree]
  · refine size_of_group
      (batch ++ before ++ (freeDims shape batchDims contractDims).map Prod.fst ++ after) []
      contractSizes ?_ ?_ inContract
    · simp only [List.append_assoc, List.append_nil]
    · simp only [List.length_append, List.length_map]
      omega

/-- An operand that has the factors of all its batching and contracting entries lists no dimension
twice: two entries for one dimension would both decide. -/
theorem nodup_of_operandFactors {shape : Shape} {batch contract factors : List Nat}
    {freeStart contractStart : Nat}
    (isSome : assignedFactors? shape.length
      (operandFactors shape batch contract freeStart contractStart) = some factors)
    (batchBelow : batch.length ≤ freeStart)
    (freeBelow : freeStart + (freeDims shape batch contract).length ≤ contractStart)
    (present : ∀ entry ∈ batch.zipIdx ++ contract.zipIdx contractStart, entry.2 ∈ factors) :
    (batch ++ contract).Nodup := by
  have distinct :
      ((operandFactors shape batch contract freeStart contractStart).map Prod.snd).Nodup :=
    numbered_nodup batchBelow (by rwa [List.length_map])
  have listed : (batch.zipIdx ++ contract.zipIdx contractStart).Sublist
      (operandFactors shape batch contract freeStart contractStart) :=
    (List.sublist_append_left _ _).append_right _
  have decides : ∀ entry ∈ batch.zipIdx ++ contract.zipIdx contractStart,
      (operandFactors shape batch contract freeStart contractStart).reverse.lookup entry.1 =
        some entry.2 := by
    intro entry member
    obtain ⟨dim, isFactor⟩ := List.getElem?_of_mem (present entry member)
    have isFound := ((getElem?_assignedFactors? isSome).mp isFactor).2
    have sameEntry : (dim, entry.2) = entry :=
      List.inj_on_of_nodup_map distinct (mem_assigned isSome isFactor) (listed.subset member) rfl
    rwa [← congrArg Prod.fst sameEntry]
  have apart : (batch.zipIdx ++ contract.zipIdx contractStart).Nodup :=
    (List.Nodup.of_map _ distinct).sublist listed
  have once := List.Nodup.map_on (f := Prod.fst) ?_ apart
  · rwa [List.map_append, List.zipIdx_map_fst, List.zipIdx_map_fst] at once
  · intro first isFirst second isSecond sameDim
    have sameFactor := decides first isFirst
    rw [sameDim, decides second isSecond] at sameFactor
    exact Prod.ext sameDim (Option.some.inj sameFactor).symm

namespace IsGeneral

variable {numbers : DotNumbers} {lhs rhs : Shape} {batch contract : List Nat}
  {factors : ProductFactors}

theorem measures (general : IsGeneral numbers lhs rhs batch contract factors) :
    factors.Measures lhs rhs := by
  obtain ⟨lhsBatchSizes, rhsBatchSizes⟩ := general.batchSizes
  obtain ⟨lhsContractSizes, rhsContractSizes⟩ := general.contractSizes
  have batchLength := lhsBatchSizes.length_eq.symm
  refine ⟨?_, ?_, ?_⟩
  · rw [general.isSizes]
    simp only [List.append_assoc]
    apply sizesOf_operandFactors [] _ lhsBatchSizes lhsContractSizes general.isLhs batchLength
    rw [List.length_map, contractStart, rhsStart]
  · rw [general.isSizes]
    simp only [List.append_assoc]
    apply sizesOf_operandFactors _ [] rhsBatchSizes rhsContractSizes general.isRhs _ rfl
    rw [List.length_map, batchLength, rhsStart]
  · intro factor below
    rw [general.sizes_length] at below
    rw [general.isReduction, general.isResult, List.mem_range'_1, List.mem_range]
    omega

/-- If no dimension is listed twice, each operand has the factors of all its groups. -/
theorem covers_of_listsOnce (general : IsGeneral numbers lhs rhs batch contract factors)
    (once : numbers.ListsOnce) : factors.Covers numbers.lhsBatch.length := by
  have batchBelow : numbers.lhsBatch.length ≤ rhsStart numbers lhs := Nat.le_add_right ..
  have freeBelow : rhsStart numbers lhs ≤ contractStart numbers lhs rhs := Nat.le_add_right ..
  have count := general.sizes_length
  refine ⟨fun factor isSummed => ?_, fun factor isKept => ?_, fun factor below => ?_⟩
  · rw [general.isReduction, List.mem_range'_1] at isSummed
    exact ⟨general.mem_lhs once (by omega) (.inr isSummed.1),
      general.mem_rhs once (by omega) (.inr (Nat.le_trans freeBelow isSummed.1))⟩
  · rw [general.isResult, List.mem_range] at isKept
    by_cases ofLhs : factor < rhsStart numbers lhs
    · exact .inl (general.mem_lhs once (by omega) (.inl ofLhs))
    · exact .inr (general.mem_rhs once (by omega) (.inr (Nat.le_of_not_lt ofLhs)))
  · exact ⟨general.mem_lhs once (by omega) (.inl (by omega)),
      general.mem_rhs once (by omega) (.inl below)⟩

/-- If each operand has the factors of its batching and contracting dimensions, no dimension is
listed twice. -/
theorem listsOnce_of_covers (general : IsGeneral numbers lhs rhs batch contract factors)
    (covers : factors.Covers numbers.lhsBatch.length) : numbers.ListsOnce := by
  have both {entry : Nat × Nat} {batchDims contractDims : List Nat}
      (batchCount : batchDims.length = numbers.lhsBatch.length)
      (contractCount : contractDims.length = numbers.lhsContract.length)
      (member : entry ∈ batchDims.zipIdx ++
        contractDims.zipIdx (contractStart numbers lhs rhs)) :
      entry.2 ∈ factors.lhs ∧ entry.2 ∈ factors.rhs := by
    rcases List.mem_append.mp member with inBatch | inContract
    · have below := List.snd_lt_of_mem_zipIdx inBatch
      exact covers.batched _ (by omega)
    · have low := List.le_snd_of_mem_zipIdx inContract
      have below := List.snd_lt_add_of_mem_zipIdx inContract
      apply covers.summed
      rw [general.isReduction, List.mem_range'_1]
      omega
  constructor
  · exact nodup_of_operandFactors general.isLhs (Nat.le_refl _)
      (Nat.le_add_right ..) fun entry member => (both rfl rfl member).1
  · refine nodup_of_operandFactors general.isRhs ?_ (Nat.le_refl _) fun entry member =>
      (both general.batchCount.symm general.contractCount.symm member).2
    rw [← general.batchCount]
    exact Nat.le_add_right ..

end IsGeneral

/-! ## All kinds -/

/-- **A synthesised rule describes the shapes,** and its operands have the factors of the result and
of the reduction exactly if a general product lists no dimension of an operand twice. -/
theorem ofKind?_describes_covers_iff {kind : OperationKind} {operands results : List Shape}
    (synthesized : ofKind? kind operands results = some rule) :
    rule.Describes operands results ∧ (rule.Covers kind.batchCount ↔ kind.ListsOnce) := by
  obtain ⟨isSimple, suits⟩ := ofKind?_isSimple synthesized
  have ofTotal (total : rule.Total ∧ List.Forall₂ rule.Measures rule.operands operands ∧
      List.Forall₂ rule.Measures rule.results results) :
      rule.Describes operands results ∧ (rule.Covers 0 ↔ True) :=
    ⟨⟨suits, total.2.1, total.2.2, isSimple.1, fun _ below => total.1.summed below⟩,
      iff_true_intro total.1.covers⟩
  cases kind with
  | elementwise function => exact ofTotal (elementwise?_total synthesized)
  | transpose permutation => exact ofTotal (transpose?_total synthesized)
  | dot =>
    obtain ⟨lhs, rhs, result, factors, rfl, rfl, isSome, isRule⟩ := dot?_eq_some synthesized
    obtain ⟨operandSizes, resultSizes, summed⟩ :=
      product?_measures (dotFactors?_measures isSome) isRule
    refine ⟨⟨suits, operandSizes, resultSizes, isSimple.1, summed⟩, iff_true_intro ?_⟩
    exact (product?_covers_iff isRule).mpr (dotFactors?_covers isSome)
  | dotGeneral numbers =>
    obtain ⟨lhs, rhs, result, batch, contract, factors, rfl, rfl, general, isRule⟩ :=
      dotGeneral?_eq_some synthesized
    obtain ⟨operandSizes, resultSizes, summed⟩ := product?_measures general.measures isRule
    refine ⟨⟨suits, operandSizes, resultSizes, isSimple.1, summed⟩, ?_⟩
    exact (product?_covers_iff isRule).trans
      ⟨general.listsOnce_of_covers, general.covers_of_listsOnce⟩
  | custom name => cases synthesized
  | reshard => cases synthesized
  | exit => cases synthesized

/-- A batch of two products of matrices: the operands have what they share and sum over. -/
theorem batched_product_covered :
    ∃ rule, ofKind? (.dotGeneral ⟨[0], [0], [2], [1]⟩) [[2, 4, 8], [2, 8, 16]] [[2, 4, 16]] =
        some rule ∧
      rule.Describes [[2, 4, 8], [2, 8, 16]] [[2, 4, 16]] ∧ rule.Covers 1 := by
  have isSome : (ofKind? (.dotGeneral ⟨[0], [0], [2], [1]⟩) [[2, 4, 8], [2, 8, 16]]
      [[2, 4, 16]]).isSome := by decide
  obtain ⟨rule, synthesized⟩ := Option.isSome_iff_exists.mp isSome
  obtain ⟨describes, covers⟩ := ofKind?_describes_covers_iff synthesized
  exact ⟨rule, synthesized, describes, covers.mpr (by decide)⟩

/-- A product of vectors whose dimension is listed for batching and for contracting has a rule, and
the factor of the result is in neither operand. -/
theorem repeated_dimension_uncovered :
    ∃ rule, ofKind? (.dotGeneral ⟨[0], [0], [0], [0]⟩) [[4], [4]] [[4]] = some rule ∧
      rule.InResult 0 ∧ ∀ mapping ∈ rule.operands, 0 ∉ mapping.factors := by
  have found : (ofKind? (.dotGeneral ⟨[0], [0], [0], [0]⟩) [[4], [4]] [[4]]).any (fun rule =>
      decide (rule.InResult 0 ∧ ∀ mapping ∈ rule.operands, 0 ∉ mapping.factors)) := by decide
  obtain ⟨rule, synthesized, holds⟩ := (Option.any_eq_true _ _).mp found
  exact ⟨rule, synthesized, of_decide_eq_true holds⟩

end FactorRule

end MeshSharding
