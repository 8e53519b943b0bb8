import MeshSharding.Rule.Synthesis
import MeshSharding.Proofs.ListsAndChecks

/-!
# What a synthesised rule lists

A synthesised rule lists one factor for every dimension of every tensor
(`Lists`). Which ones is said here, once for every function that synthesises
rules, together with what the function asks of the shapes. All properties of
synthesised rules are read off these lists.

The lists of a general product are built from the dimensions of an operand in
three groups, batching, free and contracting ones, each numbered from somewhere
on (`operandFactors`). Of several entries for one dimension the last one decides.
-/

set_option autoImplicit false

namespace MeshSharding

namespace FactorRule

variable {rule : FactorRule}

/-! ## Lists of factors -/

theorem factors_ofFactors (factors : List Nat) :
    (TensorMapping.ofFactors factors).factors = factors := by
  rw [TensorMapping.factors, TensorMapping.ofFactors, ← List.flatMap_def, List.flatMap_singleton']

/-- The rule has these sizes, lists these factors for the dimensions of operands and results, and
sums over these. -/
structure Lists (rule : FactorRule) (sizes : List Nat) (operands results : List (List Nat))
    (reduction : List Nat) : Prop where
  sizes_eq : rule.sizes = sizes
  operands_eq : rule.operands = operands.map TensorMapping.ofFactors
  results_eq : rule.results = results.map TensorMapping.ofFactors
  reduction_eq : rule.reduction = reduction

section Lists

variable {sizes : List Nat} {operands results : List (List Nat)} {reduction : List Nat}

theorem Lists.mem_operands (lists : rule.Lists sizes operands results reduction)
    {factors : List Nat} (member : factors ∈ operands) :
    TensorMapping.ofFactors factors ∈ rule.operands := by
  rw [lists.operands_eq]
  exact List.mem_map_of_mem member

theorem Lists.mem_results (lists : rule.Lists sizes operands results reduction)
    {factors : List Nat} (member : factors ∈ results) :
    TensorMapping.ofFactors factors ∈ rule.results := by
  rw [lists.results_eq]
  exact List.mem_map_of_mem member

/-- A rule built from mappings that list factors lists these, and sums over nothing. -/
theorem lists_ofMappings (built : ofMappings sizes (operands.map TensorMapping.ofFactors)
      (results.map TensorMapping.ofFactors) = .ok rule) : rule.Lists sizes operands results [] := by
  unfold ofMappings at built
  split at built
  · cases built
  · cases built
    exact ⟨rfl, rfl, rfl, rfl⟩

/-- Naming the factors of a reduction changes nothing else. -/
theorem Lists.withReduction (lists : rule.Lists sizes operands results reduction)
    {reduced : FactorRule} {summed : List Nat} (built : rule.withReduction summed = .ok reduced) :
    reduced.Lists sizes operands results summed := by
  unfold FactorRule.withReduction at built
  split at built
  · cases built
  · cases built
    exact ⟨lists.sizes_eq, lists.operands_eq, lists.results_eq, rfl⟩

end Lists

/-- The dimensions of a shape have the sizes of the listed factors. -/
def SizesOf (sizes factors : List Nat) (shape : Shape) : Prop :=
  factors.map (sizes[·]?) = shape.map some

theorem SizesOf.length_eq {sizes factors : List Nat} {shape : Shape}
    (sized : SizesOf sizes factors shape) : factors.length = shape.length := by
  have counts := congrArg List.length sized
  rwa [List.length_map, List.length_map] at counts

/-- Factors that have sizes are declared. -/
theorem SizesOf.lt {sizes factors : List Nat} {shape : Shape}
    (sized : SizesOf sizes factors shape) : ∀ factor ∈ factors, factor < sizes.length := by
  intro factor member
  have isRead : sizes[factor]? ∈ shape.map some := sized ▸ List.mem_map_of_mem member
  obtain ⟨size, -, isSize⟩ := List.mem_map.mp isRead
  exact (List.getElem?_eq_some_iff.mp isSize.symm).1

/-- The first sizes are those of the first factors. -/
theorem sizesOf_range_append (sizes others : List Nat) :
    SizesOf (sizes ++ others) (List.range sizes.length) sizes := by
  apply List.ext_getElem
  · simp
  · intro factor below _
    rw [List.length_map, List.length_range] at below
    rw [List.getElem_map, List.getElem_map, List.getElem_range, List.getElem?_append_left below,
      List.getElem?_eq_getElem below]

/-! ## Elementwise operations and transpositions -/

theorem elementwise?_eq_some {operands results : List Shape}
    (synthesized : elementwise? operands results = some rule) :
    ∃ shape, results = [shape] ∧ operands ≠ [] ∧ (∀ operand ∈ operands, operand = shape) ∧
      rule.Lists shape (operands.map fun _ => List.range shape.length)
        [List.range shape.length] [] := by
  unfold elementwise? at synthesized
  split at synthesized
  · rename_i shape
    split at synthesized
    · rename_i sameShapes
      refine ⟨shape, rfl, sameShapes.1, sameShapes.2, lists_ofMappings ?_⟩
      rw [List.map_map]
      exact eq_ok_of_toOption_eq_some synthesized
    · cases synthesized
  · cases synthesized

theorem transpose?_eq_some {permutation : List Nat} {operands results : List Shape}
    (synthesized : transpose? permutation operands results = some rule) :
    ∃ operand result, operands = [operand] ∧ results = [result] ∧
      permutation.length = operand.length ∧ permutation.Nodup ∧
      SizesOf operand permutation result ∧
      rule.Lists operand [List.range operand.length] [permutation] [] := by
  unfold transpose? at synthesized
  split at synthesized
  · rename_i operand result
    split at synthesized
    · rename_i permutes
      exact ⟨operand, result, rfl, rfl, permutes.1, permutes.2.1, permutes.2.2,
        lists_ofMappings (eq_ok_of_toOption_eq_some synthesized)⟩
    · cases synthesized
  · cases synthesized

/-! ## Products -/

theorem product?_eq_some {factors : ProductFactors} {result : Shape}
    (synthesized : product? factors result = some rule) :
    SizesOf factors.sizes factors.result result ∧
      rule.Lists factors.sizes [factors.lhs, factors.rhs] [factors.result] factors.reduction := by
  unfold product? at synthesized
  split at synthesized
  · rename_i resultSizes
    obtain ⟨mapped, isMapped, isReduced⟩ :=
      bind_eq_ok_iff.mp (eq_ok_of_toOption_eq_some synthesized)
    exact ⟨resultSizes, (lists_ofMappings isMapped).withReduction isReduced⟩
  · cases synthesized

theorem dot?_eq_some {operands results : List Shape}
    (synthesized : dot? operands results = some rule) :
    ∃ lhs rhs result factors, operands = [lhs, rhs] ∧ results = [result] ∧
      dotFactors? lhs rhs = some factors ∧ product? factors result = some rule := by
  unfold dot? at synthesized
  split at synthesized
  · obtain ⟨factors, isSome, isRule⟩ := Option.bind_eq_some_iff.mp synthesized
    exact ⟨_, _, _, factors, rfl, rfl, isSome, isRule⟩
  · cases synthesized

/-- The products of matrices and vectors, case by case. -/
@[elab_as_elim]
theorem dotFactors?_cases {motive : Shape → Shape → ProductFactors → Prop} {lhs rhs : Shape}
    {factors : ProductFactors} (isSome : dotFactors? lhs rhs = some factors)
    (matrices : ∀ rows inner columns, motive [rows, inner] [inner, columns]
      ⟨[rows, columns, inner], [0, 2], [2, 1], [0, 1], [2]⟩)
    (matrixVector : ∀ rows inner, motive [rows, inner] [inner]
      ⟨[rows, inner], [0, 1], [1], [0], [1]⟩)
    (vectorMatrix : ∀ inner columns, motive [inner] [inner, columns]
      ⟨[columns, inner], [1], [1, 0], [0], [1]⟩)
    (vectors : ∀ inner, motive [inner] [inner] ⟨[inner], [0], [0], [], [0]⟩) :
    motive lhs rhs factors := by
  unfold dotFactors? at isSome
  split at isSome
  case h_5 => cases isSome
  all_goals
    split at isSome
    · rename_i sameInner
      cases isSome
      rw [← sameInner]
      first
        | exact matrices _ _ _
        | exact matrixVector _ _
        | exact vectorMatrix _ _
        | exact vectors _
    · cases isSome

/-- The sizes of paired dimensions are their sizes in both tensors. -/
theorem sizesOf_pairedSizes? {lhs rhs : Shape} {lhsDims rhsDims sizes : List Nat}
    (sameCount : lhsDims.length = rhsDims.length)
    (isSome : pairedSizes? lhs rhs lhsDims rhsDims = some sizes) :
    SizesOf lhs lhsDims sizes ∧ SizesOf rhs rhsDims sizes := by
  induction lhsDims generalizing rhsDims sizes with
  | nil =>
    rw [List.length_eq_zero_iff.mp sameCount.symm] at isSome ⊢
    cases isSome
    exact ⟨rfl, rfl⟩
  | cons lhsDim lhsDims ih =>
    cases rhsDims with
    | nil => cases sameCount
    | cons rhsDim rhsDims =>
      simp only [pairedSizes?, Option.bind_eq_bind, Option.bind_eq_some_iff] at isSome
      obtain ⟨size, isSize, chain⟩ := isSome
      split at chain
      · rename_i alsoSize
        obtain ⟨later, isLater, isSizes⟩ := Option.bind_eq_some_iff.mp chain
        cases isSizes
        obtain ⟨lhsSizes, rhsSizes⟩ := ih (Nat.succ.inj sameCount) isLater
        exact ⟨congrArg₂ List.cons isSize lhsSizes, congrArg₂ List.cons alsoSize rhsSizes⟩
      · cases chain

/-! ## Factors of dimensions -/

/-- If no dimension is assigned twice, an entry for a dimension decides. -/
theorem lookup_reverse_of_mem {assigned : List (Nat × Nat)}
    (distinct : (assigned.map Prod.fst).Nodup) {dim factor : Nat}
    (member : (dim, factor) ∈ assigned) : assigned.reverse.lookup dim = some factor := by
  obtain ⟨front, back, isSplit⟩ := List.append_of_mem (List.mem_reverse.mpr member)
  refine List.lookup_eq_some_iff.mpr ⟨front, back, isSplit, ?_⟩
  intro entry inFront
  have reversed : (assigned.reverse.map Prod.fst).Nodup := by
    rwa [List.map_reverse, List.nodup_reverse]
  rw [isSplit, List.map_append] at reversed
  have apart := (List.nodup_append.mp reversed).2.2 entry.1 (List.mem_map_of_mem inFront) dim
    (List.mem_cons_self ..)
  exact bne_iff_ne.mpr apart.symm

section Assigned

variable {rank : Nat} {assigned : List (Nat × Nat)} {factors : List Nat}
  (isSome : assignedFactors? rank assigned = some factors)
include isSome

/-- Every dimension has a factor. -/
theorem length_assignedFactors? : factors.length = rank := by
  rw [← (mapM_eq_some_iff.mp isSome).length_eq, List.length_range]

/-- A dimension of a tensor has the factor that is found for it. -/
theorem getElem?_assignedFactors? {dim factor : Nat} :
    factors[dim]? = some factor ↔ dim < rank ∧ assigned.reverse.lookup dim = some factor := by
  have each := mapM_eq_some_iff.mp isSome
  have count := length_assignedFactors? isSome
  have found (below : dim < factors.length) :
      assigned.reverse.lookup dim = some factors[dim] := by
    have read := each.get (by rw [List.length_range]; omega) below
    rwa [List.get_eq_getElem, List.getElem_range, List.get_eq_getElem] at read
  constructor
  · intro isFactor
    obtain ⟨below, rfl⟩ := List.getElem?_eq_some_iff.mp isFactor
    exact ⟨count ▸ below, found below⟩
  · rintro ⟨below, isFound⟩
    rw [found (count ▸ below)] at isFound
    exact List.getElem?_eq_some_iff.mpr ⟨count ▸ below, Option.some.inj isFound⟩

/-- The factor of a dimension is that of an entry for it. -/
theorem mem_assigned {dim factor : Nat} (isFactor : factors[dim]? = some factor) :
    (dim, factor) ∈ assigned := by
  have isFound := ((getElem?_assignedFactors? isSome).mp isFactor).2
  obtain ⟨front, back, isSplit, -⟩ := List.lookup_eq_some_iff.mp isFound
  rw [← List.mem_reverse, isSplit]
  exact List.mem_append_right _ (List.mem_cons_self ..)

end Assigned

/-! ## General products -/

/-- The dimensions of an operand of a general product, and the factors they are given: batching
dimensions from zero on, free ones and contracting ones each from a number on. -/
def operandFactors (shape : Shape) (batch contract : List Nat) (freeStart contractStart : Nat) :
    List (Nat × Nat) :=
  batch.zipIdx ++ ((freeDims shape batch contract).map Prod.snd).zipIdx freeStart ++
    contract.zipIdx contractStart

/-- The first factor of what remains of the right operand of a general product. -/
def rhsStart (numbers : DotNumbers) (lhs : Shape) : Nat :=
  numbers.lhsBatch.length + (freeDims lhs numbers.lhsBatch numbers.lhsContract).length

/-- The first factor that a general product sums over. -/
def contractStart (numbers : DotNumbers) (lhs rhs : Shape) : Nat :=
  rhsStart numbers lhs + (freeDims rhs numbers.rhsBatch numbers.rhsContract).length

/-- The factors of a general product whose paired dimensions have the given sizes. -/
structure IsGeneral (numbers : DotNumbers) (lhs rhs : Shape) (batch contract : List Nat)
    (factors : ProductFactors) : Prop where
  batchCount : numbers.lhsBatch.length = numbers.rhsBatch.length
  contractCount : numbers.lhsContract.length = numbers.rhsContract.length
  isBatch : pairedSizes? lhs rhs numbers.lhsBatch numbers.rhsBatch = some batch
  isContract : pairedSizes? lhs rhs numbers.lhsContract numbers.rhsContract = some contract
  isLhs : assignedFactors? lhs.length (operandFactors lhs numbers.lhsBatch numbers.lhsContract
    numbers.lhsBatch.length (contractStart numbers lhs rhs)) = some factors.lhs
  isRhs : assignedFactors? rhs.length (operandFactors rhs numbers.rhsBatch numbers.rhsContract
    (rhsStart numbers lhs) (contractStart numbers lhs rhs)) = some factors.rhs
  isSizes : factors.sizes =
    batch ++ (freeDims lhs numbers.lhsBatch numbers.lhsContract).map Prod.fst ++
      (freeDims rhs numbers.rhsBatch numbers.rhsContract).map Prod.fst ++ contract
  isResult : factors.result = List.range (contractStart numbers lhs rhs)
  isReduction : factors.reduction =
    List.range' (contractStart numbers lhs rhs) numbers.lhsContract.length

theorem isGeneral_of_eq_some {numbers : DotNumbers} {lhs rhs : Shape} {factors : ProductFactors}
    (isSome : dotGeneralFactors? numbers lhs rhs = some factors) :
    ∃ batch contract, IsGeneral numbers lhs rhs batch contract factors := by
  unfold dotGeneralFactors? at isSome
  simp only [Option.bind_eq_bind] at isSome
  split at isSome
  · cases isSome
  · rename_i sameCounts
    rw [not_or, Decidable.not_not, Decidable.not_not] at sameCounts
    obtain ⟨batch, isBatch, isSome⟩ := Option.bind_eq_some_iff.mp isSome
    obtain ⟨contract, isContract, isSome⟩ := Option.bind_eq_some_iff.mp isSome
    obtain ⟨lhsFactors, isLhs, isSome⟩ := Option.bind_eq_some_iff.mp isSome
    obtain ⟨rhsFactors, isRhs, isSome⟩ := Option.bind_eq_some_iff.mp isSome
    cases isSome
    have batchCount := (sizesOf_pairedSizes? sameCounts.1 isBatch).1.length_eq.symm
    have contractCount := (sizesOf_pairedSizes? sameCounts.2 isContract).1.length_eq.symm
    rw [batchCount] at isLhs isRhs
    refine ⟨batch, contract, sameCounts.1, sameCounts.2, isBatch, isContract, isLhs, isRhs, rfl,
      ?_, ?_⟩
    · rw [batchCount]
      rfl
    · rw [batchCount, contractCount]
      rfl

theorem dotGeneral?_eq_some {numbers : DotNumbers} {operands results : List Shape}
    (synthesized : dotGeneral? numbers operands results = some rule) :
    ∃ lhs rhs result batch contract factors, operands = [lhs, rhs] ∧ results = [result] ∧
      IsGeneral numbers lhs rhs batch contract factors ∧ product? factors result = some rule := by
  unfold dotGeneral? at synthesized
  split at synthesized
  · obtain ⟨factors, isSome, isRule⟩ := Option.bind_eq_some_iff.mp synthesized
    obtain ⟨batch, contract, general⟩ := isGeneral_of_eq_some isSome
    exact ⟨_, _, _, batch, contract, factors, rfl, rfl, general, isRule⟩
  · cases synthesized

namespace IsGeneral

variable {numbers : DotNumbers} {lhs rhs : Shape} {batch contract : List Nat}
  {factors : ProductFactors}

theorem batchSizes (general : IsGeneral numbers lhs rhs batch contract factors) :
    SizesOf lhs numbers.lhsBatch batch ∧ SizesOf rhs numbers.rhsBatch batch :=
  sizesOf_pairedSizes? general.batchCount general.isBatch

theorem contractSizes (general : IsGeneral numbers lhs rhs batch contract factors) :
    SizesOf lhs numbers.lhsContract contract ∧ SizesOf rhs numbers.rhsContract contract :=
  sizesOf_pairedSizes? general.contractCount general.isContract

theorem sizes_length (general : IsGeneral numbers lhs rhs batch contract factors) :
    factors.sizes.length = contractStart numbers lhs rhs + numbers.lhsContract.length := by
  rw [general.isSizes]
  simp only [List.length_append, List.length_map, ← general.batchSizes.1.length_eq,
    ← general.contractSizes.1.length_eq, contractStart, rhsStart]

end IsGeneral

/-! ## Sizes -/

theorem SizesOf.mem {sizes factors : List Nat} {shape : Shape}
    (sized : SizesOf sizes factors shape) : ∀ size ∈ shape, size ∈ sizes := by
  intro size member
  have isRead : some size ∈ factors.map (sizes[·]?) := sized ▸ List.mem_map_of_mem member
  obtain ⟨factor, -, isSize⟩ := List.mem_map.mp isRead
  exact List.mem_of_getElem? isSize

theorem mem_of_freeDims {shape : Shape} {batch contract : List Nat} :
    ∀ size ∈ (freeDims shape batch contract).map Prod.fst, size ∈ shape := by
  refine List.forall_mem_map.mpr fun entry inFree => ?_
  exact List.mem_of_getElem? (List.mem_zipIdx_iff_getElem?.mp (List.mem_filter.mp inFree).1)

theorem IsGeneral.mem_sizes {numbers : DotNumbers} {lhs rhs : Shape} {batch contract : List Nat}
    {factors : ProductFactors} (general : IsGeneral numbers lhs rhs batch contract factors) :
    ∀ size ∈ factors.sizes, size ∈ lhs ∨ size ∈ rhs := by
  rw [general.isSizes]
  simp only [List.forall_mem_append]
  refine ⟨⟨⟨fun size inBatch => ?_, fun size inFree => ?_⟩, fun size inFree => ?_⟩,
    fun size inContract => ?_⟩
  · exact .inl (general.batchSizes.1.mem size inBatch)
  · exact .inl (mem_of_freeDims size inFree)
  · exact .inr (mem_of_freeDims size inFree)
  · exact .inl (general.contractSizes.1.mem size inContract)

theorem dotFactors?_mem_sizes {lhs rhs : Shape} {factors : ProductFactors}
    (isSome : dotFactors? lhs rhs = some factors) :
    ∀ size ∈ factors.sizes, size ∈ lhs ∨ size ∈ rhs := by
  refine dotFactors?_cases isSome ?_ ?_ ?_ ?_
  all_goals grind

/-- The factors of a synthesised rule have sizes of dimensions of the operands. -/
theorem ofKind?_mem_sizes {kind : OperationKind} {operands results : List Shape}
    (synthesized : ofKind? kind operands results = some rule) :
    ∀ size ∈ rule.sizes, ∃ operand ∈ operands, size ∈ operand := by
  have ofEither {lhs rhs : Shape} {factors : ProductFactors} {result : Shape}
      (isRule : product? factors result = some rule)
      (either : ∀ size ∈ factors.sizes, size ∈ lhs ∨ size ∈ rhs) :
      ∀ size ∈ rule.sizes, ∃ operand ∈ [lhs, rhs], size ∈ operand := by
    intro size member
    rw [(product?_eq_some isRule).2.sizes_eq] at member
    rcases either size member with inLhs | inRhs
    · exact ⟨lhs, List.mem_cons_self, inLhs⟩
    · exact ⟨rhs, List.mem_cons_of_mem _ List.mem_cons_self, inRhs⟩
  intro size member
  cases kind with
  | elementwise function =>
    obtain ⟨shape, -, notEmpty, sameShapes, lists⟩ := elementwise?_eq_some synthesized
    obtain ⟨operand, isOperand⟩ := List.exists_mem_of_ne_nil operands notEmpty
    refine ⟨operand, isOperand, ?_⟩
    rwa [sameShapes operand isOperand, ← lists.sizes_eq]
  | transpose permutation =>
    obtain ⟨operand, result, rfl, -, -, -, -, lists⟩ := transpose?_eq_some synthesized
    exact ⟨operand, List.mem_cons_self, lists.sizes_eq ▸ member⟩
  | dot =>
    obtain ⟨lhs, rhs, result, factors, rfl, -, isSome, isRule⟩ := dot?_eq_some synthesized
    exact ofEither isRule (dotFactors?_mem_sizes isSome) size member
  | dotGeneral numbers =>
    obtain ⟨lhs, rhs, result, batch, contract, factors, rfl, -, general, isRule⟩ :=
      dotGeneral?_eq_some synthesized
    exact ofEither isRule general.mem_sizes size member
  | custom name => cases synthesized
  | reshard => cases synthesized
  | exit => cases synthesized

end FactorRule

end MeshSharding
