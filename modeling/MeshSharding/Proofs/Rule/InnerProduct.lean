import MeshSharding.Rule.Synthesis
import MeshSharding.Proofs.Rule.Synthesis

/-!
# Inner products

A product of matrices or vectors sums over the last dimension of its left
operand and the first of its right one. As a general product it has no batching
dimensions and one pair of contracting ones (`DotNumbers.inner`).

The factors of such a general product can be written down for operands of any
rank: those of the left operand but the last, those of the right operand but the
first, and the one summed over (`dotGeneralFactors?_inner`). For vectors and
matrices these are the factors that are listed for products of matrices or
vectors, so that both kinds of operation have the same rule, or both have none
(`Signature.rule?_dot_eq_dotGeneral`).
-/

set_option autoImplicit false

namespace MeshSharding

/-- The last dimension of a left operand of the given rank is summed over, with the first dimension
of the right operand. -/
def DotNumbers.inner (lhsRank : Nat) : DotNumbers where
  lhsBatch := []
  rhsBatch := []
  lhsContract := [lhsRank - 1]
  rhsContract := [0]

namespace FactorRule

/-- The factors of a product summed over a dimension of the given size, from what is before it in
the left operand and what is behind it in the right one. -/
def ProductFactors.inner (front back : Shape) (size : Nat) : ProductFactors where
  sizes := front ++ back ++ [size]
  lhs := List.range front.length ++ [front.length + back.length]
  rhs := (front.length + back.length) :: List.range' front.length back.length
  result := List.range (front.length + back.length)
  reduction := [front.length + back.length]

/-! ## As a general product -/

/-- Entries for all dimensions, in any order, give every dimension its factor. -/
theorem assignedFactors?_of_perm {rank : Nat} {assigned : List (Nat × Nat)} {factors : List Nat}
    (count : factors.length = rank)
    (inSomeOrder : assigned.Perm ((List.range rank).zip factors)) :
    assignedFactors? rank assigned = some factors := by
  have sameCount : (List.range rank).length = factors.length := by rw [List.length_range, count]
  have distinct : (assigned.map Prod.fst).Nodup := by
    rw [(inSomeOrder.map Prod.fst).nodup_iff, List.map_fst_zip (Nat.le_of_eq sameCount)]
    exact List.nodup_range
  refine mapM_eq_some_iff.mpr (List.forall₂_iff_zip.mpr ⟨sameCount, fun member => ?_⟩)
  exact lookup_reverse_of_mem distinct (inSomeOrder.mem_iff.mpr member)

theorem freeDims_last (front : Shape) (inner : Nat) :
    freeDims (front ++ [inner]) [] [front.length] = front.zipIdx := by
  have areFree : front.zipIdx.filter
      (fun entry => decide (entry.2 ∉ ([] : List Nat) ∧ entry.2 ∉ [front.length])) =
        front.zipIdx := by
    refine List.filter_eq_self.mpr fun entry member => decide_eq_true ⟨List.not_mem_nil, ?_⟩
    have below := List.snd_lt_of_mem_zipIdx member
    rw [List.mem_singleton]
    omega
  rw [freeDims, List.zipIdx_append, List.filter_append, areFree]
  simp

theorem freeDims_first (inner : Nat) (back : Shape) :
    freeDims (inner :: back) [] [0] = back.zipIdx 1 := by
  rw [freeDims, List.zipIdx_cons, List.filter_cons_of_neg (by simp)]
  refine List.filter_eq_self.mpr fun entry member => decide_eq_true ⟨List.not_mem_nil, ?_⟩
  have above := List.le_snd_of_mem_zipIdx member
  rw [List.mem_singleton]
  omega

/-- The dimensions of a left operand are numbered in order, and the last one has the factor summed
over. -/
theorem assignedFactors?_last (count summed : Nat) :
    assignedFactors? (count + 1) ((List.range' 0 count).zipIdx ++ [(count, summed)]) =
      some (List.range count ++ [summed]) := by
  refine assignedFactors?_of_perm (by simp) ?_
  rw [List.range_succ, List.zip_append rfl, List.zipIdx_eq_zip_range', List.length_range',
    ← List.range_eq_range']
  exact .rfl

/-- The first dimension of a right operand has the factor summed over, and the others are numbered
in order. -/
theorem assignedFactors?_first (count start summed : Nat) :
    assignedFactors? (count + 1) ((List.range' 1 count).zipIdx start ++ [(0, summed)]) =
      some (summed :: List.range' start count) := by
  refine assignedFactors?_of_perm (by simp) ?_
  rw [List.range_eq_range', List.range'_succ, List.zip_cons_cons, List.zipIdx_eq_zip_range',
    List.length_range']
  exact List.perm_append_singleton ..

theorem pairedSizes?_inner (front back : Shape) (inner inner' : Nat) :
    pairedSizes? (front ++ [inner]) (inner' :: back) [front.length] [0] =
      if inner = inner' then some [inner] else none := by
  simp only [pairedSizes?, List.getElem?_concat_length, List.getElem?_cons_zero, Option.some.injEq,
    eq_comm (a := inner')]
  rfl

/-- The factors of a general product that sums over the last and the first dimension. -/
theorem dotGeneralFactors?_inner (front back : Shape) (inner inner' : Nat) :
    dotGeneralFactors? (.inner (front.length + 1)) (front ++ [inner]) (inner' :: back) =
      if inner = inner' then some (.inner front back inner) else none := by
  have lhsFactors := assignedFactors?_last front.length (front.length + back.length)
  have rhsFactors := assignedFactors?_first back.length front.length (front.length + back.length)
  unfold dotGeneralFactors?
  simp only [DotNumbers.inner, Nat.add_sub_cancel, pairedSizes?_inner, freeDims_last,
    freeDims_first]
  by_cases same : inner = inner'
  · subst same
    simp [pairedSizes?, lhsFactors, rhsFactors, ProductFactors.inner]
  · simp [same, pairedSizes?]

/-! ## As a product of matrices or vectors -/

/-- Vectors and matrices have at most one dimension that is not summed over. -/
theorem dotFactors?_inner {front back : Shape} (frontCount : front.length ≤ 1)
    (backCount : back.length ≤ 1) (inner inner' : Nat) :
    dotFactors? (front ++ [inner]) (inner' :: back) =
      if inner = inner' then some (.inner front back inner) else none := by
  match front, back with
  | [], [] => rfl
  | [], [columns] => rfl
  | [rows], [] => rfl
  | [rows], [columns] => rfl

theorem exists_inner {lhs rhs : Shape} (lhsHasDims : lhs ≠ []) (rhsHasDims : rhs ≠ []) :
    ∃ front inner inner' back, lhs = front ++ [inner] ∧ rhs = inner' :: back := by
  obtain ⟨inner', back, isRhs⟩ := List.exists_cons_of_ne_nil rhsHasDims
  exact ⟨lhs.dropLast, lhs.getLast lhsHasDims, inner', back,
    (List.dropLast_append_getLast lhsHasDims).symm, isRhs⟩

/-- A tensor of rank one or two has a dimension that is summed over. -/
theorem ne_nil_of_rank {shape : Shape} (rank : shape.length = 1 ∨ shape.length = 2) :
    shape ≠ [] := by
  rintro rfl
  simp at rank

theorem dotFactors?_eq_dotGeneralFactors? {lhs rhs : Shape}
    (lhsRank : lhs.length = 1 ∨ lhs.length = 2) (rhsRank : rhs.length = 1 ∨ rhs.length = 2) :
    dotFactors? lhs rhs = dotGeneralFactors? (.inner lhs.length) lhs rhs := by
  obtain ⟨front, inner, inner', back, rfl, rfl⟩ :=
    exists_inner (ne_nil_of_rank lhsRank) (ne_nil_of_rank rhsRank)
  simp only [List.length_append, List.length_cons, List.length_nil] at lhsRank rhsRank
  rw [dotFactors?_inner (by omega) (by omega), List.length_append, List.length_singleton,
    dotGeneralFactors?_inner]

theorem dot?_eq_dotGeneral? {lhs rhs : Shape} (lhsRank : lhs.length = 1 ∨ lhs.length = 2)
    (rhsRank : rhs.length = 1 ∨ rhs.length = 2) (results : List Shape) :
    dot? [lhs, rhs] results = dotGeneral? (.inner lhs.length) [lhs, rhs] results := by
  match results with
  | [result] =>
    change (dotFactors? lhs rhs).bind (product? · result) = _
    rw [dotFactors?_eq_dotGeneralFactors? lhsRank rhsRank]
    rfl
  | [] => rfl
  | _ :: _ :: _ => rfl

/-! ## When there is a rule -/

/-- Mappings make a rule if their factors are declared. -/
theorem exists_ofMappings {sizes : List Nat} {operands results : List TensorMapping}
    (declared : ∀ mapping ∈ operands ++ results, ∀ factor ∈ mapping.factors,
      factor < sizes.length) : ∃ rule, ofMappings sizes operands results = .ok rule := by
  have noneUndeclared : firstUndeclared? sizes.length
      ((operands ++ results).flatMap TensorMapping.factors) = none := by
    refine (firstUndeclared?_eq_none_iff _ _).mpr fun factor member => ?_
    obtain ⟨mapping, isMapping, isFactor⟩ := List.mem_flatMap.mp member
    exact declared mapping isMapping factor isFactor
  unfold ofMappings
  split
  · rename_i undeclared
    cases noneUndeclared.symm.trans undeclared
  · exact ⟨_, rfl⟩

theorem exists_withReduction {rule : FactorRule} {reduction : List Nat}
    (declared : ∀ factor ∈ reduction, factor < rule.sizes.length) :
    ∃ reduced, rule.withReduction reduction = .ok reduced := by
  have noneUndeclared := (firstUndeclared?_eq_none_iff _ _).mpr declared
  unfold FactorRule.withReduction
  split
  · rename_i undeclared
    cases noneUndeclared.symm.trans undeclared
  · exact ⟨_, rfl⟩

/-- A product of declared factors has a rule if the result has their sizes. -/
theorem product?_isSome_iff {factors : ProductFactors} {result : Shape}
    (declared : ∀ factor ∈ factors.lhs ++ factors.rhs ++ factors.reduction,
      factor < factors.sizes.length) :
    (product? factors result).isSome ↔ SizesOf factors.sizes factors.result result := by
  constructor
  · intro isSome
    obtain ⟨rule, isRule⟩ := Option.isSome_iff_exists.mp isSome
    exact (product?_eq_some isRule).1
  · intro sized
    have mapsDeclared : ∃ mapped, ofMappings factors.sizes
        ([factors.lhs, factors.rhs].map TensorMapping.ofFactors)
        ([factors.result].map TensorMapping.ofFactors) = .ok mapped := by
      refine exists_ofMappings fun mapping isMapping factor isFactor => ?_
      rw [← List.map_append] at isMapping
      obtain ⟨listed, isListed, rfl⟩ := List.mem_map.mp isMapping
      rw [factors_ofFactors] at isFactor
      simp only [List.cons_append, List.nil_append, List.mem_cons, List.not_mem_nil,
        or_false] at isListed
      rcases isListed with rfl | rfl | rfl
      · exact declared factor (by simp [isFactor])
      · exact declared factor (by simp [isFactor])
      · exact sized.lt factor isFactor
    obtain ⟨mapped, isMapped⟩ := mapsDeclared
    have reductionDeclared : ∀ factor ∈ factors.reduction, factor < mapped.sizes.length := by
      rw [(lists_ofMappings isMapped).sizes_eq]
      exact fun factor member => declared factor (List.mem_append_right _ member)
    obtain ⟨reduced, isReduced⟩ := exists_withReduction reductionDeclared
    have isRule : product? factors result = some reduced :=
      (if_pos sized).trans
        (congrArg Except.toOption (bind_eq_ok_iff.mpr ⟨mapped, isMapped, isReduced⟩))
    rw [isRule, Option.isSome_some]

theorem sizesOf_inner (front back result : Shape) (size : Nat) :
    SizesOf (front ++ back ++ [size]) (List.range (front.length + back.length)) result ↔
      result = front ++ back := by
  have kept : (List.range (front ++ back).length).map ((front ++ back ++ [size])[·]?) =
      (front ++ back).map some := sizesOf_range_append (front ++ back) [size]
  rw [SizesOf, ← List.length_append, kept, List.map_inj_right fun _ _ => Option.some.inj, eq_comm]

/-- The result of an inner product has what remains of the left operand, then what remains of the
right one. -/
theorem product?_inner_isSome_iff (front back result : Shape) (size : Nat) :
    (product? (.inner front back size) result).isSome ↔ result = front ++ back := by
  rw [product?_isSome_iff]
  · exact sizesOf_inner front back result size
  · intro factor member
    simp only [ProductFactors.inner, List.mem_append, List.mem_cons, List.mem_range,
      List.mem_range'_1, List.length_append, List.length_singleton, List.not_mem_nil,
      or_false] at member ⊢
    omega

/-- A general product that sums over the last and the first dimension has a rule if these have one
size and there is one result, of what remains of both operands. -/
theorem dotGeneral?_inner_isSome_iff {lhs rhs : Shape} (lhsHasDims : lhs ≠ [])
    (rhsHasDims : rhs ≠ []) (results : List Shape) :
    (dotGeneral? (.inner lhs.length) [lhs, rhs] results).isSome ↔
      lhs.getLast? = rhs.head? ∧ results = [lhs.dropLast ++ rhs.tail] := by
  obtain ⟨front, inner, inner', back, rfl, rfl⟩ := exists_inner lhsHasDims rhsHasDims
  match results with
  | [result] =>
    have isRule : dotGeneral? (.inner (front ++ [inner]).length) [front ++ [inner], inner' :: back]
        [result] = (if inner = inner' then some (.inner front back inner) else none).bind
          (product? · result) := by
      rw [← dotGeneralFactors?_inner, ← List.length_singleton, ← List.length_append]
      rfl
    rw [isRule]
    by_cases same : inner = inner'
    · simp [same, product?_inner_isSome_iff]
    · simp [same]
  | [] => simp [dotGeneral?]
  | _ :: _ :: _ => simp [dotGeneral?]

end FactorRule

namespace Signature

/-- **A product of matrices or vectors has the rule of the general product that sums over the last
dimension of the left operand and the first of the right one.** Either both have this rule or both
have none, whatever the sizes of the operands and whatever the results. They have one exactly when
the dimensions summed over have one size and there is one result, of what remains of both
operands. -/
theorem rule?_dot_eq_dotGeneral {lhs rhs : Tensor} (lhsRank : lhs.rank = 1 ∨ lhs.rank = 2)
    (rhsRank : rhs.rank = 1 ∨ rhs.rank = 2) (results : List Tensor) :
    Signature.rule? ⟨.dot, none, [lhs, rhs], results⟩ =
        Signature.rule? ⟨.dotGeneral (.inner lhs.rank), none, [lhs, rhs], results⟩ ∧
      ((Signature.rule? ⟨.dot, none, [lhs, rhs], results⟩).isSome ↔
        lhs.type.shape.getLast? = rhs.type.shape.head? ∧
          (results.map fun tensor => tensor.type.shape) =
            [lhs.type.shape.dropLast ++ rhs.type.shape.tail]) := by
  have same : Signature.rule? ⟨.dot, none, [lhs, rhs], results⟩ =
      Signature.rule? ⟨.dotGeneral (.inner lhs.rank), none, [lhs, rhs], results⟩ :=
    FactorRule.dot?_eq_dotGeneral? lhsRank rhsRank _
  refine ⟨same, ?_⟩
  rw [same]
  exact FactorRule.dotGeneral?_inner_isSome_iff (FactorRule.ne_nil_of_rank lhsRank)
    (FactorRule.ne_nil_of_rank rhsRank) _

/-- A vector with 26 entries. -/
def samples : Tensor :=
  ⟨⟨[26], .f32⟩, none⟩

/-- A matrix with 26 rows. -/
def weights : Tensor :=
  ⟨⟨[26, 13], .f32⟩, none⟩

/-- A vector times a matrix, whose columns are the first factor. -/
theorem samples_times_weights :
    (samples.rank = 1 ∨ samples.rank = 2) ∧ (weights.rank = 1 ∨ weights.rank = 2) ∧
      ((Signature.rule? ⟨.dot, none, [samples, weights], [⟨⟨[13], .f32⟩, none⟩]⟩).map
        fun rule => (rule.sizes, rule.operands, rule.results, rule.reduction)) =
          some ([13, 26], [[[1]], [[1], [0]]], [[[0]]], [1]) ∧
      Signature.rule? ⟨.dot, none, [samples, weights], [⟨⟨[13], .f32⟩, none⟩]⟩ =
        Signature.rule? ⟨.dotGeneral (.inner samples.rank), none, [samples, weights],
          [⟨⟨[13], .f32⟩, none⟩]⟩ := by
  have same := rule?_dot_eq_dotGeneral (.inl rfl : samples.rank = 1 ∨ samples.rank = 2)
    (.inr rfl : weights.rank = 1 ∨ weights.rank = 2) [⟨⟨[13], .f32⟩, none⟩]
  exact ⟨.inl rfl, .inr rfl, by decide, same.1⟩

end Signature

end MeshSharding
