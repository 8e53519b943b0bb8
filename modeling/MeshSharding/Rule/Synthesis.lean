import MeshSharding.Rule.Basic
import MeshSharding.Operation.Basic

/-!
# Factor rules of operations

Elementwise operations, products and transpositions have a factor rule that
follows from the shapes of their operands and results. There is none if the
shapes are not those that the kind asks for. In a synthesised rule every
dimension is mapped to one factor, of the size of the dimension.

The signature of an operation is what can be said about it without the function
around it: its kind, the rule attached to it if there is one, and the types and
shardings of its operands and results. All decisions about an operation are made
from its signature, and its rule is the attached one or else the one that follows
from its kind.
-/

set_option autoImplicit false

namespace MeshSharding

namespace FactorRule

/-- All tensors have one shape, and dimensions in the same place share a factor. -/
def elementwise? (operands results : List Shape) : Option FactorRule :=
  match results with
  | [shape] =>
    if operands ≠ [] ∧ ∀ operand ∈ operands, operand = shape then
      let mapping := TensorMapping.ofFactors (List.range shape.length)
      (ofMappings shape (operands.map fun _ => mapping) [mapping]).toOption
    else none
  | _ => none

/-! ## Products -/

/-- The factors of a product of two tensors: their sizes, those of the dimensions of both
operands and of the result in order, and those summed over. -/
structure ProductFactors where
  sizes : List Nat
  lhs : List Nat
  rhs : List Nat
  result : List Nat
  reduction : List Nat

/-- The rule of a product whose result has the sizes of its factors. -/
def product? (factors : ProductFactors) (resultShape : Shape) : Option FactorRule :=
  if factors.result.map (factors.sizes[·]?) = resultShape.map some then
    let rule := do
      let mapped ← ofMappings factors.sizes
        [TensorMapping.ofFactors factors.lhs, TensorMapping.ofFactors factors.rhs]
        [TensorMapping.ofFactors factors.result]
      mapped.withReduction factors.reduction
    rule.toOption
  else none

/-- The factors of a product of matrices or vectors: what remains of the left operand, what
remains of the right one, and the dimension summed over. -/
def dotFactors? : Shape → Shape → Option ProductFactors
  | [rows, inner], [inner', columns] =>
    if inner = inner' then some ⟨[rows, columns, inner], [0, 2], [2, 1], [0, 1], [2]⟩ else none
  | [rows, inner], [inner'] =>
    if inner = inner' then some ⟨[rows, inner], [0, 1], [1], [0], [1]⟩ else none
  | [inner], [inner', columns] =>
    if inner = inner' then some ⟨[columns, inner], [1], [1, 0], [0], [1]⟩ else none
  | [inner], [inner'] =>
    if inner = inner' then some ⟨[inner], [0], [0], [], [0]⟩ else none
  | _, _ => none

/-- The rule of a product of matrices or vectors. -/
def dot? (operands results : List Shape) : Option FactorRule :=
  match operands, results with
  | [lhs, rhs], [result] => do product? (← dotFactors? lhs rhs) result
  | _, _ => none

/-- The common sizes of paired dimensions of two tensors, if each pair has one. -/
def pairedSizes? (lhs rhs : Shape) : List Nat → List Nat → Option (List Nat)
  | lhsDim :: lhsDims, rhsDim :: rhsDims => do
    let size ← lhs[lhsDim]?
    if rhs[rhsDim]? = some size then
      return size :: (← pairedSizes? lhs rhs lhsDims rhsDims)
    else none
  | _, _ => some []

/-- Sizes and numbers of the dimensions that are neither batching nor contracting. -/
def freeDims (shape : Shape) (batch contract : List Nat) : List (Nat × Nat) :=
  shape.zipIdx.filter fun entry => decide (entry.2 ∉ batch ∧ entry.2 ∉ contract)

/-- The factor that a list of dimensions and factors gives to every dimension of a tensor. The
last entry for a dimension decides. -/
def assignedFactors? (rank : Nat) (assigned : List (Nat × Nat)) : Option (List Nat) :=
  (List.range rank).mapM fun dim => assigned.reverse.lookup dim

/-- The factors of a general product: one for every pair of batching dimensions, one for every
free dimension of the left and then of the right operand, and one for every pair of contracting
dimensions. -/
def dotGeneralFactors? (numbers : DotNumbers) (lhs rhs : Shape) : Option ProductFactors := do
  if numbers.lhsBatch.length ≠ numbers.rhsBatch.length ∨
      numbers.lhsContract.length ≠ numbers.rhsContract.length then none
  let batch ← pairedSizes? lhs rhs numbers.lhsBatch numbers.rhsBatch
  let contract ← pairedSizes? lhs rhs numbers.lhsContract numbers.rhsContract
  let lhsFree := freeDims lhs numbers.lhsBatch numbers.lhsContract
  let rhsFree := freeDims rhs numbers.rhsBatch numbers.rhsContract
  let lhsStart := batch.length
  let rhsStart := lhsStart + lhsFree.length
  let contractStart := rhsStart + rhsFree.length
  let lhsFactors ← assignedFactors? lhs.length
    (numbers.lhsBatch.zipIdx ++ (lhsFree.map Prod.snd).zipIdx lhsStart ++
      numbers.lhsContract.zipIdx contractStart)
  let rhsFactors ← assignedFactors? rhs.length
    (numbers.rhsBatch.zipIdx ++ (rhsFree.map Prod.snd).zipIdx rhsStart ++
      numbers.rhsContract.zipIdx contractStart)
  return {
    sizes := batch ++ lhsFree.map Prod.fst ++ rhsFree.map Prod.fst ++ contract
    lhs := lhsFactors
    rhs := rhsFactors
    result := List.range contractStart
    reduction := List.range' contractStart contract.length }

/-- The rule of a general product. -/
def dotGeneral? (numbers : DotNumbers) (operands results : List Shape) : Option FactorRule :=
  match operands, results with
  | [lhs, rhs], [result] => do product? (← dotGeneralFactors? numbers lhs rhs) result
  | _, _ => none

/-! ## Transpositions -/

/-- The dimensions of the result are those of the operand in another order. -/
def transpose? (permutation : List Nat) (operands results : List Shape) : Option FactorRule :=
  match operands, results with
  | [operand], [result] =>
    if permutation.length = operand.length ∧ permutation.Nodup ∧
        permutation.map (operand[·]?) = result.map some then
      (ofMappings operand [TensorMapping.ofFactors (List.range operand.length)]
        [TensorMapping.ofFactors permutation]).toOption
    else none
  | _, _ => none

/-- The rule that follows from the kind of an operation and the shapes of its tensors. -/
def ofKind? (kind : OperationKind) (operands results : List Shape) : Option FactorRule :=
  match kind with
  | .elementwise _ => elementwise? operands results
  | .dot => dot? operands results
  | .dotGeneral numbers => dotGeneral? numbers operands results
  | .transpose permutation => transpose? permutation operands results
  | .custom _ | .reshard | .exit => none

end FactorRule

/-! ## Signatures -/

/-- Kind, attached rule, operands and results of an operation. -/
structure Signature where
  kind : OperationKind
  attached : Option FactorRule
  operands : List Tensor
  results : List Tensor
  deriving DecidableEq

/-- The name that all present shardings give to their mesh, if there is one such name. -/
def commonMesh? (shardings : List (Option TensorSharding)) : Option String :=
  match shardings.reduceOption.map TensorSharding.mesh with
  | [] => none
  | name :: rest => if ∀ other ∈ rest, other = name then some name else none

namespace Signature

/-- The attached rule, or else the one that follows from kind and shapes. -/
def rule? (signature : Signature) : Option FactorRule :=
  match signature.attached with
  | some rule => some rule
  | none => FactorRule.ofKind? signature.kind
      (signature.operands.map fun tensor => tensor.type.shape)
      (signature.results.map fun tensor => tensor.type.shape)

/-- The shardings of the operands followed by those of the results. -/
def shardings (signature : Signature) : List (Option TensorSharding) :=
  (signature.operands ++ signature.results).map Tensor.sharding

/-- The mesh of all shardings of the operation. -/
def mesh? (signature : Signature) : Option String :=
  commonMesh? signature.shardings

end Signature

end MeshSharding
