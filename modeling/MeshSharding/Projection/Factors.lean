import MeshSharding.Projection.Basic

/-!
# Between shardings and factors

The axes of a dimension are handed out to its factors, major to minor. A factor
takes axes from the front as long as their sizes divide what is left of its own
size. An axis that does not divide is split: the factor takes the greatest part
that does and the rest of the axis waits for the next factor. A factor that is
left with room, or that is the last one, keeps the waiting axes as overflow.

A tensor without a sharding is read as fully open, and so is a dimension that
its sharding does not have. If two dimensions are mapped to one factor, the
later one decides.

On the way back a dimension gets the axes of its factors, major to minor, each
followed by its overflow, with adjoining parts joined. It is closed if one of its
factors comes from a closed dimension.
-/

set_option autoImplicit false

namespace MeshSharding

/-! ## Handing axes out -/

/-- Why an operation has no projection. -/
inductive ProjectionError where
  /-- The rule does not suit the operation or names a factor without a size. -/
  | rule (cause : RuleError)
  /-- A part without shards has to be handed out. -/
  | emptyPart (reference : AxisRef)
  deriving DecidableEq

/-- The text of a projection error. -/
def ProjectionError.message : ProjectionError → String
  | .rule cause => cause.message
  | .emptyPart reference => "axis " ++ reference.text ++ " has no shards to divide among factors"

/-- What a factor takes from the axes of its dimension, what is left of its size, and the axes
that wait for the next factor. -/
structure Share where
  taken : AxisSequence
  remaining : Nat
  pending : AxisSequence

/-- The share of a factor of which the given size remains. -/
def takeShare (mesh : Mesh) (remaining : Nat) : AxisSequence → Except ProjectionError Share
  | [] => .ok ⟨[], remaining, []⟩
  | reference :: rest =>
    let size := reference.size mesh
    let common := Nat.gcd remaining size
    if remaining ≤ 1 then .ok ⟨[], remaining, reference :: rest⟩
    else if size = 0 then .error (.emptyPart reference)
    else if size ∣ remaining then do
      let share ← takeShare mesh (remaining / size) rest
      return { share with taken := reference :: share.taken }
    else if 1 < common then
      let halves := reference.split mesh common
      .ok ⟨[halves.1], remaining / common, halves.2 :: rest⟩
    else .ok ⟨[], remaining, reference :: rest⟩

/-- The factors of a dimension with their shardings, given the axes that wait for them. -/
def dimEntries (mesh : Mesh) (sizes : List Nat) (isClosed : Bool) (pending : AxisSequence) :
    DimMapping → Except ProjectionError (List (Nat × FactorSharding))
  | [] => .ok []
  | factor :: rest =>
    match sizes[factor]? with
    | none => .error (.rule (.undeclaredFactor factor sizes.length))
    | some size => do
      let share ← takeShare mesh size pending
      let isMinorMost := rest.isEmpty
      let keepsPending := isMinorMost || decide (1 < share.remaining)
      let later ← dimEntries mesh sizes isClosed (if keepsPending then [] else share.pending) rest
      return (factor, {
        axes := share.taken
        overflow := if keepsPending then share.pending else []
        isClosed
        isMinorMost }) :: later

/-- The factors of all dimensions of a tensor with their shardings, dimension by dimension. -/
def tensorEntries (mesh : Mesh) (sizes : List Nat) (dims : List DimSharding) :
    TensorMapping → Except ProjectionError (List (Nat × FactorSharding))
  | [] => .ok []
  | mapping :: rest => do
    let dim := dims.head?.getD .openEmpty
    let entries ← dimEntries mesh sizes dim.isClosed dim.axes mapping
    let later ← tensorEntries mesh sizes dims.tail rest
    return entries ++ later

/-- Slots filled by entries in order, so that of two entries for a factor the later one stays. -/
def filledSlots (count : Nat) (entries : List (Nat × FactorSharding)) :
    List (Option FactorSharding) :=
  entries.foldl (fun slots entry => slots.set entry.1 (some entry.2)) (List.replicate count none)

/-- The projection of a tensor with the given sharding. -/
def TensorProjection.ofSharding (mesh : Mesh) (sizes : List Nat) (mapping : TensorMapping)
    (sharding : Option TensorSharding) : Except ProjectionError TensorProjection := do
  let dims := (sharding.map TensorSharding.dims).getD []
  let entries ← tensorEntries mesh sizes dims mapping
  return {
    slots := filledSlots sizes.length entries
    replicated := (sharding.map TensorSharding.replicated).getD [] }

/-- The projections of tensors, each along its mapping. -/
def tensorProjections (mesh : Mesh) (sizes : List Nat) :
    List TensorMapping → List Tensor → Except ProjectionError (List TensorProjection)
  | mapping :: mappings, tensor :: tensors => do
    let first ← TensorProjection.ofSharding mesh sizes mapping tensor.sharding
    let later ← tensorProjections mesh sizes mappings tensors
    return first :: later
  | _, _ => .ok []

/-- The projection of an operation along a rule that suits its ranks. -/
def Projection.ofSignature (mesh : Mesh) (rule : FactorRule) (signature : Signature) :
    Except ProjectionError Projection :=
  match rule.check (signature.operands.map Tensor.rank) (signature.results.map Tensor.rank) with
  | .error cause => .error (.rule cause)
  | .ok () => do
    let operands ← tensorProjections mesh rule.sizes rule.operands signature.operands
    let results ← tensorProjections mesh rule.sizes rule.results signature.results
    return { operands, results }

/-! ## Writing axes back -/

namespace TensorProjection

/-- The shardings of the factors of a dimension, leaving out those that the tensor does not map. -/
def sharesOf (tensor : TensorProjection) (mapping : DimMapping) : List FactorSharding :=
  mapping.filterMap tensor.factor?

/-- The sharding of a dimension. -/
def dimSharding (mesh : Mesh) (tensor : TensorProjection) (mapping : DimMapping) : DimSharding where
  axes := AxisSequence.joined mesh
    ((tensor.sharesOf mapping).flatMap fun sharding => sharding.axes ++ sharding.overflow)
  isClosed := (tensor.sharesOf mapping).any FactorSharding.isClosed

/-- The sharding of a tensor over a mesh under the given name. -/
def toSharding (mesh : Mesh) (name : String) (mapping : TensorMapping)
    (tensor : TensorProjection) : TensorSharding where
  mesh := name
  dims := mapping.map (tensor.dimSharding mesh)
  replicated := tensor.replicated

end TensorProjection

end MeshSharding
