import MeshSharding.Axis.Sequence

/-!
# Tensor shardings

A tensor sharding names a mesh and gives for every dimension of a tensor the
axes along which it is sharded. A closed dimension keeps its axes, an open one
may get more. Axes can also be listed as explicitly replicated: they shard no
dimension.

The text of a sharding shows all of it: the mesh, the dimensions with a question
mark in the open ones, and the replicated axes if there are any.

A sharding suits a mesh and a rank when it has that rank, no dimension lists two
parts of one axis that adjoin (they are to be written as one), every reference
fits the mesh, and no two references overlap, whether they shard dimensions or
are replicated. The checks are made in this order, references in the order of
`TensorSharding.axes`, and the first that fails is reported.
-/

set_option autoImplicit false

namespace MeshSharding

/-- The axes of one dimension, and whether more may be added. -/
structure DimSharding where
  axes : AxisSequence
  isClosed : Bool
  deriving DecidableEq

namespace DimSharding

/-- A dimension without axes to which none may be added. -/
def closedEmpty : DimSharding := ⟨[], true⟩

/-- A dimension without axes to which any may be added. -/
def openEmpty : DimSharding := ⟨[], false⟩

/-- The number of shards of the dimension, as machine words hold it. -/
def size (mesh : Mesh) (dim : DimSharding) : Nat :=
  AxisSequence.size mesh dim.axes

/-- The text of a dimension, with a question mark as the last entry of an open one. -/
def text (dim : DimSharding) : String :=
  braced (dim.axes.map AxisRef.text ++ if dim.isClosed then [] else ["?"])

end DimSharding

/-- The sharding of a tensor over the mesh of a name. -/
structure TensorSharding where
  mesh : String
  dims : List DimSharding
  replicated : AxisSequence
  deriving DecidableEq

namespace TensorSharding

/-- The number of dimensions. -/
def rank (sharding : TensorSharding) : Nat :=
  sharding.dims.length

/-- No axes and every dimension closed. -/
def fullyReplicated (mesh : String) (rank : Nat) : TensorSharding :=
  ⟨mesh, List.replicate rank .closedEmpty, []⟩

/-- No axes and every dimension open. -/
def fullyOpen (mesh : String) (rank : Nat) : TensorSharding :=
  ⟨mesh, List.replicate rank .openEmpty, []⟩

/-- The fully replicated sharding on the same mesh and of the same rank. -/
def fullyReplicatedLike (sharding : TensorSharding) : TensorSharding :=
  fullyReplicated sharding.mesh sharding.rank

/-- No dimension has axes; a tensor without a sharding counts as such. -/
def IsFullyReplicated : Option TensorSharding → Prop
  | none => True
  | some sharding => ∀ dim ∈ sharding.dims, dim.axes = []

instance (sharding : Option TensorSharding) : Decidable (IsFullyReplicated sharding) :=
  match sharding with
  | none => .isTrue trivial
  | some sharding => inferInstanceAs (Decidable (∀ dim ∈ sharding.dims, dim.axes = []))

/-- All axes of a sharding: dimension by dimension, then the replicated ones. -/
def axes (sharding : TensorSharding) : AxisSequence :=
  sharding.dims.flatMap DimSharding.axes ++ sharding.replicated

/-! ## Text -/

/-- The part of the text that lists replicated axes, empty if there are none. -/
def replicatedText : AxisSequence → String
  | [] => ""
  | axes => ", replicated=" ++ braced (axes.map AxisRef.text)

/-- The text between angle brackets, as it stands in lists of shardings. -/
def shortText (sharding : TensorSharding) : String :=
  "<@" ++ escaped sharding.mesh ++ ", " ++ bracketed (sharding.dims.map DimSharding.text) ++
    replicatedText sharding.replicated ++ ">"

/-- The text of a sharding. -/
def text (sharding : TensorSharding) : String :=
  "#sdy.sharding" ++ sharding.shortText

/-- The text of a sharding whose mesh name has a symbol. -/
def attributeText (sharding : TensorSharding) : Except SymbolError String := do
  let _ ← meshSymbol sharding.mesh
  return sharding.text

end TensorSharding

/-! ## Checking a sharding -/

/-- The words for a number of dimensions that is not the tensor's. -/
def rankMismatchText (found expected : Nat) : String :=
  "sharding rank " ++ toString found ++ " does not match tensor rank " ++ toString expected

/-- Why a sharding does not suit a mesh and a rank. -/
inductive ShardingError where
  /-- The sharding has another number of dimensions. -/
  | rank (found expected : Nat)
  /-- A dimension lists two adjoining parts. -/
  | adjoining (major minor : AxisRef)
  /-- A reference does not fit the mesh. -/
  | axis (cause : AxisError)
  /-- A reference overlaps an earlier one. -/
  | overlap (reference : AxisRef)
  deriving DecidableEq

/-- The text of a sharding error. -/
def ShardingError.message : ShardingError → String
  | .rank found expected => rankMismatchText found expected
  | .adjoining major minor =>
    "sub-axes " ++ major.text ++ " and " ++ minor.text ++ " of the same dimension must be merged"
  | .axis cause => cause.message
  | .overlap reference =>
    "axis " ++ reference.text ++ " overlaps with another axis used by the same sharding"

/-- The first two neighbours that adjoin. -/
def firstAdjoining? : AxisSequence → Option (AxisRef × AxisRef)
  | first :: second :: rest =>
    if first.Adjoins second then some (first, second) else firstAdjoining? (second :: rest)
  | _ => none

/-- Accepts references that fit the mesh and overlap neither each other nor those seen before. -/
def checkDisjoint (mesh : Mesh) (seen : AxisSequence) : AxisSequence → Except ShardingError Unit
  | [] => .ok ()
  | reference :: rest =>
    match reference.check mesh with
    | .error cause => .error (.axis cause)
    | .ok () =>
      if AxisSequence.OverlapsAxis seen reference then .error (.overlap reference)
      else checkDisjoint mesh (seen ++ [reference]) rest

/-- Accepts a sharding that suits a mesh and a tensor rank. -/
def TensorSharding.check (mesh : Mesh) (rank : Nat) (sharding : TensorSharding) :
    Except ShardingError Unit :=
  if sharding.rank ≠ rank then .error (.rank sharding.rank rank)
  else
    match sharding.dims.findSome? fun dim => firstAdjoining? dim.axes with
    | some (major, minor) => .error (.adjoining major minor)
    | none => checkDisjoint mesh [] sharding.axes

end MeshSharding
