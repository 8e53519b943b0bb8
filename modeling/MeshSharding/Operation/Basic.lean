import MeshSharding.Sharding.Basic

/-!
# Operations and their tensors

The kind of an operation fixes what it computes and how it is called in text.
Kinds that work element by element are grouped, since nothing but their names
tells them apart here.

A tensor has a shape, an element type and possibly a sharding. Arguments of a
function, results of its operations and its declared results are all described
in this way.
-/

set_option autoImplicit false

namespace MeshSharding

/-! ## Kinds -/

/-- A function that is applied element by element. -/
inductive ElementwiseFunction where
  | negate
  | abs
  | exponential
  | add
  | subtract
  | multiply
  | divide
  | maximum
  deriving DecidableEq

/-- The name of an elementwise function. -/
def ElementwiseFunction.text : ElementwiseFunction → String
  | .negate => "negate"
  | .abs => "abs"
  | .exponential => "exponential"
  | .add => "add"
  | .subtract => "subtract"
  | .multiply => "multiply"
  | .divide => "divide"
  | .maximum => "maximum"

/-- The batching and contracting dimensions of both operands of a general product. -/
structure DotNumbers where
  lhsBatch : List Nat
  rhsBatch : List Nat
  lhsContract : List Nat
  rhsContract : List Nat
  deriving DecidableEq

/-- What an operation computes. -/
inductive OperationKind where
  | elementwise (function : ElementwiseFunction)
  | dot
  | dotGeneral (numbers : DotNumbers)
  | transpose (permutation : List Nat)
  /-- An operation of which only the name is known. -/
  | custom (name : String)
  /-- The operand with another sharding, the one of the result. -/
  | reshard
  /-- The end of a function; the operands are its results. -/
  | exit
  deriving DecidableEq

namespace OperationKind

/-- Whether the kind works element by element. -/
def isElementwise : OperationKind → Bool
  | .elementwise _ => true
  | _ => false

/-- The name of a kind in text. -/
def name : OperationKind → String
  | .elementwise function => "stablehlo." ++ function.text
  | .dot => "stablehlo.dot"
  | .dotGeneral _ => "stablehlo.dot_general"
  | .transpose _ => "stablehlo.transpose"
  | .custom _ => "stablehlo.custom_call"
  | .reshard => "sdy.reshard"
  | .exit => "return"

end OperationKind

/-! ## Tensors -/

/-- The type of the elements of a tensor. -/
inductive ElementType where
  | f32
  | f16
  | bf16
  | i32
  | i1
  deriving DecidableEq

/-- The text of an element type. -/
def ElementType.text : ElementType → String
  | .f32 => "f32"
  | .f16 => "f16"
  | .bf16 => "bf16"
  | .i32 => "i32"
  | .i1 => "i1"

/-- The sizes of the dimensions of a tensor. -/
abbrev Shape := List Nat

/-- Shape and element type. -/
structure TensorType where
  shape : Shape
  element : ElementType
  deriving DecidableEq

namespace TensorType

/-- The number of dimensions. -/
def rank (type : TensorType) : Nat :=
  type.shape.length

/-- The sizes of the dimensions, each followed by a cross. -/
def shapeText : Shape → String
  | [] => ""
  | size :: rest => toString size ++ "x" ++ shapeText rest

/-- The text of a type. -/
def text (type : TensorType) : String :=
  "tensor<" ++ shapeText type.shape ++ type.element.text ++ ">"

end TensorType

/-- A type, and a sharding if there is one. -/
structure Tensor where
  type : TensorType
  sharding : Option TensorSharding
  deriving DecidableEq

/-- The number of dimensions. -/
def Tensor.rank (tensor : Tensor) : Nat :=
  tensor.type.rank

end MeshSharding
