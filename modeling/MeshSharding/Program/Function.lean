import MeshSharding.Rule.Synthesis

/-!
# Functions

A function owns its values and its operations, each in the order of creation,
and lists in its body the operations in the order in which they run. Handles are
positions in the two lists, and since nothing is ever removed they stay valid
while the body is edited. A value is an argument of the function or a result of
one of its operations.

This module holds the data, the edits without their checks, and the reasons for
which a checked edit is refused or a program does not verify, with their words.
-/

set_option autoImplicit false

namespace MeshSharding

/-- A value of a function, by its number. -/
structure ValueId where
  index : Nat
  deriving DecidableEq

/-- The text of a value's handle. -/
def ValueId.text (value : ValueId) : String :=
  "v" ++ toString value.index

/-- An operation of a function, by its number. -/
structure OperationId where
  index : Nat
  deriving DecidableEq

/-- The text of an operation's handle. -/
def OperationId.text (operation : OperationId) : String :=
  "op" ++ toString operation.index

/-- Where a value comes from. -/
inductive Origin where
  | argument (index : Nat)
  | result (operation : OperationId) (index : Nat)
  deriving DecidableEq

/-- A tensor with its origin. -/
structure Value where
  tensor : Tensor
  origin : Origin
  deriving DecidableEq

/-- Kind, operands, results and attached rule. -/
structure Operation where
  kind : OperationKind
  operands : List ValueId
  results : List ValueId
  attached : Option FactorRule
  deriving DecidableEq

/-- The place of an operand: an operation and a position among its operands. -/
structure Use where
  operation : OperationId
  slot : Nat
  deriving DecidableEq

/-- Arguments, declared results, and a body of operations on values. -/
structure Function where
  name : String
  arguments : List ValueId
  results : List Tensor
  values : List Value
  operations : List Operation
  body : List OperationId
  deriving DecidableEq

/-! ## Bodies -/

/-- A body with a new operation right before the first occurrence of another. -/
def insertedBefore (anchor operation : OperationId) : List OperationId → List OperationId
  | [] => []
  | first :: rest =>
    if first = anchor then operation :: first :: rest
    else first :: insertedBefore anchor operation rest

/-- A body with a new operation right after the first occurrence of another. -/
def insertedAfter (anchor operation : OperationId) : List OperationId → List OperationId
  | [] => []
  | first :: rest =>
    if first = anchor then first :: operation :: rest
    else first :: insertedAfter anchor operation rest

namespace Function

/-- A function with nothing but a name. -/
def empty (name : String) : Function :=
  ⟨name, [], [], [], [], []⟩

/-! ## Reading -/

/-- The tensor of a value. A handle that the function has not given out reads as a scalar without
a sharding. -/
def tensor (function : Function) (value : ValueId) : Tensor :=
  ((function.values[value.index]?).map Value.tensor).getD ⟨⟨[], .f32⟩, none⟩

/-- The operation of a handle. A handle that the function has not given out reads as an operation
without operands and results. -/
def operation (function : Function) (operation : OperationId) : Operation :=
  (function.operations[operation.index]?).getD ⟨.custom "", [], [], none⟩

/-- What can be said about an operation without the function around it. -/
def signature (function : Function) (operation : OperationId) : Signature where
  kind := (function.operation operation).kind
  attached := (function.operation operation).attached
  operands := (function.operation operation).operands.map function.tensor
  results := (function.operation operation).results.map function.tensor

/-- The last operation of the body, if it ends the function. -/
def terminator? (function : Function) : Option OperationId :=
  function.body.getLast?.filter fun operation => (function.operation operation).kind == .exit

/-- The declared sharding of a result. -/
def resultSharding? (function : Function) (index : Nat) : Option TensorSharding :=
  function.results[index]?.bind Tensor.sharding

/-- The uses of a value, in the order of the body. -/
def uses (function : Function) (value : ValueId) : List Use :=
  function.body.flatMap fun operation =>
    (function.operation operation).operands.zipIdx.filterMap fun operand =>
      if operand.1 = value then some ⟨operation, operand.2⟩ else none

/-! ## Creating -/

/-- The handle of the value that is created next. -/
def nextValue (function : Function) : ValueId :=
  ⟨function.values.length⟩

/-- The handle of the operation that is created next. -/
def nextOperation (function : Function) : OperationId :=
  ⟨function.operations.length⟩

/-- The function with one more argument, which is its next value. -/
def addArgument (function : Function) (tensor : Tensor) : Function :=
  { function with
    arguments := function.arguments ++ [function.nextValue]
    values := function.values ++ [⟨tensor, .argument function.arguments.length⟩] }

/-- The function with one more declared result. -/
def addResult (function : Function) (tensor : Tensor) : Function :=
  { function with results := function.results ++ [tensor] }

/-- The handles of the values that are created next, as many as given. -/
def nextValues (function : Function) (count : Nat) : List ValueId :=
  (List.range' function.values.length count).map ValueId.mk

/-- The function with one more operation, its next one, and the values that are its results. The
operation has no place in the body yet. -/
def create (function : Function) (kind : OperationKind) (operands : List ValueId)
    (types : List TensorType) : Function :=
  { function with
    values := function.values ++ types.zipIdx.map fun type =>
      ⟨⟨type.1, none⟩, .result function.nextOperation type.2⟩
    operations := function.operations ++
      [⟨kind, operands, function.nextValues types.length, none⟩] }

/-! ## Changing -/

/-- The function with another sharding for a value. -/
def withSharding (function : Function) (value : ValueId) (sharding : Option TensorSharding) :
    Function :=
  let update := fun changed : Value => { changed with tensor := { changed.tensor with sharding } }
  { function with values := function.values.modify value.index update }

/-- The function with another value for an operand of an operation. -/
def withOperand (function : Function) (use : Use) (value : ValueId) : Function :=
  let update := fun changed : Operation =>
    { changed with operands := changed.operands.set use.slot value }
  { function with operations := function.operations.modify use.operation.index update }

/-- The function with another rule attached to an operation, or none. -/
def withRule (function : Function) (operation : OperationId) (attached : Option FactorRule) :
    Function :=
  let update := fun changed : Operation => { changed with attached }
  { function with operations := function.operations.modify operation.index update }

/-- The function with all uses of a value replaced, except those by one operation. -/
def withUsesReplaced (function : Function) (value replacement : ValueId) (kept : OperationId) :
    Function :=
  let renamed := fun operand : ValueId => if operand = value then replacement else operand
  { function with operations := function.operations.mapIdx fun index changed =>
      if index = kept.index then changed
      else { changed with operands := changed.operands.map renamed } }

end Function

/-! ## Errors about programs -/

/-- Why a program is refused. -/
inductive ProgramError where
  | unknownValue (value : ValueId) (function : String)
  | unknownOperation (operation : OperationId) (function : String)
  /-- The operation has no operand at this position. -/
  | operandOutOfBounds (use : Use) (operandCount : Nat)
  | useBeforeDefinition (value : ValueId) (operation : OperationId)
  /-- The body does not end with a return. -/
  | missingTerminator (function : String)
  /-- A return stands before the end of the body. -/
  | misplacedTerminator (operation : OperationId) (function : String)
  | resultCount (function : String) (expected actual : Nat)
  | resultType (function : String) (index : Nat) (expected actual : TensorType)
  | unknownMesh (sharding : TensorSharding)
  | repeatedMesh (mesh : String)
  | repeatedFunction (function : String)
  | invalidSharding (sharding : TensorSharding) (cause : ShardingError)
  deriving DecidableEq

/-- The text of a program error. -/
def ProgramError.message : ProgramError → String
  | .unknownValue value function =>
    "value " ++ value.text ++ " is not defined in function '" ++ function ++ "'"
  | .unknownOperation operation function =>
    "operation " ++ operation.text ++ " is not part of the body of function '" ++ function ++ "'"
  | .operandOutOfBounds use operandCount =>
    "operand #" ++ toString use.slot ++ " is out of bounds for operation " ++
      use.operation.text ++ " with " ++ toString operandCount ++ " operand(s)"
  | .useBeforeDefinition value operation =>
    "value " ++ value.text ++ " is used by operation " ++ operation.text ++
      " before it is defined"
  | .missingTerminator function =>
    "function '" ++ function ++ "' must end with exactly one 'return' operation"
  | .misplacedTerminator operation function =>
    "'return' operation " ++ operation.text ++ " is not the last operation of function '" ++
      function ++ "'"
  | .resultCount function expected actual =>
    "function '" ++ function ++ "' returns " ++ toString actual ++
      " value(s), but declares " ++ toString expected ++ " result(s)"
  | .resultType function index expected actual =>
    "function '" ++ function ++ "' returns a value of type " ++ actual.text ++
      " for result #" ++ toString index ++ " of type " ++ expected.text
  | .unknownMesh sharding =>
    "sharding '" ++ sharding.text ++ "' references unknown mesh '@" ++ sharding.mesh ++ "'"
  | .repeatedMesh mesh => "mesh '@" ++ mesh ++ "' is defined more than once"
  | .repeatedFunction function => "function '@" ++ function ++ "' is defined more than once"
  | .invalidSharding sharding cause =>
    "invalid sharding '" ++ sharding.text ++ "': " ++ cause.message

end MeshSharding
