import MeshSharding.Program.Function

/-!
# Edits and histories of functions

Edits that name values or operations are refused if the function does not have
them; then nothing is changed. An operation is created and placed in the body in
one step, so every operation of a function that is built by these edits stands
in its body.

Every edit can be written down, and a function is what a list of edits makes of
an empty one. An edit that is refused leaves the function as it is, so a history
may hold such edits too.
-/

set_option autoImplicit false

namespace MeshSharding

/-! ## Checked edits -/

namespace Function

/-- Accepts a value that the function has. -/
def checkValue (function : Function) (value : ValueId) : Except ProgramError Unit :=
  if value.index < function.values.length then .ok ()
  else .error (.unknownValue value function.name)

/-- Accepts an operation that the function has. -/
def checkOperation (function : Function) (operation : OperationId) : Except ProgramError Unit :=
  if operation.index < function.operations.length then .ok ()
  else .error (.unknownOperation operation function.name)

/-- Accepts an operation that the body has. -/
def checkPlaced (function : Function) (operation : OperationId) : Except ProgramError Unit :=
  if operation ∈ function.body then .ok ()
  else .error (.unknownOperation operation function.name)

/-- Accepts values that the function has, in order. -/
def checkValues (function : Function) : List ValueId → Except ProgramError Unit
  | [] => .ok ()
  | value :: rest => do
    function.checkValue value
    function.checkValues rest

/-- The function with a new operation at the end of its body. -/
def append (function : Function) (kind : OperationKind) (operands : List ValueId)
    (types : List TensorType) : Except ProgramError Function := do
  function.checkValues operands
  let created := function.create kind operands types
  return { created with body := function.body ++ [function.nextOperation] }

/-- The function with a new operation right before another. -/
def insertBefore (function : Function) (anchor : OperationId) (kind : OperationKind)
    (operands : List ValueId) (types : List TensorType) : Except ProgramError Function := do
  function.checkPlaced anchor
  function.checkValues operands
  let created := function.create kind operands types
  return { created with body := insertedBefore anchor function.nextOperation function.body }

/-- The function with a new operation right after another. -/
def insertAfter (function : Function) (anchor : OperationId) (kind : OperationKind)
    (operands : List ValueId) (types : List TensorType) : Except ProgramError Function := do
  function.checkPlaced anchor
  function.checkValues operands
  let created := function.create kind operands types
  return { created with body := insertedAfter anchor function.nextOperation function.body }

/-- The function with another sharding, or none, for a value. -/
def setSharding (function : Function) (value : ValueId) (sharding : Option TensorSharding) :
    Except ProgramError Function := do
  function.checkValue value
  return function.withSharding value sharding

/-- The function with another value for an operand. -/
def setOperand (function : Function) (use : Use) (value : ValueId) :
    Except ProgramError Function := do
  function.checkValue value
  function.checkOperation use.operation
  let operandCount := (function.operation use.operation).operands.length
  if use.slot < operandCount then return function.withOperand use value
  else throw (.operandOutOfBounds use operandCount)

/-- The function with all uses of a value replaced, except those by one operation. -/
def replaceUses (function : Function) (value replacement : ValueId) (kept : OperationId) :
    Except ProgramError Function := do
  function.checkValue value
  function.checkValue replacement
  return function.withUsesReplaced value replacement kept

/-- The function with another rule attached to an operation, or none. -/
def setRule (function : Function) (operation : OperationId) (attached : Option FactorRule) :
    Except ProgramError Function := do
  function.checkOperation operation
  return function.withRule operation attached

end Function

/-! ## Histories -/

/-- An edit of a function. -/
inductive Edit where
  | addArgument (tensor : Tensor)
  | addResult (tensor : Tensor)
  | append (kind : OperationKind) (operands : List ValueId) (types : List TensorType)
  | insertBefore (anchor : OperationId) (kind : OperationKind) (operands : List ValueId)
      (types : List TensorType)
  | insertAfter (anchor : OperationId) (kind : OperationKind) (operands : List ValueId)
      (types : List TensorType)
  | setSharding (value : ValueId) (sharding : Option TensorSharding)
  | setOperand (use : Use) (value : ValueId)
  | replaceUses (value replacement : ValueId) (kept : OperationId)
  | setRule (operation : OperationId) (attached : Option FactorRule)
  deriving DecidableEq

namespace Function

/-- The function after an edit, unless it is refused. -/
def edited (function : Function) : Edit → Except ProgramError Function
  | .addArgument tensor => .ok (function.addArgument tensor)
  | .addResult tensor => .ok (function.addResult tensor)
  | .append kind operands types => function.append kind operands types
  | .insertBefore anchor kind operands types => function.insertBefore anchor kind operands types
  | .insertAfter anchor kind operands types => function.insertAfter anchor kind operands types
  | .setSharding value sharding => function.setSharding value sharding
  | .setOperand use value => function.setOperand use value
  | .replaceUses value replacement kept => function.replaceUses value replacement kept
  | .setRule operation attached => function.setRule operation attached

/-- The function after an edit, which changes nothing if it is refused. -/
def afterEdit (function : Function) (edit : Edit) : Function :=
  match function.edited edit with
  | .ok changed => changed
  | .error _ => function

/-- The function that a history makes. -/
def ofHistory (name : String) (history : List Edit) : Function :=
  history.foldl afterEdit (empty name)

end Function

end MeshSharding
