import MeshSharding.Reshard.Decision
import MeshSharding.Program.Function

/-!
# Making a function consistent

The operations of the body are visited in order, as the body was before the run;
operations that the run inserts are not visited. Each decision is made on the
function as the visits before have left it and is carried out at once. If an
operation allows no decision the run ends there, and the function stays as it is
then.

Every visit is recorded with its decision and with what happens on the way; the
counters and the events of a run are read off its visits. A tally counts the
operations by what the run does with them, and the reshards it inserts. Every
operation is counted once among the six outcomes.

An operand is resharded by a new operation right before the one that uses it,
and only this one use is redirected. A result is resharded by a new operation
after the one that produces it, in the order of the results, and all other uses
of the result are redirected. The result itself gets its new sharding, the value
that replaces it the old one.
-/

set_option autoImplicit false

namespace MeshSharding

/-! ## Counting -/

/-- Numbers of operations by outcome, and the number of inserted reshards. -/
structure Tally where
  visited : Nat
  exits : Nat
  withoutRule : Nat
  withoutMesh : Nat
  overflowing : Nat
  consistent : Nat
  revised : Nat
  reshards : Nat
  deriving DecidableEq

/-- The number of reshards that a decision inserts. -/
def Decision.reshardCount : Decision → Nat
  | .exit operands => operands.length
  | .skip _ => 0
  | .revise revision => revision.operands.length + revision.results.length

/-- The word for a decision. -/
def Decision.outcome : Decision → String
  | .exit _ => "exit-handled"
  | .skip .noRule => "no-sharding-rule"
  | .skip .noCommonMesh => "no-common-mesh"
  | .skip .overflow => "overflow-axes"
  | .skip .consistent => "already-compatible"
  | .revise _ => "rewritten"

namespace Tally

/-- Nothing has been visited. -/
def zero : Tally := ⟨0, 0, 0, 0, 0, 0, 0, 0⟩

/-- The numbers of two runs together. -/
def add (first second : Tally) : Tally where
  visited := first.visited + second.visited
  exits := first.exits + second.exits
  withoutRule := first.withoutRule + second.withoutRule
  withoutMesh := first.withoutMesh + second.withoutMesh
  overflowing := first.overflowing + second.overflowing
  consistent := first.consistent + second.consistent
  revised := first.revised + second.revised
  reshards := first.reshards + second.reshards

/-- The tally of one decision. -/
def ofDecision (decision : Decision) : Tally :=
  let one := { zero with visited := 1, reshards := decision.reshardCount }
  match decision with
  | .exit _ => { one with exits := 1 }
  | .skip .noRule => { one with withoutRule := 1 }
  | .skip .noCommonMesh => { one with withoutMesh := 1 }
  | .skip .overflow => { one with overflowing := 1 }
  | .skip .consistent => { one with consistent := 1 }
  | .revise _ => { one with revised := 1 }

/-- The numbers with their names. -/
def named (tally : Tally) : List (String × Nat) :=
  [("operations-visited", tally.visited), ("exits-handled", tally.exits),
    ("skipped-without-sharding-rule", tally.withoutRule),
    ("skipped-without-common-mesh", tally.withoutMesh),
    ("skipped-with-overflow-axes", tally.overflowing),
    ("skipped-as-compatible", tally.consistent), ("operations-rewritten", tally.revised),
    ("reshards-inserted", tally.reshards)]

@[simp]
theorem visited_ofDecision_eq (decision : Decision) : (ofDecision decision).visited = 1 := by
  cases decision with
  | exit operands => rfl
  | skip reason => cases reason <;> rfl
  | revise revision => rfl

@[simp]
theorem reshards_ofDecision (decision : Decision) :
    (ofDecision decision).reshards = decision.reshardCount := by
  cases decision with
  | exit operands => rfl
  | skip reason => cases reason <;> rfl
  | revise revision => rfl

/-- Every visited operation has one outcome. -/
theorem visited_ofDecision (decision : Decision) :
    (ofDecision decision).visited =
      (ofDecision decision).exits + (ofDecision decision).withoutRule +
        (ofDecision decision).withoutMesh + (ofDecision decision).overflowing +
        (ofDecision decision).consistent + (ofDecision decision).revised := by
  cases decision with
  | exit operands => rfl
  | skip reason => cases reason <;> rfl
  | revise revision => rfl

end Tally

/-! ## Carrying out a decision -/

namespace Function

/-- The function with a new, still unplaced operation that brings a value to a sharding. The new
operation and its result are the next ones of the function. -/
def createReshard (function : Function) (value : ValueId) (target : TensorSharding) : Function :=
  (function.create .reshard [value] [(function.tensor value).type]).withSharding
    function.nextValue (some target)

/-- The function with an operand of an operation resharded before it. -/
def reshardOperand (function : Function) (operation : OperationId) (change : OperandChange) :
    Function :=
  match (function.operation operation).operands[change.slot]? with
  | none => function
  | some value =>
    let created := function.createReshard value change.target
    { created with
      body := insertedBefore operation function.nextOperation function.body }.withOperand
        ⟨operation, change.slot⟩ function.nextValue

/-- The function with operands of an operation resharded before it, one after the other. -/
def reshardOperands (function : Function) (operation : OperationId)
    (changes : List OperandChange) : Function :=
  changes.foldl (fun changed change => changed.reshardOperand operation change) function

/-- The function with a value resharded after an operation to the sharding it had, with its other
uses redirected and with a new sharding of its own. -/
def reshardResult (function : Function) (anchor : OperationId) (result : ValueId)
    (change : ResultChange) : Function :=
  let created := function.createReshard result change.restored
  let placed := { created with
    body := insertedAfter anchor function.nextOperation function.body }
  (placed.withUsesReplaced result function.nextValue function.nextOperation).withSharding
    result (some change.target)

/-- The function with results of an operation resharded after it, in a row that starts at the
anchor. -/
def reshardResults (function : Function) (operation anchor : OperationId) :
    List ResultChange → Function
  | [] => function
  | change :: rest =>
    match (function.operation operation).results[change.index]? with
    | none => function.reshardResults operation anchor rest
    | some result =>
      (function.reshardResult anchor result change).reshardResults operation
        function.nextOperation rest

/-- The function after a decision about one of its operations. -/
def carryOut (function : Function) (operation : OperationId) : Decision → Function
  | .skip _ => function
  | .exit operands => function.reshardOperands operation operands
  | .revise revision =>
    (function.reshardOperands operation revision.operands).reshardResults operation operation
      revision.results

end Function

/-! ## Runs -/

/-- Something that happens during a run. -/
inductive ReshardEvent where
  /-- Axes are committed for a factor. -/
  | committed (choice : FactorAxes)
  /-- The axes of a factor are agreed. -/
  | agreed (factor : Nat)
  /-- A value is resharded before the operation that uses it. -/
  | reshardedOperand (value : ValueId) (sharding : TensorSharding)
  /-- A result is resharded after the operation that produces it. -/
  | reshardedResult (result : ValueId) (sharding : TensorSharding)
  /-- An operation has been dealt with. -/
  | visited (operation : OperationId) (kind : OperationKind) (outcome : String)
  deriving DecidableEq

/-- Why a run ends early. -/
inductive ReshardError where
  /-- The shardings of an operation name a mesh that is not declared. -/
  | unknownMesh (mesh function : String) (kind : OperationKind)
  /-- An operation has no projection along its rule. -/
  | projection (cause : ProjectionError)
  deriving DecidableEq

/-- The text of an error that ends a run. -/
def ReshardError.message : ReshardError → String
  | .unknownMesh mesh function kind =>
    "operation '" ++ kind.name ++ "' in function '" ++ function ++
      "' refers to unknown mesh '@" ++ mesh ++ "'"
  | .projection cause => cause.message

/-- What was decided about an operation, and what happened when it was carried out. -/
structure Visit where
  operation : OperationId
  decision : Decision
  events : List ReshardEvent
  deriving DecidableEq

/-- The function after a run, the visits that were made, and the error that ended the run if there
was one. -/
structure ReshardRun where
  function : Function
  visits : List Visit
  error : Option ReshardError
  deriving DecidableEq

namespace ReshardRun

/-- The numbers of all visits together. -/
def tally (run : ReshardRun) : Tally :=
  run.visits.foldr (fun visit counted => (Tally.ofDecision visit.decision).add counted) .zero

/-- The events of all visits. -/
def events (run : ReshardRun) : List ReshardEvent :=
  run.visits.flatMap Visit.events

end ReshardRun

namespace Function

/-- The events of resharding operands of an operation. -/
def operandEvents (function : Function) (operation : OperationId)
    (changes : List OperandChange) : List ReshardEvent :=
  changes.filterMap fun change =>
    (function.operation operation).operands[change.slot]?.map fun value =>
      .reshardedOperand value change.target

/-- The events of resharding results of an operation. -/
def resultEvents (function : Function) (operation : OperationId)
    (changes : List ResultChange) : List ReshardEvent :=
  changes.filterMap fun change =>
    (function.operation operation).results[change.index]?.map fun result =>
      .reshardedResult result change.restored

/-- The visit of an operation of the function as it is before the decision is carried out. -/
def visit (function : Function) (operation : OperationId) (decision : Decision) : Visit :=
  let changes := match decision with
    | .skip _ => []
    | .exit operands => function.operandEvents operation operands
    | .revise revision =>
      revision.commitments.map ReshardEvent.committed ++
        (List.range revision.agreed.length).map ReshardEvent.agreed ++
        function.operandEvents operation revision.operands ++
        function.resultEvents operation revision.results
  let last := .visited operation (function.operation operation).kind decision.outcome
  ⟨operation, decision, changes ++ [last]⟩

/-- The decision about an operation of the function. -/
def decision (function : Function) (meshes : SymbolTable) (operation : OperationId) :
    Except ReshardError Decision :=
  match (function.signature operation).decision meshes function.results with
  | .ok decision => .ok decision
  | .error (.unknownMesh mesh) =>
    .error (.unknownMesh mesh function.name (function.operation operation).kind)
  | .error (.projection cause) => .error (.projection cause)

/-- The run over the given operations of a function. -/
def reshardFrom (meshes : SymbolTable) (function : Function) : List OperationId → ReshardRun
  | [] => ⟨function, [], none⟩
  | operation :: rest =>
    match function.decision meshes operation with
    | .error cause => ⟨function, [], some cause⟩
    | .ok decision =>
      let later := reshardFrom meshes (function.carryOut operation decision) rest
      { later with visits := function.visit operation decision :: later.visits }

/-- The run over a whole function. -/
def reshard (meshes : SymbolTable) (function : Function) : ReshardRun :=
  reshardFrom meshes function function.body

end Function

end MeshSharding
