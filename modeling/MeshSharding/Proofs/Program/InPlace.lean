import MeshSharding.Proofs.Program.WellFormed

/-!
# Editing in place

A function can be edited in place, by steps that each change one of its lists. A
step that fails leaves what the steps before it have done: nothing is undone
(`Steps`). An edit creates the values of an operation one by one, then the
operation, and then places it in the body; uses are replaced operation by
operation, in the order of the body.

What an edit leaves is nevertheless the edited function or the function as it
was, since all checks are made before the first change (`perform_eq`). Replacing
uses reaches all operations only if the body lists all of them, so this depends
on the function being well formed. From the empty function on, every list of
edits in place therefore leaves a function whose body, origins and operands fit
together, and on which every refused edit changes nothing
(`performed_consistent`).
-/

set_option autoImplicit false

namespace MeshSharding

/-- Steps that change a function in place. A failure keeps the function as it is at that point. -/
abbrev Steps (α : Type) := EStateM ProgramError Function α

/-- What an edit answers: the handle that was given out or the index of the declared result. -/
inductive Answer where
  | value (value : ValueId)
  | result (index : Nat)
  | operation (operation : OperationId)
  | done
  deriving DecidableEq

namespace Steps

/-! ## The steps of an edit -/

/-- A check of the function as it is. -/
def require (check : Function → Except ProgramError Unit) : Steps Unit := do
  match check (← get) with
  | .ok () => pure ()
  | .error cause => throw cause

/-- A new value behind the others. -/
def createValue (tensor : Tensor) (origin : Origin) : Steps ValueId := do
  modify fun function => { function with values := function.values ++ [⟨tensor, origin⟩] }
  return ⟨(← get).values.length - 1⟩

/-- A new value for each result of an operation, from an index on. -/
def createResults (operation : OperationId) : Nat → List TensorType → Steps (List ValueId)
  | _, [] => pure []
  | index, type :: rest => do
    let value ← createValue ⟨type, none⟩ (.result operation index)
    let later ← createResults operation (index + 1) rest
    return value :: later

/-- Checks of operands, one by one. -/
def requireValues : List ValueId → Steps Unit
  | [] => pure ()
  | value :: rest => do
    require (·.checkValue value)
    requireValues rest

/-- A new operation behind the others, and the values that are its results. -/
def createOperation (kind : OperationKind) (operands : List ValueId) (types : List TensorType) :
    Steps OperationId := do
  requireValues operands
  let operation := (← get).nextOperation
  let results ← createResults operation 0 types
  modify fun function =>
    { function with operations := function.operations ++ [⟨kind, operands, results, none⟩] }
  return operation

/-- The position of an operation in the body. -/
def position (operation : OperationId) : Steps Nat := do
  let function ← get
  match function.body.findIdx? (· == operation) with
  | some position => return position
  | none => throw (.unknownOperation operation function.name)

/-- An operation placed at a position of the body. -/
def placeAt (position : Nat) (operation : OperationId) : Steps Unit :=
  modify fun function => { function with body := function.body.insertIdx position operation }

/-- An operation renamed in its operands. -/
def renamed (value replacement : ValueId) (changed : Operation) : Operation :=
  { changed with operands := changed.operands.map fun operand =>
      if operand = value then replacement else operand }

/-- All listed operations but one renamed in their operands, in order. -/
def renameIn (value replacement : ValueId) (kept : OperationId) : List OperationId → Steps Unit
  | [] => pure ()
  | operation :: rest => do
    if operation ≠ kept then
      modify fun function => { function with
        operations := function.operations.modify operation.index (renamed value replacement) }
    renameIn value replacement kept rest

end Steps

open Steps in
/-- An edit, step by step. -/
def Edit.perform : Edit → Steps Answer
  | .addArgument tensor => do
    let index := (← get).arguments.length
    let value ← createValue tensor (.argument index)
    modify fun function => { function with arguments := function.arguments ++ [value] }
    return .value value
  | .addResult tensor => do
    modify fun function => { function with results := function.results ++ [tensor] }
    return .result ((← get).results.length - 1)
  | .append kind operands types => do
    let operation ← createOperation kind operands types
    modify fun function => { function with body := function.body ++ [operation] }
    return .operation operation
  | .insertBefore anchor kind operands types => do
    let index ← position anchor
    let operation ← createOperation kind operands types
    placeAt index operation
    return .operation operation
  | .insertAfter anchor kind operands types => do
    let index ← position anchor
    let operation ← createOperation kind operands types
    placeAt (index + 1) operation
    return .operation operation
  | .setSharding value sharding => do
    require (·.checkValue value)
    modify (·.withSharding value sharding)
    return .done
  | .setOperand use value => do
    require (·.checkValue value)
    require (·.checkOperation use.operation)
    let operandCount := ((← get).operation use.operation).operands.length
    if use.slot < operandCount then
      modify (·.withOperand use value)
      return .done
    else throw (.operandOutOfBounds use operandCount)
  | .replaceUses value replacement kept => do
    require (·.checkValue value)
    require (·.checkValue replacement)
    renameIn value replacement kept (← get).body
    return .done
  | .setRule operation attached => do
    require (·.checkOperation operation)
    modify (·.withRule operation attached)
    return .done

namespace Steps

variable {α β : Type} {function changed : Function} {cause : ProgramError}

/-! ## What the steps do -/

theorem bind_of_ok {steps : Steps α} {answer : α} (isOk : steps function = .ok answer changed)
    (rest : α → Steps β) : (steps >>= rest) function = rest answer changed := by
  simp only [bind, EStateM.bind, isOk]

theorem bind_of_error {steps : Steps α} (isError : steps function = .error cause changed)
    (rest : α → Steps β) : (steps >>= rest) function = .error cause changed := by
  simp only [bind, EStateM.bind, isError]

theorem get_bind (rest : Function → Steps β) :
    ((get : Steps Function) >>= rest) function = rest function function := rfl

theorem modify_bind (update : Function → Function) (rest : PUnit → Steps β) :
    ((modify update : Steps PUnit) >>= rest) function = rest ⟨⟩ (update function) := rfl

theorem require_of_ok {check : Function → Except ProgramError Unit}
    (isOk : check function = .ok ()) : require check function = .ok () function := by
  rw [require, get_bind, isOk]
  rfl

theorem require_of_error {check : Function → Except ProgramError Unit}
    (isError : check function = .error cause) :
    require check function = .error cause function := by
  rw [require, get_bind, isError]
  rfl

theorem requireValues_eq (values : List ValueId) :
    requireValues values function = require (·.checkValues values) function := by
  induction values with
  | nil => rfl
  | cons value rest ih =>
    rw [requireValues]
    cases known : function.checkValue value with
    | error cause =>
      rw [bind_of_error (require_of_error known), require_of_error]
      rw [Function.checkValues, known]
      rfl
    | ok checked =>
      rw [bind_of_ok (require_of_ok known), ih, require, require, get_bind, get_bind,
        Function.checkValues, known]
      rfl

theorem createValue_eq (tensor : Tensor) (origin : Origin) :
    createValue tensor origin function =
      .ok function.nextValue { function with values := function.values ++ [⟨tensor, origin⟩] } := by
  rw [createValue, modify_bind, get_bind]
  simp [Function.nextValue, pure, EStateM.pure]

theorem createResults_eq (operation : OperationId) (index : Nat) (types : List TensorType) :
    createResults operation index types function =
      .ok (function.nextValues types.length) { function with
        values := function.values ++ (types.zipIdx index).map fun type =>
          ⟨⟨type.1, none⟩, .result operation type.2⟩ } := by
  induction types generalizing function index with
  | nil => simp [createResults, Function.nextValues, pure, EStateM.pure]
  | cons type rest ih =>
    rw [createResults, bind_of_ok (createValue_eq ..), bind_of_ok (ih (index + 1))]
    simp [Function.nextValue, Function.nextValues, List.range'_succ, pure, EStateM.pure]

/-- With known operands an operation is created. -/
theorem createOperation_of_ok (kind : OperationKind) {operands : List ValueId}
    (types : List TensorType) (known : function.checkValues operands = .ok ()) :
    createOperation kind operands types function =
      .ok function.nextOperation (function.create kind operands types) := by
  have checked : requireValues operands function = .ok () function := by
    rw [requireValues_eq, require_of_ok known]
  rw [createOperation, bind_of_ok checked, get_bind, bind_of_ok (createResults_eq ..), modify_bind]
  rfl

/-- With an unknown operand nothing is created, neither the operation nor its results. -/
theorem createOperation_of_error (kind : OperationKind) {operands : List ValueId}
    (types : List TensorType) (unknown : function.checkValues operands = .error cause) :
    createOperation kind operands types function = .error cause function := by
  rw [createOperation]
  apply bind_of_error
  rw [requireValues_eq, require_of_error unknown]

theorem position_eq (anchor : OperationId) :
    position anchor function = match function.body.findIdx? (· == anchor) with
      | some index => .ok index function
      | none => .error (.unknownOperation anchor function.name) function := by
  rw [position, get_bind]
  cases function.body.findIdx? (· == anchor) <;> rfl

/-- At the position that is found the new operation is before the anchor, one further on behind
it. -/
theorem insertIdx_of_findIdx? {anchor : OperationId} (operation : OperationId)
    {body : List OperationId} {index : Nat} (found : body.findIdx? (· == anchor) = some index) :
    body.insertIdx index operation = insertedBefore anchor operation body ∧
      body.insertIdx (index + 1) operation = insertedAfter anchor operation body := by
  induction body generalizing index with
  | nil => cases found
  | cons first rest ih =>
    rw [List.findIdx?_cons] at found
    by_cases same : first = anchor
    · simp only [same, beq_self_eq_true, if_true, Option.some.injEq] at found
      simp [← found, insertedBefore, insertedAfter, same]
    · simp only [beq_iff_eq, same, if_false, Option.map_eq_some_iff] at found
      obtain ⟨later, isLater, rfl⟩ := found
      obtain ⟨before, after⟩ := ih isLater
      simp [insertedBefore, insertedAfter, same, before, after]

/-- The operations renamed in their operands, as far as they are listed and not kept. -/
def renamedIn (value replacement : ValueId) (kept : OperationId) (body : List OperationId)
    (operations : List Operation) : List Operation :=
  operations.mapIdx fun index changed =>
    if ⟨index⟩ ∈ body ∧ index ≠ kept.index then renamed value replacement changed else changed

theorem renamedIn_nil (value replacement : ValueId) (kept : OperationId)
    (operations : List Operation) : renamedIn value replacement kept [] operations = operations := by
  apply List.ext_getElem?
  intro index
  simp [renamedIn]

/-- An operation that is not listed again may be renamed before the others. -/
theorem renamedIn_cons (value replacement : ValueId) {kept operation : OperationId}
    (differs : operation ≠ kept) {rest : List OperationId} (fresh : operation ∉ rest)
    (operations : List Operation) :
    renamedIn value replacement kept rest
        (operations.modify operation.index (renamed value replacement)) =
      renamedIn value replacement kept (operation :: rest) operations := by
  apply List.ext_getElem?
  intro index
  simp only [renamedIn, List.getElem?_mapIdx, List.getElem?_modify]
  cases operations[index]? with
  | none => rfl
  | some changed =>
    by_cases here : operation = ⟨index⟩
    · have notKept : index ≠ kept.index := fun same => differs (by rw [here, same])
      simp [here, notKept, here ▸ fresh]
    · have elsewhere : operation.index ≠ index := fun same => here (by rw [← same])
      simp [elsewhere, Ne.symm here]

/-- The kept operation may be left out. -/
theorem renamedIn_cons_kept (value replacement : ValueId) (kept : OperationId)
    (rest : List OperationId) (operations : List Operation) :
    renamedIn value replacement kept (kept :: rest) operations =
      renamedIn value replacement kept rest operations := by
  apply List.ext_getElem?
  intro index
  simp only [renamedIn, List.getElem?_mapIdx]
  cases operations[index]? with
  | none => rfl
  | some changed =>
    by_cases here : (⟨index⟩ : OperationId) = kept
    · simp [← here]
    · simp [here]

/-- Renaming goes through the body and reaches the operations that it lists. -/
theorem renameIn_eq (value replacement : ValueId) (kept : OperationId) {body : List OperationId}
    (once : body.Nodup) :
    renameIn value replacement kept body function = .ok ⟨⟩ { function with
      operations := renamedIn value replacement kept body function.operations } := by
  induction body generalizing function with
  | nil =>
    rw [renamedIn_nil]
    rfl
  | cons operation rest ih =>
    obtain ⟨fresh, restOnce⟩ := List.nodup_cons.mp once
    rw [renameIn]
    by_cases same : operation = kept
    · rw [same, renamedIn_cons_kept]
      simp only [ne_eq, not_true_eq_false, if_false]
      exact ih restOnce
    · rw [if_pos same, modify_bind]
      exact (ih restOnce).trans (by rw [renamedIn_cons _ _ same fresh])

/-- A body that lists all operations lets renaming reach all of them. -/
theorem renamedIn_body (wellFormed : function.WellFormed) (value replacement : ValueId)
    (kept : OperationId) :
    { function with
        operations := renamedIn value replacement kept function.body function.operations } =
      function.withUsesReplaced value replacement kept := by
  rw [Function.withUsesReplaced]
  congr 1
  apply List.ext_getElem?
  intro index
  simp only [renamedIn, List.getElem?_mapIdx]
  cases found : function.operations[index]? with
  | none => rfl
  | some changed =>
    have placed : (⟨index⟩ : OperationId) ∈ function.body :=
      (wellFormed.mem_body_iff ⟨index⟩).mpr (List.getElem?_eq_some_iff.mp found).1
    by_cases here : index = kept.index
    · simp [here]
    · simp [here, placed, renamed]

end Steps

namespace Function

open Steps

variable {function : Function}

/-- What an edit answers if it is not refused. -/
def answer (function : Function) : Edit → Answer
  | .addArgument _ => .value function.nextValue
  | .addResult _ => .result function.results.length
  | .append .. | .insertBefore .. | .insertAfter .. => .operation function.nextOperation
  | .setSharding .. | .setOperand .. | .replaceUses .. | .setRule .. => .done

/-- What an edit in place comes to: the edited function, or an error and nothing changed. -/
def outcome (function : Function) (answer : Answer) (edited : Except ProgramError Function) :
    EStateM.Result ProgramError Function Answer :=
  match edited with
  | .ok changed => .ok answer changed
  | .error cause => .error cause function

/-- A check in front of an edit decides whether the rest of the edit is made. -/
theorem require_bind_eq {check : Function → Except ProgramError Unit} {rest : Steps Answer}
    {answer : Answer} {edited : Except ProgramError Function}
    (goesOn : check function = .ok () → rest function = function.outcome answer edited) :
    (require check >>= fun _ => rest) function =
      function.outcome answer (check function >>= fun _ => edited) := by
  cases checked : check function with
  | error cause =>
    rw [bind_of_error (require_of_error checked)]
    rfl
  | ok value =>
    rw [bind_of_ok (require_of_ok checked), goesOn checked]
    rfl

/-- Looking for an anchor decides it too. -/
theorem position_bind_eq {anchor : OperationId} {rest : Nat → Steps Answer} {answer : Answer}
    {edited : Except ProgramError Function}
    (goesOn : ∀ index, function.body.findIdx? (· == anchor) = some index →
      rest index function = function.outcome answer edited) :
    (position anchor >>= rest) function =
      function.outcome answer (function.checkPlaced anchor >>= fun _ => edited) := by
  have isPosition : position anchor function = _ := position_eq anchor
  cases found : function.body.findIdx? (· == anchor) with
  | none =>
    rw [found] at isPosition
    have absent : anchor ∉ function.body := fun member =>
      absurd (beq_self_eq_true anchor) (by simpa using List.findIdx?_eq_none_iff.mp found _ member)
    rw [bind_of_error isPosition, checkPlaced, if_neg absent]
    rfl
  | some index =>
    rw [found] at isPosition
    have placed : anchor ∈ function.body := by
      obtain ⟨below, isAnchor, -⟩ := List.findIdx?_eq_some_iff_getElem.mp found
      exact beq_iff_eq.mp isAnchor ▸ List.getElem_mem below
    rw [bind_of_ok isPosition, goesOn index found, checkPlaced, if_pos placed]
    rfl

/-- A new operation is given a place in the body once it has been created. -/
theorem create_bind_eq (kind : OperationKind) (operands : List ValueId) (types : List TensorType)
    {place : OperationId → Steps Answer} {body : List OperationId}
    (isPlaced : place function.nextOperation (function.create kind operands types) =
      .ok (.operation function.nextOperation)
        { function.create kind operands types with body }) :
    (createOperation kind operands types >>= place) function =
      function.outcome (.operation function.nextOperation) (do
        function.checkValues operands
        return { function.create kind operands types with body }) := by
  cases known : function.checkValues operands with
  | error cause =>
    rw [bind_of_error (createOperation_of_error kind types known)]
    rfl
  | ok checked =>
    rw [bind_of_ok (createOperation_of_ok kind types known), isPlaced]
    rfl

/-- **An edit in place leaves the edited function, or an error and the function as it was.** -/
theorem perform_eq (wellFormed : function.WellFormed) (edit : Edit) :
    edit.perform function = function.outcome (function.answer edit) (function.edited edit) := by
  cases edit with
  | addArgument tensor =>
    rw [Edit.perform, get_bind, bind_of_ok (createValue_eq ..), modify_bind]
    rfl
  | addResult tensor =>
    rw [Edit.perform, modify_bind, get_bind]
    simp [outcome, answer, edited, addResult, pure, EStateM.pure]
  | append kind operands types =>
    exact create_bind_eq kind operands types rfl
  | insertBefore anchor kind operands types =>
    refine position_bind_eq fun index found => create_bind_eq kind operands types ?_
    rw [← (insertIdx_of_findIdx? function.nextOperation found).1]
    rfl
  | insertAfter anchor kind operands types =>
    refine position_bind_eq fun index found => create_bind_eq kind operands types ?_
    rw [← (insertIdx_of_findIdx? function.nextOperation found).2]
    rfl
  | setSharding value sharding => exact require_bind_eq fun _ => rfl
  | setOperand use value =>
    refine require_bind_eq fun _ => require_bind_eq fun _ => ?_
    rw [get_bind]
    by_cases within : use.slot < (function.operation use.operation).operands.length
    · rw [if_pos within, if_pos within]
      rfl
    · rw [if_neg within, if_neg within]
      rfl
  | replaceUses value replacement kept =>
    refine require_bind_eq fun _ => require_bind_eq fun _ => ?_
    rw [get_bind, bind_of_ok (renameIn_eq value replacement kept wellFormed.body_nodup),
      renamedIn_body wellFormed]
    rfl
  | setRule operation attached => exact require_bind_eq fun _ => rfl

/-! ## Lists of edits in place -/

/-- The function that an edit in place leaves, refused or not. -/
def afterSteps (function : Function) (edit : Edit) : Function :=
  match edit.perform function with
  | .ok _ changed => changed
  | .error _ changed => changed

/-- The function that edits in place leave, one after the other. -/
def performed (name : String) (history : List Edit) : Function :=
  history.foldl afterSteps (empty name)

theorem afterSteps_eq (wellFormed : function.WellFormed) (edit : Edit) :
    function.afterSteps edit = function.afterEdit edit := by
  rw [afterSteps, perform_eq wellFormed, afterEdit]
  cases function.edited edit <;> rfl

/-- Editing in place makes the functions that histories make. -/
theorem performed_eq (name : String) (history : List Edit) :
    performed name history = ofHistory name history := by
  have agrees : ∀ function : Function, function.WellFormed →
      history.foldl afterSteps function = history.foldl afterEdit function := by
    induction history with
    | nil => exact fun _ _ => rfl
    | cons edit rest ih =>
      intro function wellFormed
      rw [List.foldl_cons, List.foldl_cons, afterSteps_eq wellFormed]
      exact ih _ (wellFormed.afterEdit edit)
  exact agrees (empty name) (wellFormed_empty name)

/-- The value is the argument or the result that the origin says. -/
def Produces (function : Function) (origin : Origin) (value : ValueId) : Prop :=
  match origin with
  | .argument index => function.arguments[index]? = some value
  | .result operation index => (function.operation operation).results[index]? = some value

theorem WellFormed.produces_iff (wellFormed : function.WellFormed) {origin : Origin}
    {value : ValueId} : function.Produces origin value ↔ function.origin? value = some origin := by
  cases origin with
  | argument index => exact wellFormed.argument_iff index value
  | result operation index => exact wellFormed.result_iff operation index value

/-- Every value of a well-formed function is one argument or one result of one operation. -/
theorem WellFormed.existsUnique_produces (wellFormed : function.WellFormed) {value : ValueId}
    (known : value.index < function.values.length) :
    ∃ origin, function.Produces origin value ∧
      ∀ other, function.Produces other value → other = origin := by
  have isOrigin : function.origin? value = some function.values[value.index].origin := by
    rw [origin?, List.getElem?_eq_getElem known, Option.map_some]
  refine ⟨_, wellFormed.produces_iff.mpr isOrigin, fun other produces => ?_⟩
  rw [wellFormed.produces_iff, isOrigin] at produces
  exact (Option.some.inj produces).symm

/-- **A function that is edited in place stays consistent.** Whatever edits were made or refused, the
body lists every operation once, the origin of a value is the argument or result that it is and no
value has two, operands are values, and a refused edit leaves the function exactly as it was. -/
theorem performed_consistent (name : String) (history : List Edit) :
    (performed name history).body.Nodup ∧
      (∀ operation, operation ∈ (performed name history).body ↔
        operation.index < (performed name history).operations.length) ∧
      (∀ value index, (performed name history).origin? value = some (.argument index) ↔
        (performed name history).arguments[index]? = some value) ∧
      (∀ value operation index,
        (performed name history).origin? value = some (.result operation index) ↔
          ((performed name history).operation operation).results[index]? = some value) ∧
      (∀ value : ValueId, value.index < (performed name history).values.length →
        ∃ origin, (performed name history).Produces origin value ∧
          ∀ other, (performed name history).Produces other value → other = origin) ∧
      (∀ operation, ∀ operand ∈ ((performed name history).operation operation).operands,
        operand.index < (performed name history).values.length) ∧
      ∀ (edit : Edit) (cause : ProgramError) (changed : Function),
        edit.perform (performed name history) = .error cause changed →
          changed = performed name history := by
  have wellFormed : (performed name history).WellFormed := by
    rw [performed_eq]
    exact wellFormed_ofHistory name history
  refine ⟨wellFormed.body_nodup, wellFormed.mem_body_iff,
    fun value index => (wellFormed.argument_iff index value).symm,
    fun value operation index => (wellFormed.result_iff operation index value).symm,
    fun value known => wellFormed.existsUnique_produces known, wellFormed.operand_lt, ?_⟩
  intro edit cause changed isError
  rw [perform_eq wellFormed] at isError
  cases edited : (performed name history).edited edit with
  | ok other =>
    rw [edited] at isError
    cases isError
  | error refusal =>
    rw [edited] at isError
    cases isError
    rfl

end Function

end MeshSharding
