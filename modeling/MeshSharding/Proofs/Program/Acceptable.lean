import Mathlib.Data.List.Dedup
import Mathlib.Data.List.Sort
import MeshSharding.Proofs.Program.Definition

/-!
# What verification accepts

Verification walks the body with the values that are defined so far, and a
function is acceptable by the origins of its values and the positions of its
operations. The two agree for every function that has a history: what has been
collected before a position are the arguments and the results of the operations
before it (`runsFrom_iff`), and these are the values whose origin is so
(`WellFormed.mem_defined_iff`).

The shardings that a walk looks at are those of the values it has collected, in
the order of their numbers. Since every operation has a place in the body these
are all values of the function (`WellFormed.inOrder_defined`), so nothing
is lost or added when verification is taken to look at all of them
(`WellFormed.verifyByWalk_eq`).
-/

set_option autoImplicit false

namespace MeshSharding

namespace Function

variable {function : Function} {meshes : SymbolTable}

/-! ## Verification by a single walk -/

/-- Walks a body as its check does, and returns the values that are defined after it. -/
def walkBody (function : Function) (terminator : OperationId) (defined : List ValueId) :
    List OperationId → Except ProgramError (List ValueId)
  | [] => .ok defined
  | operation :: rest =>
    let visited := function.operation operation
    if visited.kind = .exit ∧ operation ≠ terminator then
      .error (.misplacedTerminator operation function.name)
    else
      match visited.operands.find? fun operand => decide (operand ∉ defined) with
      | some operand => .error (.useBeforeDefinition operand operation)
      | none => function.walkBody terminator (defined ++ visited.results) rest

/-- The distinct values of a list, in the order of their numbers. -/
def inOrder (values : List ValueId) : List ValueId :=
  values.dedup.mergeSort fun first second => decide (first.index ≤ second.index)

/-- Accepts a function by a walk through its body, and checks the shardings of the values that the
walk has met. -/
def verifyByWalk (function : Function) (meshes : SymbolTable) : Except ProgramError Unit :=
  match function.terminator? with
  | none => .error (.missingTerminator function.name)
  | some terminator => do
    let defined ← function.walkBody terminator function.arguments function.body
    function.checkReturned (function.operation terminator).operands
    checkTensors meshes ((inOrder defined).map function.tensor)
    checkTensors meshes function.results

/-- A walk fails where the check of the body does, and collects the results of the body. -/
theorem walkBody_eq {terminator : OperationId} {defined : List ValueId}
    {body : List OperationId} : function.walkBody terminator defined body = (do
      function.checkBody terminator defined body
      .ok (defined ++ function.definedBy body)) := by
  induction body generalizing defined with
  | nil => rw [walkBody, checkBody, definedBy, List.flatMap_nil, List.append_nil, ok_bind]
  | cons operation rest ih =>
    rw [walkBody, checkBody, definedBy_cons, ← List.append_assoc]
    by_cases misplaced : (function.operation operation).kind = .exit ∧ operation ≠ terminator
    · simp only [if_pos misplaced]
      rfl
    · simp only [if_neg misplaced]
      cases (function.operation operation).operands.find? fun operand =>
        decide (operand ∉ defined) with
      | some operand => rfl
      | none => exact ih

/-- If a list has all the values up to a number, these are the values in order. -/
theorem inOrder_eq {values : List ValueId} {count : Nat}
    (all : ∀ value, value ∈ values ↔ value.index < count) :
    inOrder values = (List.range count).map ValueId.mk := by
  have distinct : ((List.range count).map ValueId.mk).Nodup :=
    List.nodup_range.map fun first second same => ValueId.mk.inj same
  have sorted : (inOrder values).Pairwise fun first second =>
      decide (first.index ≤ second.index) = true :=
    List.pairwise_mergeSort (by simp only [decide_eq_true_eq]; omega) (by simp; omega) _
  simp only [decide_eq_true_eq] at sorted
  refine List.Perm.eq_of_pairwise ?_ sorted ?_ ?_
  · intro first second _ _ below above
    cases first
    cases second
    exact congrArg ValueId.mk (Nat.le_antisymm below above)
  · rw [List.pairwise_map]
    exact List.pairwise_lt_range.imp Nat.le_of_lt
  · refine (List.mergeSort_perm ..).trans ?_
    rw [List.perm_ext_iff_of_nodup (List.nodup_dedup values) distinct]
    intro value
    rw [List.mem_dedup, all, List.mem_map]
    constructor
    · exact fun below => ⟨value.index, List.mem_range.mpr below, rfl⟩
    · rintro ⟨index, member, rfl⟩
      exact List.mem_range.mp member

/-- The values of a function are its arguments and the results of its body. -/
theorem WellFormed.mem_values_iff (wellFormed : function.WellFormed) {value : ValueId} :
    value ∈ function.arguments ++ function.definedBy function.body ↔
      value.index < function.values.length := by
  rw [List.mem_append]
  constructor
  · rintro (isArgument | isResult)
    · exact wellFormed.argument_lt isArgument
    · obtain ⟨operation, -, isResult⟩ := mem_definedBy_iff.mp isResult
      exact wellFormed.result_lt isResult
  · intro known
    obtain ⟨origin, found⟩ := exists_origin? known
    cases origin with
    | argument index =>
      exact .inl (List.mem_of_getElem? ((wellFormed.argument_iff index value).mpr found))
    | result operation index =>
      have placed : operation ∈ function.body :=
        (wellFormed.mem_body_iff operation).mpr (wellFormed.operation_lt_of_origin found)
      have isResult := (wellFormed.result_iff operation index value).mpr found
      exact .inr (mem_definedBy_iff.mpr ⟨operation, placed, List.mem_of_getElem? isResult⟩)

/-- In order, the values that a walk has met in the end are those that the function has. -/
theorem WellFormed.inOrder_defined (wellFormed : function.WellFormed) :
    (inOrder (function.arguments ++ function.definedBy function.body)).map function.tensor =
      function.values.map Value.tensor := by
  rw [inOrder_eq fun value => wellFormed.mem_values_iff, List.map_map]
  apply List.ext_getElem
  · rw [List.length_map, List.length_map, List.length_range]
  · intro index below _
    rw [List.length_map, List.length_range] at below
    rw [List.getElem_map, List.getElem_map, List.getElem_range, Function.comp_apply,
      Function.tensor, List.getElem?_eq_getElem below]
    rfl

/-- **It makes no difference whether the values met in a walk are checked or all values.** -/
theorem WellFormed.verifyByWalk_eq (wellFormed : function.WellFormed) :
    function.verifyByWalk meshes = function.verify meshes := by
  unfold verifyByWalk verify
  cases function.terminator? with
  | none => rfl
  | some terminator =>
    simp only [walkBody_eq, ← wellFormed.inOrder_defined]
    cases function.checkBody terminator function.arguments function.body <;> rfl

/-! ## Positions and origins -/

/-- At a position of the body a value is defined that is an argument, or a result of an operation
at an earlier position. -/
inductive DefinedBefore (function : Function) (position : Nat) (value : ValueId) : Prop
  | argument {index : Nat} (origin : function.origin? value = some (.argument index))
  | result {operation : OperationId} {index earlier : Nat}
      (origin : function.origin? value = some (.result operation index))
      (before : earlier < position) (placed : function.body[earlier]? = some operation)

/-- A body runs when the operands at each position are given or results of operations before. -/
theorem runsFrom_iff {defined : List ValueId} {body : List OperationId} :
    function.RunsFrom defined body ↔
      ∀ (position : Nat) (operation : OperationId), body[position]? = some operation →
        ∀ operand ∈ (function.operation operation).operands,
          operand ∈ defined ++ function.definedBy (body.take position) := by
  induction body generalizing defined with
  | nil => simp [RunsFrom]
  | cons first rest ih =>
    rw [RunsFrom, ih]
    constructor
    · rintro ⟨operands, later⟩ position operation placed operand isOperand
      cases position with
      | zero =>
        rw [List.getElem?_cons_zero, Option.some.injEq] at placed
        subst placed
        exact List.mem_append_left _ (operands operand isOperand)
      | succ position =>
        rw [List.take_succ_cons, definedBy_cons, ← List.append_assoc]
        exact later position operation placed operand isOperand
    · intro each
      constructor
      · intro operand isOperand
        simpa [definedBy] using each 0 first rfl operand isOperand
      · intro position operation placed operand isOperand
        rw [List.append_assoc, ← definedBy_cons, ← List.take_succ_cons]
        exact each (position + 1) operation placed operand isOperand

/-- What is defined at a position can be told from the origin of the value. -/
theorem WellFormed.mem_defined_iff (wellFormed : function.WellFormed) {position : Nat}
    {value : ValueId} :
    value ∈ function.arguments ++ function.definedBy (function.body.take position) ↔
      function.DefinedBefore position value := by
  rw [List.mem_append, mem_definedBy_iff]
  constructor
  · rintro (isArgument | ⟨operation, isEarlier, isResult⟩)
    · obtain ⟨index, found⟩ := List.mem_iff_getElem?.mp isArgument
      exact .argument ((wellFormed.argument_iff index value).mp found)
    · obtain ⟨index, found⟩ := List.mem_iff_getElem?.mp isResult
      obtain ⟨earlier, below, placed⟩ := List.mem_take_iff_getElem.mp isEarlier
      exact .result ((wellFormed.result_iff operation index value).mp found)
        (Nat.lt_of_lt_of_le below (Nat.min_le_left ..)) (List.getElem?_eq_some_iff.mpr ⟨_, placed⟩)
  · rintro (⟨origin⟩ | ⟨origin, before, placed⟩)
    · exact .inl (List.mem_of_getElem? ((wellFormed.argument_iff _ value).mpr origin))
    · refine .inr ⟨_, ?_, List.mem_of_getElem? ((wellFormed.result_iff _ _ value).mpr origin)⟩
      obtain ⟨below, placed⟩ := List.getElem?_eq_some_iff.mp placed
      exact List.mem_take_iff_getElem.mpr ⟨_, Nat.lt_min.mpr ⟨before, below⟩, placed⟩

/-- Operands are defined before their operation exactly when the body runs from the arguments. -/
theorem WellFormed.runs_iff (wellFormed : function.WellFormed) :
    function.RunsFrom function.arguments function.body ↔
      ∀ (position : Nat) (operation : OperationId), function.body[position]? = some operation →
        ∀ operand ∈ (function.operation operation).operands,
          function.DefinedBefore position operand := by
  simp only [runsFrom_iff, wellFormed.mem_defined_iff]

/-- The return is the only one and at the end exactly when it stands at the last position and no
return at another. -/
theorem WellFormed.exits_iff (wellFormed : function.WellFormed) {front : List OperationId}
    {terminator : OperationId} (ends : function.body = front ++ [terminator]) :
    ((function.operation terminator).kind = .exit ∧
        ∀ operation ∈ function.body,
          (function.operation operation).kind = .exit → operation = terminator) ↔
      ∀ (position : Nat) (operation : OperationId), function.body[position]? = some operation →
        ((function.operation operation).kind = .exit ↔
          position + 1 = function.body.length) := by
  have last : function.body[front.length]? = some terminator := by
    rw [ends, List.getElem?_concat_length]
  have count : front.length + 1 = function.body.length := by
    rw [ends, List.length_append, List.length_singleton]
  constructor
  · rintro ⟨isExit, onlyExit⟩ position operation placed
    constructor
    · intro alsoExit
      have isLast := onlyExit operation (List.mem_of_getElem? placed) alsoExit
      have below := (List.getElem?_eq_some_iff.mp placed).1
      have same : position = front.length :=
        (List.getElem?_inj below wellFormed.body_nodup).mp (by rw [placed, last, isLast])
      rw [same, count]
    · intro atEnd
      have same : position = front.length := by omega
      rw [same, last, Option.some.injEq] at placed
      rwa [← placed]
  · intro each
    refine ⟨(each front.length terminator last).mpr count, ?_⟩
    intro operation member alsoExit
    obtain ⟨position, placed⟩ := List.mem_iff_getElem?.mp member
    have atEnd := (each position operation placed).mp alsoExit
    have same : position = front.length := by omega
    rw [same, last] at placed
    exact (Option.some.inj placed).symm

/-! ## Acceptable functions -/

/-- A function is acceptable by its values and the positions of its operations: the last operation
of the body is its only return, operands are defined before they are used, the returned values have
the declared types, and shardings name declared meshes that they suit. -/
structure Acceptable (function : Function) (meshes : SymbolTable) : Prop where
  nonempty : function.body ≠ []
  exit_iff : ∀ (position : Nat) (operation : OperationId),
    function.body[position]? = some operation →
      ((function.operation operation).kind = .exit ↔ position + 1 = function.body.length)
  defined : ∀ (position : Nat) (operation : OperationId),
    function.body[position]? = some operation →
      ∀ operand ∈ (function.operation operation).operands, function.DefinedBefore position operand
  returned : ∀ terminator, function.body.getLast? = some terminator →
    List.Forall₂ (fun value declared => (function.tensor value).type = declared.type)
      (function.operation terminator).operands function.results
  values : ∀ value : ValueId, value.index < function.values.length →
    ∀ sharding, (function.tensor value).sharding = some sharding →
      ∃ mesh, meshes.mesh? sharding.mesh = some mesh ∧
        sharding.check mesh (function.tensor value).rank = .ok ()
  results : ∀ declared ∈ function.results, ∀ sharding, declared.sharding = some sharding →
    ∃ mesh, meshes.mesh? sharding.mesh = some mesh ∧
      sharding.check mesh declared.rank = .ok ()

/-- Types agree in order when the two lists agree in number and type by type. -/
theorem map_type_eq_iff {returned : List ValueId} {declared : List Tensor} :
    returned.map (fun value => (function.tensor value).type) = declared.map Tensor.type ↔
      List.Forall₂ (fun value declared => (function.tensor value).type = declared.type)
        returned declared := by
  rw [← List.forall₂_eq_eq_eq, List.forall₂_map_left_iff, List.forall₂_map_right_iff]

theorem WellFormed.acceptable_iff (wellFormed : function.WellFormed) :
    function.Acceptable meshes ↔ ∃ terminator, function.Verifies meshes terminator := by
  constructor
  · intro acceptable
    obtain ⟨front, terminator, ends⟩ :=
      (List.eq_nil_or_concat function.body).resolve_left acceptable.nonempty
    rw [List.concat_eq_append] at ends
    obtain ⟨isExit, onlyExit⟩ := (wellFormed.exits_iff ends).mpr acceptable.exit_iff
    have isLast : function.body.getLast? = some terminator := by rw [ends, List.getLast?_concat]
    exact ⟨terminator,
      { ends := ⟨front, ends⟩
        is_exit := isExit
        only_exit := onlyExit
        runs := wellFormed.runs_iff.mpr acceptable.defined
        returned := map_type_eq_iff.mpr (acceptable.returned terminator isLast)
        values := fun value known => Tensor.check_eq_ok_iff.mpr (acceptable.values value known)
        results := fun declared member =>
          Tensor.check_eq_ok_iff.mpr (acceptable.results declared member) }⟩
  · rintro ⟨terminator, verifies⟩
    obtain ⟨front, ends⟩ := verifies.ends
    exact {
      nonempty := by simp [ends]
      exit_iff := (wellFormed.exits_iff ends).mp ⟨verifies.is_exit, verifies.only_exit⟩
      defined := wellFormed.runs_iff.mp verifies.runs
      returned := by
        intro last isLast
        rw [ends, List.getLast?_concat, Option.some.injEq] at isLast
        exact isLast ▸ map_type_eq_iff.mp verifies.returned
      values := fun value known => Tensor.check_eq_ok_iff.mp (verifies.values value known)
      results := fun declared member =>
        Tensor.check_eq_ok_iff.mp (verifies.results declared member) }

/-- **A function with a history verifies exactly when it is acceptable**, whether verification looks
at the values that its walk has met or at all of them. -/
theorem verify_ofHistory_iff (name : String) (history : List Edit) (meshes : SymbolTable) :
    (ofHistory name history).verifyByWalk meshes = (ofHistory name history).verify meshes ∧
      ((ofHistory name history).verify meshes = .ok () ↔
        (ofHistory name history).Acceptable meshes) := by
  have wellFormed := wellFormed_ofHistory name history
  exact ⟨wellFormed.verifyByWalk_eq, verify_eq_ok_iff.trans wellFormed.acceptable_iff.symm⟩

/-- The order of the body counts and not that of creation: the second operation takes a result of
the first, which was created before but runs after it. -/
example : (ofHistory "swapped" [.addArgument ⟨⟨[6], .f32⟩, none⟩,
    .append (.custom "first") [⟨0⟩] [⟨[6], .f32⟩],
    .insertBefore ⟨0⟩ (.custom "second") [⟨1⟩] [⟨[6], .f32⟩],
    .append .exit [] []]).verify .empty = .error (.useBeforeDefinition ⟨1⟩ ⟨1⟩) := rfl

end Function

end MeshSharding
