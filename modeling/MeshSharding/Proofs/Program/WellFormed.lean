import MeshSharding.Proofs.Program.Reading
import MeshSharding.Proofs.ListsAndChecks

/-!
# Well-formed functions

In a well-formed function the body lists every operation once, arguments and
results are exactly the values with the corresponding origins, and operands are
values of the function. The empty function is well formed, every edit keeps a
function so, and hence every function that has a history is well formed
(`wellFormed_ofHistory`).

A new operation is placed right before or right after another one. Seen from the
place where that other operation stands, the body is cut in two there and the
new operation goes into the cut (`insertedBefore_append`, `insertedAfter_append`);
seen as a collection, the body has one operation more. The main step is that an
operation with known operands may be created and put anywhere into the body
(`WellFormed.place`).
-/

set_option autoImplicit false

namespace MeshSharding

/-! ## Placing an operation in a body -/

section Body

variable {anchor operation : OperationId}

theorem insertedBefore_append {front : List OperationId} (absent : anchor ∉ front)
    (back : List OperationId) :
    insertedBefore anchor operation (front ++ anchor :: back) =
      front ++ operation :: anchor :: back := by
  induction front with
  | nil => simp [insertedBefore]
  | cons first rest ih =>
    simp only [List.mem_cons, not_or] at absent
    simp only [List.cons_append, insertedBefore, Ne.symm absent.1, if_false, ih absent.2]

theorem insertedAfter_append {front : List OperationId} (absent : anchor ∉ front)
    (back : List OperationId) :
    insertedAfter anchor operation (front ++ anchor :: back) =
      front ++ anchor :: operation :: back := by
  induction front with
  | nil => simp [insertedAfter]
  | cons first rest ih =>
    simp only [List.mem_cons, not_or] at absent
    simp only [List.cons_append, insertedAfter, Ne.symm absent.1, if_false, ih absent.2]

theorem insertedBefore_perm {body : List OperationId} (member : anchor ∈ body) :
    (insertedBefore anchor operation body).Perm (operation :: body) := by
  induction body with
  | nil => exact absurd member List.not_mem_nil
  | cons first rest ih =>
    by_cases same : first = anchor
    · simp only [insertedBefore, same, if_true, List.Perm.refl]
    · have later : anchor ∈ rest := (List.mem_cons.mp member).resolve_left (Ne.symm same)
      simp only [insertedBefore, same, if_false]
      exact ((ih later).cons first).trans (List.Perm.swap operation first rest)

theorem insertedAfter_perm {body : List OperationId} (member : anchor ∈ body) :
    (insertedAfter anchor operation body).Perm (operation :: body) := by
  induction body with
  | nil => exact absurd member List.not_mem_nil
  | cons first rest ih =>
    by_cases same : first = anchor
    · simp only [insertedAfter, same, if_true]
      exact List.Perm.swap operation anchor rest
    · have later : anchor ∈ rest := (List.mem_cons.mp member).resolve_left (Ne.symm same)
      simp only [insertedAfter, same, if_false]
      exact ((ih later).cons first).trans (List.Perm.swap operation first rest)

/-- Leaving the new operation out gives back what the body was. -/
theorem filter_insertedBefore {keep : OperationId → Bool} (dropped : keep operation = false)
    (body : List OperationId) :
    (insertedBefore anchor operation body).filter keep = body.filter keep := by
  induction body with
  | nil => rfl
  | cons first rest ih =>
    by_cases same : first = anchor
    · simp only [insertedBefore, same, if_true, List.filter_cons, dropped, Bool.false_eq_true,
        if_false]
    · simp only [insertedBefore, same, if_false, List.filter_cons, ih]

theorem filter_insertedAfter {keep : OperationId → Bool} (dropped : keep operation = false)
    (body : List OperationId) :
    (insertedAfter anchor operation body).filter keep = body.filter keep := by
  induction body with
  | nil => rfl
  | cons first rest ih =>
    by_cases same : first = anchor
    · simp only [insertedAfter, same, if_true, List.filter_cons, dropped, Bool.false_eq_true,
        if_false]
    · simp only [insertedAfter, same, if_false, List.filter_cons, ih]

/-- Placing an operation takes none out of the body. -/
theorem mem_insertedBefore_of_mem {other : OperationId} {body : List OperationId}
    (member : other ∈ body) : other ∈ insertedBefore anchor operation body := by
  by_cases placed : anchor ∈ body
  · exact (insertedBefore_perm placed).mem_iff.mpr (List.mem_cons_of_mem _ member)
  · induction body with
    | nil => exact absurd member List.not_mem_nil
    | cons first rest ih =>
      simp only [List.mem_cons, not_or] at placed
      simp only [insertedBefore, Ne.symm placed.1, if_false, List.mem_cons]
      exact (List.mem_cons.mp member).imp_right fun later => ih later placed.2

theorem mem_insertedAfter_of_mem {other : OperationId} {body : List OperationId}
    (member : other ∈ body) : other ∈ insertedAfter anchor operation body := by
  by_cases placed : anchor ∈ body
  · exact (insertedAfter_perm placed).mem_iff.mpr (List.mem_cons_of_mem _ member)
  · induction body with
    | nil => exact absurd member List.not_mem_nil
    | cons first rest ih =>
      simp only [List.mem_cons, not_or] at placed
      simp only [insertedAfter, Ne.symm placed.1, if_false, List.mem_cons]
      exact (List.mem_cons.mp member).imp_right fun later => ih later placed.2

end Body

/-! ## Handles that fit together -/

namespace Function

/-- The function with another body. -/
def withBody (function : Function) (body : List OperationId) : Function :=
  { function with body }

@[simp]
theorem operation_withBody (function : Function) (body : List OperationId)
    (operation : OperationId) :
    (function.withBody body).operation operation = function.operation operation := rfl

@[simp]
theorem tensor_withBody (function : Function) (body : List OperationId) (value : ValueId) :
    (function.withBody body).tensor value = function.tensor value := rfl

@[simp]
theorem origin?_withBody (function : Function) (body : List OperationId) (value : ValueId) :
    (function.withBody body).origin? value = function.origin? value := rfl

/-- The handles of a function fit together. -/
structure WellFormed (function : Function) : Prop where
  body_nodup : function.body.Nodup
  mem_body_iff : ∀ operation,
    operation ∈ function.body ↔ operation.index < function.operations.length
  argument_iff : ∀ index value,
    function.arguments[index]? = some value ↔ function.origin? value = some (.argument index)
  result_iff : ∀ operation index value,
    (function.operation operation).results[index]? = some value ↔
      function.origin? value = some (.result operation index)
  operand_lt : ∀ operation, ∀ value ∈ (function.operation operation).operands,
    value.index < function.values.length

namespace WellFormed

variable {function : Function}

/-! ## Origins -/

theorem argument_lt (wellFormed : function.WellFormed) {value : ValueId}
    (member : value ∈ function.arguments) : value.index < function.values.length := by
  obtain ⟨index, found⟩ := List.mem_iff_getElem?.mp member
  exact lt_of_origin?_eq_some ((wellFormed.argument_iff index value).mp found)

theorem result_lt (wellFormed : function.WellFormed) {operation : OperationId} {value : ValueId}
    (member : value ∈ (function.operation operation).results) :
    value.index < function.values.length := by
  obtain ⟨index, found⟩ := List.mem_iff_getElem?.mp member
  exact lt_of_origin?_eq_some ((wellFormed.result_iff operation index value).mp found)

/-- The operation that a value comes from has been created. -/
theorem operation_lt_of_origin (wellFormed : function.WellFormed) {operation : OperationId}
    {index : Nat} {value : ValueId}
    (origin : function.origin? value = some (.result operation index)) :
    operation.index < function.operations.length := by
  rw [← wellFormed.result_iff] at origin
  by_cases known : operation.index < function.operations.length
  · exact known
  · rw [results_of_le (Nat.le_of_not_lt known)] at origin
    exact absurd origin (by simp)

/-- A value is the result of one operation only. -/
theorem eq_of_mem_results (wellFormed : function.WellFormed) {first second : OperationId}
    {value : ValueId} (inFirst : value ∈ (function.operation first).results)
    (inSecond : value ∈ (function.operation second).results) : first = second := by
  obtain ⟨index, found⟩ := List.mem_iff_getElem?.mp inFirst
  obtain ⟨other, alsoFound⟩ := List.mem_iff_getElem?.mp inSecond
  rw [wellFormed.result_iff] at found alsoFound
  rw [found] at alsoFound
  cases alsoFound
  rfl

/-- A result is no argument. -/
theorem notMem_arguments (wellFormed : function.WellFormed) {operation : OperationId}
    {value : ValueId} (member : value ∈ (function.operation operation).results) :
    value ∉ function.arguments := by
  intro isArgument
  obtain ⟨index, found⟩ := List.mem_iff_getElem?.mp member
  obtain ⟨other, alsoFound⟩ := List.mem_iff_getElem?.mp isArgument
  rw [wellFormed.result_iff] at found
  rw [wellFormed.argument_iff, found] at alsoFound
  cases alsoFound

/-- The results of an operation are distinct. -/
theorem results_nodup (wellFormed : function.WellFormed) (operation : OperationId) :
    (function.operation operation).results.Nodup := by
  rw [List.nodup_iff_pairwise_ne, List.pairwise_iff_getElem]
  intro first second firstBelow secondBelow before same
  have found := List.getElem?_eq_getElem firstBelow
  have alsoFound := List.getElem?_eq_getElem secondBelow
  rw [wellFormed.result_iff] at found alsoFound
  rw [same, alsoFound] at found
  cases found
  exact Nat.lt_irrefl _ before

/-! ## Edits that create nothing -/

theorem withSharding (wellFormed : function.WellFormed) (value : ValueId)
    (sharding : Option TensorSharding) : (function.withSharding value sharding).WellFormed where
  body_nodup := wellFormed.body_nodup
  mem_body_iff := wellFormed.mem_body_iff
  argument_iff index other := by
    rw [origin?_withSharding]
    exact wellFormed.argument_iff index other
  result_iff operation index other := by
    rw [origin?_withSharding]
    exact wellFormed.result_iff operation index other
  operand_lt operation other member := by
    rw [length_values_withSharding]
    exact wellFormed.operand_lt operation other member

theorem withOperand (wellFormed : function.WellFormed) (use : Use) {value : ValueId}
    (known : value.index < function.values.length) :
    (function.withOperand use value).WellFormed where
  body_nodup := wellFormed.body_nodup
  mem_body_iff operation := by
    rw [length_operations_withOperand]
    exact wellFormed.mem_body_iff operation
  argument_iff := wellFormed.argument_iff
  result_iff operation index other := by
    rw [results_withOperand, origin?_withOperand]
    exact wellFormed.result_iff operation index other
  operand_lt operation other member := by
    by_cases same : operation = use.operation
    · cases use
      subst same
      rw [operation_withOperand_self] at member
      rcases List.mem_or_eq_of_mem_set member with old | new
      · exact wellFormed.operand_lt operation other old
      · rw [new]
        exact known
    · rw [operation_withOperand_of_ne _ same] at member
      exact wellFormed.operand_lt operation other member

theorem withUsesReplaced (wellFormed : function.WellFormed) (value : ValueId)
    {replacement : ValueId} (known : replacement.index < function.values.length)
    (kept : OperationId) : (function.withUsesReplaced value replacement kept).WellFormed where
  body_nodup := wellFormed.body_nodup
  mem_body_iff operation := by
    rw [length_operations_withUsesReplaced]
    exact wellFormed.mem_body_iff operation
  argument_iff := wellFormed.argument_iff
  result_iff operation index other := by
    rw [results_withUsesReplaced, origin?_withUsesReplaced]
    exact wellFormed.result_iff operation index other
  operand_lt operation other member := by
    by_cases same : operation = kept
    · rw [same, operation_withUsesReplaced_kept] at member
      exact wellFormed.operand_lt kept other member
    · rw [operation_withUsesReplaced_of_ne _ same] at member
      obtain ⟨operand, isOperand, rfl⟩ := List.mem_map.mp member
      split
      · exact known
      · exact wellFormed.operand_lt operation operand isOperand

theorem withRule (wellFormed : function.WellFormed) (changed : OperationId)
    (attached : Option FactorRule) : (function.withRule changed attached).WellFormed where
  body_nodup := wellFormed.body_nodup
  mem_body_iff operation := by
    simpa [Function.withRule] using wellFormed.mem_body_iff operation
  argument_iff := wellFormed.argument_iff
  result_iff operation index value := by
    rw [(operation_withRule function changed operation attached).2]
    exact wellFormed.result_iff operation index value
  operand_lt operation value member := by
    rw [(operation_withRule function changed operation attached).1] at member
    exact wellFormed.operand_lt operation value member

/-! ## Edits that create -/

/-- An operation with known operands may be created and placed anywhere. -/
theorem place (wellFormed : function.WellFormed) (kind : OperationKind) {operands : List ValueId}
    (types : List TensorType)
    (known : ∀ value ∈ operands, value.index < function.values.length)
    {body : List OperationId} (places : body.Perm (function.nextOperation :: function.body)) :
    ((function.create kind operands types).withBody body).WellFormed where
  body_nodup := by
    refine places.nodup_iff.mpr (List.nodup_cons.mpr ⟨?_, wellFormed.body_nodup⟩)
    rw [wellFormed.mem_body_iff]
    exact Nat.lt_irrefl _
  mem_body_iff operation := by
    refine places.mem_iff.trans ?_
    have created := length_operations_create function kind operands types
    rw [List.mem_cons, wellFormed.mem_body_iff]
    change _ ↔ operation.index < (function.create kind operands types).operations.length
    cases operation
    simp only [created, nextOperation, OperationId.mk.injEq]
    omega
  argument_iff index value := by
    rw [origin?_withBody, origin?_create_eq_some_iff, ← wellFormed.argument_iff]
    refine (or_iff_left ?_).symm
    rintro ⟨_, -, -, isResult⟩
    cases isResult
  result_iff operation index value := by
    rw [operation_withBody, origin?_withBody, getElem?_results_create_eq_some_iff,
      origin?_create_eq_some_iff, wellFormed.result_iff]
    refine or_congr_right ⟨?_, ?_⟩
    · rintro ⟨rfl, below, place⟩
      exact ⟨index, below, place, rfl⟩
    · rintro ⟨_, below, place, isResult⟩
      cases isResult
      exact ⟨rfl, below, place⟩
  operand_lt operation value member := by
    have grown : function.values.length ≤ (function.create kind operands types).values.length := by
      simp
    refine Nat.lt_of_lt_of_le ?_ grown
    rw [operation_withBody] at member
    by_cases next : operation = function.nextOperation
    · subst next
      rw [operation_create_next] at member
      exact known value member
    · rw [(operation_create_cases function operation).resolve_right next] at member
      exact wellFormed.operand_lt operation value member

theorem addArgument (wellFormed : function.WellFormed) (tensor : Tensor) :
    (function.addArgument tensor).WellFormed where
  body_nodup := wellFormed.body_nodup
  mem_body_iff := wellFormed.mem_body_iff
  argument_iff index value := by
    rw [origin?_addArgument_eq_some_iff, ← wellFormed.argument_iff, Origin.argument.injEq]
    exact getElem?_concat_eq_some_iff.trans (or_congr_right and_comm)
  result_iff operation index value := by
    rw [origin?_addArgument_eq_some_iff, ← wellFormed.result_iff]
    refine (or_iff_left ?_).symm
    rintro ⟨-, isArgument⟩
    cases isArgument
  operand_lt operation value member := by
    have old := wellFormed.operand_lt operation value member
    simp only [Function.addArgument, List.length_append]
    omega

theorem addResult (wellFormed : function.WellFormed) (tensor : Tensor) :
    (function.addResult tensor).WellFormed :=
  ⟨wellFormed.body_nodup, wellFormed.mem_body_iff, wellFormed.argument_iff,
    wellFormed.result_iff, wellFormed.operand_lt⟩

end WellFormed

/-! ## Histories -/

theorem wellFormed_empty (name : String) : (empty name).WellFormed where
  body_nodup := List.nodup_nil
  mem_body_iff operation := by simp [empty]
  argument_iff index value := by simp [empty, origin?]
  result_iff operation index value := by simp [empty, origin?, Function.operation]
  operand_lt operation value member := by simp [empty, Function.operation] at member

theorem checkValue_eq_ok_iff {function : Function} {value : ValueId} :
    function.checkValue value = .ok () ↔ value.index < function.values.length :=
  ite_eq_ok_iff

theorem checkValues_eq_ok_iff {function : Function} {values : List ValueId} :
    function.checkValues values = .ok () ↔
      ∀ value ∈ values, value.index < function.values.length := by
  induction values with
  | nil => simp [checkValues]
  | cons value rest ih =>
    rw [checkValues, seq_eq_ok_iff, checkValue_eq_ok_iff, ih, List.forall_mem_cons]

/-- An edit that is not refused keeps a function well formed. -/
theorem WellFormed.edited {function changed : Function} (wellFormed : function.WellFormed)
    {edit : Edit} (accepted : function.edited edit = .ok changed) : changed.WellFormed := by
  cases edit with
  | addArgument tensor =>
    cases accepted
    exact wellFormed.addArgument tensor
  | addResult tensor =>
    cases accepted
    exact wellFormed.addResult tensor
  | append kind operands types =>
    obtain ⟨⟨⟩, known, isOk⟩ := bind_eq_ok_iff.mp accepted
    cases isOk
    exact wellFormed.place kind types (checkValues_eq_ok_iff.mp known)
      (List.perm_append_singleton _ _)
  | insertBefore anchor kind operands types =>
    obtain ⟨⟨⟩, placed, chain⟩ := bind_eq_ok_iff.mp accepted
    obtain ⟨⟨⟩, known, isOk⟩ := bind_eq_ok_iff.mp chain
    cases isOk
    exact wellFormed.place kind types (checkValues_eq_ok_iff.mp known)
      (insertedBefore_perm (ite_eq_ok_iff.mp placed))
  | insertAfter anchor kind operands types =>
    obtain ⟨⟨⟩, placed, chain⟩ := bind_eq_ok_iff.mp accepted
    obtain ⟨⟨⟩, known, isOk⟩ := bind_eq_ok_iff.mp chain
    cases isOk
    exact wellFormed.place kind types (checkValues_eq_ok_iff.mp known)
      (insertedAfter_perm (ite_eq_ok_iff.mp placed))
  | setSharding value sharding =>
    obtain ⟨⟨⟩, _, isOk⟩ := bind_eq_ok_iff.mp accepted
    cases isOk
    exact wellFormed.withSharding value sharding
  | setOperand use value =>
    obtain ⟨⟨⟩, known, chain⟩ := bind_eq_ok_iff.mp accepted
    obtain ⟨⟨⟩, _, isOk⟩ := bind_eq_ok_iff.mp chain
    by_cases within : use.slot < (function.operation use.operation).operands.length
    · simp only [within, if_true] at isOk
      cases isOk
      exact wellFormed.withOperand use (checkValue_eq_ok_iff.mp known)
    · simp only [within, if_false] at isOk
      cases isOk
  | replaceUses value replacement kept =>
    obtain ⟨⟨⟩, _, chain⟩ := bind_eq_ok_iff.mp accepted
    obtain ⟨⟨⟩, known, isOk⟩ := bind_eq_ok_iff.mp chain
    cases isOk
    exact wellFormed.withUsesReplaced value (checkValue_eq_ok_iff.mp known) kept
  | setRule operation attached =>
    obtain ⟨⟨⟩, _, isOk⟩ := bind_eq_ok_iff.mp accepted
    cases isOk
    exact wellFormed.withRule operation attached

/-- An edit keeps a function well formed, whether it is refused or not. -/
theorem WellFormed.afterEdit {function : Function} (wellFormed : function.WellFormed)
    (edit : Edit) : (function.afterEdit edit).WellFormed := by
  unfold Function.afterEdit
  split
  · exact wellFormed.edited ‹_›
  · exact wellFormed

/-- **Every function that has a history is well formed.** -/
theorem wellFormed_ofHistory (name : String) (history : List Edit) :
    (ofHistory name history).WellFormed := by
  have grows : ∀ function : Function, function.WellFormed →
      (history.foldl Function.afterEdit function).WellFormed := by
    induction history with
    | nil => exact fun _ wellFormed => wellFormed
    | cons edit rest ih => exact fun _ wellFormed => ih _ (wellFormed.afterEdit edit)
  exact grows (empty name) (wellFormed_empty name)

end Function

end MeshSharding
