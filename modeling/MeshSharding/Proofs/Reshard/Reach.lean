import MeshSharding.Proofs.Reshard.Opened

/-!
# How far a visit reaches

The visit of an operation gives its operands and results the shardings that were
decided. Other operations that use one of its results get the value that
replaces it, with the sharding that the result had or, if it had none, with a
fully open one. So all that a visit does to another operation is to open some of
its operands (`ReshardedAt`, `ReshardedAt.carryOut`).

By induction on the visits, every decision of a run is made on a signature to
which the one at the start opens, and what an operation has become in the end is
what the decision makes of its signature at the start, but for opened operands
(`reshardFrom_reaches`). This holds for any order of the visits.
-/

set_option autoImplicit false

namespace MeshSharding

variable {names : String → Prop} {meshes : SymbolTable} {declared : List Tensor}

/-- The result is brought back to the sharding that it has or, if it has none, to a fully open one
on a mesh of an allowed name. -/
def ResultChange.Restores (names : String → Prop) (signature : Signature) (change : ResultChange) :
    Prop :=
  ∃ result name, signature.results[change.index]? = some result ∧ names name ∧
    change.restored = result.sharding.getD (.fullyOpen name result.rank)

/-- The results that a decision changes are different ones, and each is brought back to the sharding
that it has. -/
theorem restores_of_decision {signature : Signature} {decision : Decision}
    (decided : signature.decision meshes declared = .ok decision)
    (allowed : ∀ name mesh, signature.mesh? = some name → meshes.mesh? name = some mesh →
      names name) :
    (decision.resultChanges.map ResultChange.index).Nodup ∧
      ∀ change ∈ decision.resultChanges, change.Restores names signature := by
  cases decision with
  | exit changes => exact ⟨.nil, fun _ member => absurd member List.not_mem_nil⟩
  | skip reason => exact ⟨.nil, fun _ member => absurd member List.not_mem_nil⟩
  | revise revision =>
    obtain ⟨rule, name, mesh, projection, -, -, isName, isMesh, isProjection, -, -, rfl⟩ :=
      decision_revise_cases decided
    obtain ⟨suited, operandsRead, resultsRead⟩ := Projection.ofSignature_eq_ok_iff.mp isProjection
    refine ⟨(indices_resultChanges_sublist _).nodup (ChangeSet.positions_nodup _), ?_⟩
    intro change isChange
    obtain ⟨result, _, _, isResult, -, -, -, -, isRestored⟩ :=
      (mem_revision_results_iff suited operandsRead resultsRead).mp isChange
    exact ⟨result, name, isResult, allowed name mesh isName isMesh, isRestored⟩

namespace Function

/-- After resharding at an operation, its signature has changed as given and the signatures of the
other operations have not, but for operands that have been opened. -/
structure ReshardedAt (names : String → Prop) (operation : OperationId)
    (change : Signature → Signature) (before after : Function) : Prop where
  wellFormed : after.WellFormed
  operations_le : before.operations.length ≤ after.operations.length
  declared_eq : after.results = before.results
  own : (change (before.signature operation)).OpensTo names (after.signature operation)
  others : ∀ other : OperationId, other.index < before.operations.length → other ≠ operation →
    (before.signature other).OpensTo names (after.signature other)

namespace ReshardedAt

variable {operation : OperationId} {function : Function}

theorem refl (wellFormed : function.WellFormed) :
    ReshardedAt names operation id function function where
  wellFormed := wellFormed
  operations_le := Nat.le_refl _
  declared_eq := rfl
  own := .refl _
  others _ _ _ := .refl _

theorem trans {first second : Signature → Signature} {before between after : Function}
    (earlier : ReshardedAt names operation first before between)
    (later : ReshardedAt names operation second between after)
    (follows : ∀ {old new : Signature}, old.OpensTo names new →
      (second old).OpensTo names (second new)) :
    ReshardedAt names operation (second ∘ first) before after where
  wellFormed := later.wellFormed
  operations_le := Nat.le_trans earlier.operations_le later.operations_le
  declared_eq := later.declared_eq.trans earlier.declared_eq
  own := (follows earlier.own).trans later.own
  others other old differ := (earlier.others other old differ).trans
    (later.others other (Nat.lt_of_lt_of_le old earlier.operations_le) differ)

/-! ## Operands -/

theorem reshardOperand (wellFormed : function.WellFormed) (change : OperandChange) :
    ReshardedAt names operation (·.withOperand change) function
      (function.reshardOperand operation change) where
  wellFormed := wellFormed.reshardOperand operation change
  operations_le := by
    cases found : (function.operation operation).operands[change.slot]? with
    | none => rw [reshardOperand_of_none found]
    | some value =>
      rw [length_operations_reshardOperand found]
      exact Nat.le_succ _
  declared_eq := by
    cases found : (function.operation operation).operands[change.slot]? with
    | none => rw [reshardOperand_of_none found]
    | some value =>
      rw [reshardOperand_of_some found]
      rfl
  own := by
    rw [signature_reshardOperand_self wellFormed]
    exact .refl _
  others other old differ := by
    rw [(signature_reshardOperand_of_ne wellFormed operation change differ old).2]
    exact .refl _

theorem reshardOperands (wellFormed : function.WellFormed) (changes : List OperandChange) :
    ReshardedAt names operation (fun signature => changes.foldl Signature.withOperand signature)
      function (function.reshardOperands operation changes) := by
  induction changes generalizing function with
  | nil => exact .refl wellFormed
  | cons change rest ih =>
    have first : ReshardedAt names operation (·.withOperand change) function
      (function.reshardOperand operation change) := reshardOperand wellFormed change
    exact first.trans (ih first.wellFormed) (Signature.OpensTo.withOperands rest)

/-! ## Results -/

section Result

variable {result : ValueId} {name : String} (wellFormed : function.WellFormed)
  (known : result.index < function.values.length) (allowed : names name) {change : ResultChange}
  (isRestored : change.restored = (function.tensor result).sharding.getD
    (.fullyOpen name (function.tensor result).rank))
include wellFormed known allowed isRestored

/-- Resharding a result opens operands of an operation and leaves everything else about it alone,
but for what becomes of its results. -/
theorem opens_operands (anchor : OperationId) {other : OperationId} {results : List Tensor}
    (old : other ≠ function.nextOperation)
    (isResults : (function.operation other).results.map
      (function.reshardResult anchor result change).tensor = results) :
    Signature.OpensTo names { function.signature other with results }
      ((function.reshardResult anchor result change).signature other) := by
  have kept := operation_reshardResult_of_ne function anchor result change old
  constructor
  case kind_eq => simp only [Function.signature, kept]
  case attached_eq => simp only [Function.signature, kept]
  case results_eq =>
    rw [Function.signature, kept]
    exact isResults
  case count_eq =>
    simp only [Function.signature, kept, List.length_map]
  case operand =>
    intro slot before after isBefore isAfter
    simp only [Function.signature, kept, List.getElem?_map] at isBefore isAfter
    obtain ⟨value, isValue, rfl⟩ := Option.map_eq_some_iff.mp isBefore
    rw [isValue] at isAfter
    simp only [Option.map_some, Option.some.injEq] at isAfter
    rw [← isAfter]
    by_cases same : value = result
    · subst same
      rw [if_pos rfl, tensor_reshardResult_next _ _ _ known, isRestored]
      exact .restored _ allowed
    · have valueKnown := wellFormed.operand_lt other value (List.mem_of_getElem? isValue)
      rw [if_neg same, tensor_reshardResult_of_ne _ _ _ valueKnown same]
      exact .refl _

omit known in
theorem reshardResult {anchor : OperationId} (placed : anchor ∈ function.body)
    (found : (function.operation operation).results[change.index]? = some result) :
    ReshardedAt names operation (·.withResult change) function
      (function.reshardResult anchor result change) := by
  have isResult := List.mem_of_getElem? found
  have known := wellFormed.result_lt isResult
  constructor
  case wellFormed => exact wellFormed.reshardResult placed known change
  case operations_le =>
    rw [length_operations_reshardResult]
    exact Nat.le_succ _
  case declared_eq => rfl
  case own =>
    exact opens_operands wellFormed known allowed isRestored anchor
      (ne_nextOperation_of_result isResult)
      (results_reshardResult_self wellFormed anchor change found)
  case others =>
    intro other old differ
    refine opens_operands wellFormed known allowed isRestored anchor
      (ne_nextOperation_of_lt old) (List.map_congr_left fun value isValue => ?_)
    refine tensor_reshardResult_of_ne _ _ _ (wellFormed.result_lt isValue) ?_
    rintro rfl
    exact differ (wellFormed.eq_of_mem_results isValue isResult)

end Result

/-- The results of an operation are resharded one after the other, each by its own change. -/
theorem reshardResults (wellFormed : function.WellFormed) {anchor : OperationId}
    (placed : anchor ∈ function.body) {changes : List ResultChange}
    (distinct : (changes.map ResultChange.index).Nodup)
    (restores : ∀ change ∈ changes, change.Restores names (function.signature operation)) :
    ReshardedAt names operation (fun signature => changes.foldl Signature.withResult signature)
      function (function.reshardResults operation anchor changes) := by
  induction changes generalizing function anchor with
  | nil => exact .refl wellFormed
  | cons change rest ih =>
    obtain ⟨absent, restDistinct⟩ := List.nodup_cons.mp distinct
    obtain ⟨⟨tensor, name, isTensor, allowed, isRestored⟩, restRestores⟩ :=
      List.forall_mem_cons.mp restores
    rw [Function.signature, List.getElem?_map] at isTensor
    obtain ⟨result, found, rfl⟩ := Option.map_eq_some_iff.mp isTensor
    have first : ReshardedAt names operation (·.withResult change) function
        (function.reshardResult anchor result change) :=
      reshardResult wellFormed allowed isRestored placed found
    have nextPlaced := nextOperation_mem_body_reshardResult result change placed
    have stillRestores : ∀ later ∈ rest, later.Restores names
        ((function.reshardResult anchor result change).signature operation) := by
      intro later isLater
      obtain ⟨tensor, name, isTensor, allowed, isRestored⟩ := restRestores later isLater
      refine ⟨tensor, name, ?_, allowed, isRestored⟩
      rw [first.own.results_eq, Signature.withResult, List.getElem?_modify_ne, isTensor]
      intro same
      exact absent (List.mem_map.mpr ⟨later, isLater, same.symm⟩)
    simp only [Function.reshardResults, found]
    exact first.trans (ih first.wellFormed nextPlaced restDistinct stillRestores)
      (Signature.OpensTo.withResults rest)

/-- **Carrying out the decision about an operation changes its signature as decided and opens at
most operands, its own and those of others.** -/
theorem carryOut (wellFormed : function.WellFormed)
    (old : operation.index < function.operations.length) {decision : Decision}
    (decided : (function.signature operation).decision meshes function.results = .ok decision)
    (allowed : ∀ name mesh, (function.signature operation).mesh? = some name →
      meshes.mesh? name = some mesh → names name) :
    ReshardedAt names operation (·.after decision) function
      (function.carryOut operation decision) := by
  obtain ⟨distinct, restores⟩ := restores_of_decision decided allowed
  have operands : ReshardedAt names operation _ function
    (function.reshardOperands operation decision.operandChanges) := reshardOperands wellFormed _
  have placed : operation ∈
      (function.reshardOperands operation decision.operandChanges).body := by
    rw [operands.wellFormed.mem_body_iff]
    exact Nat.lt_of_lt_of_le old operands.operations_le
  have sameResults : ((function.reshardOperands operation
      decision.operandChanges).signature operation).results =
        (function.signature operation).results :=
    operands.own.results_eq.trans (Signature.results_withOperands _)
  rw [carryOut_eq]
  refine operands.trans (reshardResults operands.wellFormed placed distinct ?_)
    (Signature.OpensTo.withResults _)
  intro change isChange
  obtain ⟨result, name, isResult, isAllowed, isRestored⟩ := restores change isChange
  exact ⟨result, name, by rwa [sameResults], isAllowed, isRestored⟩

end ReshardedAt

/-! ## Runs -/

variable (names meshes) in
/-- **Every decision of a run, whatever the order of its visits, is made on a signature to which the
one at the start opens, and the signature in the end is what the decision makes of the one at the
start, but for opened operands.** Operations that are not visited have at most had operands opened,
and the run goes through unless some operation that has been opened so allows no decision. -/
theorem reshardFrom_reaches {visited : List OperationId} {start : Function}
    (wellFormed : start.WellFormed) (distinct : visited.Nodup)
    (known : ∀ operation ∈ visited, operation.index < start.operations.length)
    (allowed : ∀ operation ∈ visited, ∀ signature,
      (start.signature operation).OpensTo names signature → ∀ name mesh,
        signature.mesh? = some name → meshes.mesh? name = some mesh → names name) :
    let run := reshardFrom meshes start visited
    (∀ other : OperationId, other.index < start.operations.length → other ∉ visited →
      (start.signature other).OpensTo names (run.function.signature other)) ∧
    (∀ visit ∈ run.visits, visit.operation ∈ visited ∧ ∃ signature,
      (start.signature visit.operation).OpensTo names signature ∧
        signature.decision meshes start.results = .ok visit.decision ∧
        ((start.signature visit.operation).after visit.decision).OpensTo names
          (run.function.signature visit.operation)) ∧
    (run.error = none ∧ run.visits.map Visit.operation = visited ∨
      ∃ operation ∈ visited, ∃ signature, (start.signature operation).OpensTo names signature ∧
        ∀ decision, signature.decision meshes start.results ≠ .ok decision) := by
  induction visited generalizing start with
  | nil =>
    exact ⟨fun _ _ _ => .refl _, fun _ member => absurd member List.not_mem_nil, .inl ⟨rfl, rfl⟩⟩
  | cons operation rest ih =>
    obtain ⟨absent, restDistinct⟩ := List.nodup_cons.mp distinct
    obtain ⟨old, restOld⟩ := List.forall_mem_cons.mp known
    obtain ⟨allowedHere, allowedLater⟩ := List.forall_mem_cons.mp allowed
    cases isDecision : start.decision meshes operation with
    | error cause =>
      simp only [reshardFrom, isDecision]
      refine ⟨fun _ _ _ => .refl _, fun _ member => absurd member List.not_mem_nil, .inr
        ⟨operation, List.mem_cons_self, _, .refl _, ?_⟩⟩
      intro decision decided
      rw [decision_eq_ok_iff.mpr decided] at isDecision
      cases isDecision
    | ok decision =>
      have decided := decision_eq_ok_iff.mp isDecision
      have here : ReshardedAt names operation (·.after decision) start
          (start.carryOut operation decision) :=
        .carryOut wellFormed old decided (allowedHere _ (.refl _))
      have differ {other : OperationId} (member : other ∈ rest) : other ≠ operation := by
        rintro rfl
        exact absent member
      have opened {other : OperationId} (member : other ∈ rest) :=
        here.others other (restOld other member) (differ member)
      obtain ⟨untouched, visits, ends⟩ := ih here.wellFormed restDistinct
        (fun other member => Nat.lt_of_lt_of_le (restOld other member) here.operations_le)
        (fun other member signature later =>
          allowedLater other member signature ((opened member).trans later))
      rw [here.declared_eq] at visits ends
      simp only [reshardFrom, isDecision]
      refine ⟨?_, List.forall_mem_cons.mpr ⟨?_, ?_⟩, ?_⟩
      · intro other otherOld notVisited
        rw [List.mem_cons, not_or] at notVisited
        exact (here.others other otherOld notVisited.1).trans
          (untouched other (Nat.lt_of_lt_of_le otherOld here.operations_le) notVisited.2)
      · exact ⟨List.mem_cons_self, _, .refl _, decided,
          here.own.trans (untouched operation (Nat.lt_of_lt_of_le old here.operations_le) absent)⟩
      · intro visit isVisit
        obtain ⟨isLater, signature, later, decidedLater, final⟩ := visits visit isVisit
        exact ⟨List.mem_cons_of_mem _ isLater, signature, (opened isLater).trans later,
          decidedLater, ((opened isLater).after visit.decision).trans final⟩
      · rcases ends with ⟨noError, sameVisits⟩ | ⟨other, isLater, signature, later, undecided⟩
        · exact .inl ⟨noError, congrArg (operation :: ·) sameVisits⟩
        · exact .inr ⟨other, List.mem_cons_of_mem _ isLater, signature,
            (opened isLater).trans later, undecided⟩

/-- Every decision of a run over the whole body is made on an opening of the signature at the start,
and the operation ends as an opening of what the decision makes of it. -/
theorem reshard_reaches {function : Function} (wellFormed : function.WellFormed) {visit : Visit}
    (isVisit : visit ∈ (function.reshard meshes).visits) :
    visit.operation ∈ function.body ∧ ∃ signature,
      (function.signature visit.operation).OpensTo (fun _ => True) signature ∧
        signature.decision meshes function.results = .ok visit.decision ∧
        ((function.signature visit.operation).after visit.decision).OpensTo (fun _ => True)
          ((function.reshard meshes).function.signature visit.operation) :=
  (reshardFrom_reaches (fun _ => True) meshes wellFormed wellFormed.body_nodup
    (fun operation => (wellFormed.mem_body_iff operation).mp)
    fun _ _ _ _ _ _ _ _ => trivial).2.1 visit isVisit

end Function

end MeshSharding
