import MeshSharding.Proofs.Reshard.Locality
import MeshSharding.Proofs.Reshard.Uses

/-!
# Operations that keep their mesh

With several meshes a run can take the common mesh away from an operation. A
result without a sharding that is resharded after its operation comes back fully
open on the mesh of that operation, and if an operation that uses it is on
another mesh, it has no common mesh any more when it is visited. This is the only
way (`reshard_keeps_mesh_unless_opened`): every other operation that was on a
mesh and did not overflow is decided as it would have been at the start, stays on
its mesh, and is consistent there in the end.

So an operation is not always within reach of a run because it was at the start
(`product_loses_mesh`).
-/

set_option autoImplicit false

namespace MeshSharding

variable {meshes : SymbolTable} {meshName : String}

/-- An operand of the operation that had no sharding is resharded as a result, and it comes back
fully open on another mesh. -/
def ReshardEvent.OpensElsewhere (function : Function) (operation : OperationId)
    (meshName : String) : ReshardEvent → Prop
  | .reshardedResult value sharding =>
    value ∈ (function.operation operation).operands ∧ (function.tensor value).sharding = none ∧
      sharding = .fullyOpen sharding.mesh (function.tensor value).rank ∧ sharding.mesh ≠ meshName
  | _ => False

instance (function : Function) (operation : OperationId) (meshName : String) :
    DecidablePred (ReshardEvent.OpensElsewhere function operation meshName)
  | .reshardedResult value sharding => inferInstanceAs (Decidable
      (value ∈ (function.operation operation).operands ∧ (function.tensor value).sharding = none ∧
        sharding = .fullyOpen sharding.mesh (function.tensor value).rank ∧
          sharding.mesh ≠ meshName))
  | .committed _ => .isFalse id
  | .agreed _ => .isFalse id
  | .reshardedOperand _ _ => .isFalse id
  | .visited _ _ _ => .isFalse id

/-! ## Signatures -/

/-- Operands that are opened on the common mesh make no difference to what is decided by a rule. -/
theorem Signature.OpensTo.decision_eq {old new : Signature} {rule : FactorRule} {mesh : Mesh}
    {projection : Projection} {declared : List Tensor} {decision : Decision}
    (opened : old.OpensTo (· = meshName) new) (notExit : old.kind ≠ .exit)
    (isRule : old.rule? = some rule) (isName : old.mesh? = some meshName)
    (isMesh : meshes.mesh? meshName = some mesh)
    (isProjection : Projection.ofSignature mesh rule old = .ok projection)
    (decided : new.decision meshes declared = .ok decision) :
    decision = projection.decision mesh meshName rule old.results := by
  obtain ⟨own, other, isOwn, isOther, same⟩ := (decision_of_rule notExit isRule isName).mp
    ((opened.decision_of_mesh notExit isRule isName (opened.mesh?_of_old isName)).mp decided)
  rw [isMesh] at isOwn
  cases isOwn
  rw [isProjection] at isOther
  cases isOther
  exact same

/-- After the decision about it an operation with a simple rule that does not overflow is on the
same mesh, does not overflow, and is consistent. -/
theorem consistent_after {signature : Signature} {rule : FactorRule} {mesh : Mesh}
    {projection : Projection} (simple : rule.IsSimple)
    (sound : ∀ tensor ∈ signature.operands ++ signature.results, tensor.Sound meshes)
    (isName : signature.mesh? = some meshName) (isMesh : meshes.mesh? meshName = some mesh)
    (isProjection : Projection.ofSignature mesh rule signature = .ok projection)
    (within : ¬ projection.Overflows) :
    let settled := signature.after (projection.decision mesh meshName rule signature.results)
    settled.mesh? = some meshName ∧ ∃ again,
      Projection.ofSignature mesh rule settled = .ok again ∧ ¬ again.Overflows ∧
        again.IsConsistent := by
  obtain ⟨own, isOwn, suits⟩ := exists_mesh isName sound
  rw [isMesh] at isOwn
  cases isOwn
  rw [Projection.decision, if_neg within]
  by_cases consistent : projection.IsConsistent
  · rw [if_pos consistent]
    exact ⟨isName, projection, isProjection, within, consistent⟩
  · rw [if_neg consistent]
    obtain ⟨stillName, again, isAgain⟩ := exists_again sound isMesh isName isProjection
      (keeps_revision suits simple.1 isProjection (followsShardings_sound meshes) isMesh sound)
    have along := (shardedAlong_again_iff suits isProjection simple.1 isAgain).mpr
      (simple.filledBy _)
    refine ⟨stillName, again, isAgain, ?_, along.isConsistent⟩
    rintro ⟨tensor, isTensor, entry, isEntry, beyond⟩
    exact beyond (along tensor isTensor entry isEntry).2

namespace Function

variable {function : Function} {operation : OperationId} {before after : List OperationId}

/-! ## Before and after a visit -/

/-- An operation of the base uses a value of the base only if it did so there. -/
theorem Erases.mem_operands {base current : Function} (erased : base.Erases current)
    (extended : base.Extends current) (wellFormed : base.WellFormed)
    (original : operation.index < base.operations.length) {value : ValueId}
    (old : value.index < base.values.length)
    (isOperand : value ∈ (current.operation operation).operands) :
    value ∈ (base.operation operation).operands := by
  rw [← erased.wired operation original]
  have sameSource : current.source base.operations.length value = value :=
    Function.iterate_fixed (extended.behind_eq_self wellFormed old) _
  exact List.mem_map.mpr ⟨value, isOperand, sameSource⟩

/-- An operation that comes to its visit with operands opened on its mesh at most leaves it as what
is decided, with operands opened on its mesh at most. -/
theorem opensTo_carryOut {current : Function} (wellFormed : current.WellFormed)
    (known : operation.index < current.operations.length) {signature : Signature}
    (opened : signature.OpensTo (· = meshName) (current.signature operation))
    (isName : signature.mesh? = some meshName) {decision : Decision}
    (decided : (current.signature operation).decision meshes current.results = .ok decision) :
    (signature.after decision).OpensTo (· = meshName)
      ((current.carryOut operation decision).signature operation) := by
  have stillName := opened.mesh?_of_old isName
  have visited : ReshardedAt (· = meshName) operation (·.after decision) current
      (current.carryOut operation decision) := by
    refine ReshardedAt.carryOut wellFormed known decided fun name _ isOther _ => ?_
    rw [stillName] at isOther
    exact (Option.some.inj isOther).symm
  exact (opened.after decision).trans visited.own

/-- A run that goes through comes to an operation after those before it, and after its visit goes on
with those behind it. -/
theorem reshardFrom_split
    (noError : (reshardFrom meshes function (before ++ operation :: after)).error = none) :
    let current := (reshardFrom meshes function before).function
    ∃ decision, current.decision meshes operation = .ok decision ∧
      (reshardFrom meshes function (before ++ [operation])).function =
        current.carryOut operation decision ∧
      reshardFrom meshes function (before ++ operation :: after) =
        let later := reshardFrom meshes (current.carryOut operation decision) after
        { later with
          visits := (reshardFrom meshes function before).visits ++
            current.visit operation decision :: later.visits } := by
  intro current
  have noEarlier := error_of_append noError
  have whole := reshardFrom_append noEarlier (operation :: after)
  have part := reshardFrom_append noEarlier [operation]
  cases isDecision : current.decision meshes operation with
  | error cause =>
    have failed : (reshardFrom meshes current (operation :: after)).error = some cause := by
      simp only [reshardFrom, isDecision]
    rw [whole] at noError
    cases failed.symm.trans noError
  | ok decision =>
    refine ⟨decision, rfl, ?_, ?_⟩
    · rw [part]
      exact congrArg ReshardRun.function (reshardFrom_cons isDecision [])
    · rw [whole]
      simp only [current, reshardFrom_cons isDecision]

section Body

variable (wellFormed : function.WellFormed)
  (runs : function.RunsFrom function.arguments function.body)
  (body : function.body = before ++ operation :: after)
include wellFormed runs body

/-- An operation of a body that runs uses no result of itself or of a later operation. -/
theorem RunsFrom.not_uses_later {producer : OperationId} (isLater : producer ∈ operation :: after)
    {value : ValueId} (isResult : value ∈ (function.operation producer).results) :
    value ∉ (function.operation operation).operands := by
  obtain ⟨between, back, split⟩ := List.append_of_mem isLater
  have whole : function.body = (before ++ between) ++ producer :: back := by
    rw [body, split, List.append_assoc]
  have isUser : operation ∈ (before ++ between) ++ [producer] := by
    have first : operation ∈ between ++ [producer] := by
      cases between with
      | nil =>
        cases split
        exact List.mem_singleton_self _
      | cons head rest =>
        cases split
        exact List.mem_cons_self
    rw [List.append_assoc]
    exact List.mem_append_right _ first
  rw [whole] at runs
  exact runs.not_uses wellFormed (wellFormed.notMem_front whole) isUser isResult

/-- From the visit of an operation on a run reshards none of the values that it used. -/
theorem notMem_events_behind {current : Function} (currentFormed : current.WellFormed)
    (extended : function.Extends current) {value : ValueId}
    (isOperand : value ∈ (function.operation operation).operands) (sharding : TensorSharding) :
    .reshardedResult value sharding ∉
      (reshardFrom meshes current (operation :: after)).events := by
  intro isEvent
  have original {other : OperationId} (member : other ∈ operation :: after) :=
    wellFormed.lt_of_mem_body body (List.mem_append_right _ member)
  obtain ⟨producer, isLater, isResult⟩ := exists_producer currentFormed
    (fun other member => Nat.lt_of_lt_of_le (original member) extended.operations_le) isEvent
  rw [(extended.kept producer (original isLater)).2.2] at isResult
  exact runs.not_uses_later wellFormed body isLater isResult isOperand

/-- After the visit of an operation a run leaves the operation alone. -/
theorem signature_reshardFrom_behind {next : Function} (nextFormed : next.WellFormed)
    (extended : function.Extends next) (erased : function.Erases next) :
    (reshardFrom meshes next after).function.signature operation = next.signature operation := by
  have original {other : OperationId} (member : other ∈ operation :: after) :=
    wellFormed.lt_of_mem_body body (List.mem_append_right _ member)
  have isOld := original List.mem_cons_self
  have distinct := wellFormed.body_nodup
  rw [body] at distinct
  refine signature_reshardFrom_of_unused nextFormed
    (Nat.lt_of_lt_of_le isOld extended.operations_le)
    (List.nodup_cons.mp distinct.of_append_right).2
    (fun other member => Nat.lt_of_lt_of_le (original (List.mem_cons_of_mem _ member))
      extended.operations_le)
    (wellFormed.notMem_back body) ?_
  intro producer isLater value isResult isOperand
  rw [(extended.kept producer (original (List.mem_cons_of_mem _ isLater))).2.2] at isResult
  exact runs.not_uses_later wellFormed body (List.mem_cons_of_mem _ isLater) isResult
    (erased.mem_operands extended wellFormed isOld (wellFormed.result_lt isResult) isOperand)

/-- The visit of an operation in a run that goes through. It is decided about as the visits before
have left it, and what this makes of it, it is in the end. Its operands have been resharded before
its visit or not at all. -/
theorem exists_visit (noError : (function.reshard meshes).error = none) :
    let current := (reshardFrom meshes function before).function
    ∃ visit ∈ (function.reshard meshes).visits, visit.operation = operation ∧
      current.decision meshes operation = .ok visit.decision ∧
      (function.reshard meshes).function.signature operation =
        (current.carryOut operation visit.decision).signature operation ∧
      ∀ value ∈ (function.operation operation).operands, ∀ sharding,
        (.reshardedResult value sharding ∈ (function.reshard meshes).events ↔
          .reshardedResult value sharding ∈ (reshardFrom meshes function before).events) := by
  intro current
  have whole : function.reshard meshes =
      reshardFrom meshes function (before ++ operation :: after) :=
    congrArg (reshardFrom meshes function) body
  have placed {other : OperationId} (member : other ∈ before ++ [operation]) :
      other ∈ function.body := by
    rw [body, List.append_cons]
    exact List.mem_append_left _ member
  rw [whole] at noError ⊢
  obtain ⟨decision, isDecision, isNext, isRun⟩ := reshardFrom_split noError
  refine ⟨current.visit operation decision, ?_, rfl, isDecision, ?_, ?_⟩
  · rw [isRun]
    exact List.mem_append_right _ List.mem_cons_self
  · obtain ⟨nextFormed, extended, erased⟩ :=
      reshardFrom_erases wellFormed meshes fun _ => placed
    rw [isNext] at nextFormed extended erased
    rw [isRun]
    exact signature_reshardFrom_behind wellFormed runs body nextFormed extended erased
  · intro value isOperand sharding
    obtain ⟨currentFormed, extended, -⟩ := reshardFrom_erases wellFormed meshes
      fun _ member => placed (List.mem_append_left _ member)
    have notBehind : .reshardedResult value sharding ∉
        (reshardFrom meshes current (operation :: after)).events :=
      notMem_events_behind wellFormed runs body currentFormed extended isOperand sharding
    rw [reshardFrom_cons isDecision] at notBehind
    rw [isRun, ReshardRun.events, List.flatMap_append, List.mem_append]
    exact or_iff_left notBehind

end Body

/-! ## What an operation comes to its visit with -/

section Unvisited

variable (wellFormed : function.WellFormed) {visited : List OperationId}
  (distinct : visited.Nodup)
  (known : ∀ other ∈ visited, other.index < function.operations.length)
  (old : operation.index < function.operations.length) (notVisited : operation ∉ visited)
include wellFormed distinct known old notVisited

/-- If the visits before open none of its operands elsewhere, an operation comes to its visit with
operands opened on its mesh at most. -/
theorem opensTo_of_unopened
    (unopened : ∀ event ∈ (reshardFrom meshes function visited).events,
      ¬ event.OpensElsewhere function operation meshName) :
    (function.signature operation).OpensTo (· = meshName)
      ((reshardFrom meshes function visited).function.signature operation) := by
  have opened := opensTo_reshardFrom meshes wellFormed old distinct known notVisited
  refine { opened with operand := ?_ }
  intro slot first second isFirst isSecond
  rcases opened.operand slot first second isFirst isSecond with same | ⟨unsharded, name, -, isOpen⟩
  · exact .inl same
  rw [Function.signature, List.getElem?_map] at isFirst
  obtain ⟨value, found, isTensor⟩ := Option.map_eq_some_iff.mp isFirst
  have holds : function.Holds operation slot value first := ⟨found, isTensor⟩
  obtain ⟨resharded, kept⟩ := holds.reshardFrom wellFormed old distinct known notVisited
  by_cases hasEvent : ∃ sharding,
      .reshardedResult value sharding ∈ (reshardFrom meshes function visited).events
  · obtain ⟨sharding, isEvent⟩ := hasEvent
    have isResharded := resharded sharding isEvent
    rw [isSecond, isOpen] at isResharded
    cases isResharded
    refine .inr ⟨unsharded, name, ?_, isOpen⟩
    by_contra elsewhere
    subst isTensor
    exact unopened _ isEvent ⟨List.mem_of_getElem? found, unsharded, rfl, elsewhere⟩
  · have isKept := kept fun sharding isEvent => hasEvent ⟨sharding, isEvent⟩
    rw [isSecond] at isKept
    exact .inl (Option.some.inj isKept)

/-- If a visit before opens one of its operands elsewhere, an operation has no common mesh when it
is visited. -/
theorem mesh?_of_opensElsewhere (isName : (function.signature operation).mesh? = some meshName)
    {event : ReshardEvent} (isEvent : event ∈ (reshardFrom meshes function visited).events)
    (elsewhere : event.OpensElsewhere function operation meshName) :
    ((reshardFrom meshes function visited).function.signature operation).mesh? = none := by
  have opened := opensTo_reshardFrom meshes wellFormed old distinct known notVisited
  cases event with
  | reshardedResult value sharding =>
    obtain ⟨isOperand, -, -, differ⟩ := elsewhere
    obtain ⟨slot, found⟩ := List.mem_iff_getElem?.mp isOperand
    have holds : function.Holds operation slot value (function.tensor value) := ⟨found, rfl⟩
    have isResharded :=
      (holds.reshardFrom wellFormed old distinct known notVisited).1 sharding isEvent
    cases stillName :
        ((reshardFrom meshes function visited).function.signature operation).mesh? with
    | none => rfl
    | some other =>
      obtain ⟨-, named⟩ := commonMesh?_eq_some_iff.mp stillName
      have isOther : sharding.mesh = other := named sharding (List.mem_map.mpr
        ⟨_, List.mem_append_left _ (List.mem_of_getElem? isResharded), rfl⟩)
      obtain ⟨⟨first, present⟩, namedFirst⟩ := commonMesh?_eq_some_iff.mp isName
      have alsoOther := named first (opened.sharding_of_old present)
      rw [namedFirst first present] at alsoOther
      exact absurd (isOther.trans alsoOther.symm) differ
  | _ => exact absurd elsewhere id

end Unvisited

/-! ## A sum that is used on two meshes -/

def leftAndRight : SymbolTable :=
  ⟨[("left", squareMesh), ("right", squareMesh)], by decide⟩

def vectorOn (meshName : String) : Tensor :=
  ⟨⟨[4], .f32⟩, some ⟨meshName, [⟨[.whole "x"], true⟩], []⟩⟩

/-- The sum has no sharding and is computed on the left mesh. One product takes it to a vector on
the left mesh, the other one to a vector on the right mesh. -/
def productsHistory : List Edit :=
  [.addArgument (vectorOn "left"),
    .addArgument ⟨⟨[4], .f32⟩, none⟩,
    .addArgument (vectorOn "right"),
    .addResult ⟨⟨[4], .f32⟩, none⟩,
    .addResult ⟨⟨[4], .f32⟩, none⟩,
    .append (.elementwise .add) [⟨0⟩, ⟨1⟩] [⟨[4], .f32⟩],
    .append (.elementwise .multiply) [⟨3⟩, ⟨0⟩] [⟨[4], .f32⟩],
    .append (.elementwise .multiply) [⟨3⟩, ⟨2⟩] [⟨[4], .f32⟩],
    .append .exit [⟨4⟩, ⟨5⟩] []]

/-- The rule that follows for sums and products of two vectors. -/
def vectorRule : FactorRule where
  sizes := [4]
  operands := [[[0]], [[0]]]
  results := [[[0]]]
  reduction := []
  isCustom := false
  mapped_lt := by decide
  reduction_lt := by decide

/-! ## The whole run -/

/-- **A run takes the common mesh from an operation only by opening one of its operands on another
mesh.** In a function that verifies and attaches only simple rules, let an operation other than a
return have a rule and a common mesh, and let it not overflow. If the run reshards none of its
operands that have no sharding as a result that comes back on another mesh, then the operation is
decided about as at the start, and in the end it is on the same mesh, does not overflow, and is
consistent. If the run does reshard one of them so, the operation is skipped, and it has no common
mesh in the end. -/
theorem reshard_keeps_mesh_unless_opened (name : String) (history : List Edit)
    (meshes : SymbolTable) (verified : (ofHistory name history).verify meshes = .ok ())
    (simple : (ofHistory name history).AttachesOnly FactorRule.IsSimple)
    (operation : OperationId) (rule : FactorRule) (meshName : String)
    (member : operation ∈ (ofHistory name history).body)
    (notExit : ((ofHistory name history).operation operation).kind ≠ .exit)
    (isRule : ((ofHistory name history).signature operation).rule? = some rule)
    (isName : ((ofHistory name history).signature operation).mesh? = some meshName) :
    let function := ofHistory name history
    let run := function.reshard meshes
    let before := function.signature operation
    let after := run.function.signature operation
    ∃ mesh projection, meshes.mesh? meshName = some mesh ∧
      Projection.ofSignature mesh rule before = .ok projection ∧
      ∃ visit ∈ run.visits, visit.operation = operation ∧
        (¬ projection.Overflows →
          (∀ event ∈ run.events, ¬ event.OpensElsewhere function operation meshName) →
          visit.decision = projection.decision mesh meshName rule before.results ∧
            after.mesh? = some meshName ∧
            ∃ again, Projection.ofSignature mesh rule after = .ok again ∧
              ¬ again.Overflows ∧ again.IsConsistent) ∧
        ((∃ event ∈ run.events, event.OpensElsewhere function operation meshName) →
          visit.decision = .skip .noCommonMesh ∧ after.mesh? = none) := by
  intro function run first last
  have wellFormed : function.WellFormed := wellFormed_ofHistory name history
  obtain ⟨terminator, verifies⟩ := verify_eq_ok_iff.mp verified
  obtain ⟨noError, -⟩ := reshard_settles wellFormed verified simple
  have sound := verifies.sound_signature wellFormed operation
  obtain ⟨suited, isSimple⟩ := simple.rule (fun _ holds => holds) member isRule
  obtain ⟨mesh, isMesh, suits⟩ := exists_mesh isName sound
  obtain ⟨projection, isProjection⟩ := exists_projection suits suited
  obtain ⟨front, back, body⟩ := List.append_of_mem member
  obtain ⟨visit, isVisit, isOperation, isDecision, final, earlier⟩ :=
    exists_visit wellFormed verifies.runs body noError
  have original {other : OperationId} (isOther : other ∈ front ++ operation :: back) :=
    wellFormed.lt_of_mem_body body isOther
  have distinct : front.Nodup := by
    have whole := wellFormed.body_nodup
    rw [body] at whole
    exact whole.of_append_left
  have known : ∀ other ∈ front, other.index < function.operations.length :=
    fun other isFront => original (List.mem_append_left _ isFront)
  have old := original (List.mem_append_right front List.mem_cons_self)
  have notVisited := wellFormed.notMem_front body
  obtain ⟨currentFormed, extended, -⟩ := reshardFrom_erases wellFormed meshes
    fun other isFront => (wellFormed.mem_body_iff other).mpr (known other isFront)
  have decided := decision_eq_ok_iff.mp isDecision
  have sameEvents {event : ReshardEvent}
      (elsewhere : event.OpensElsewhere function operation meshName) :
      event ∈ run.events ↔ event ∈ (reshardFrom meshes function front).events := by
    cases event with
    | reshardedResult value sharding => exact earlier value elsewhere.1 sharding
    | _ => exact absurd elsewhere id
  refine ⟨mesh, projection, isMesh, isProjection, visit, isVisit, isOperation, ?_, ?_⟩
  · intro within unopened
    have opened := opensTo_of_unopened wellFormed distinct known old notVisited
      fun event isEarly elsewhere => unopened event ((sameEvents elsewhere).mpr isEarly) elsewhere
    have same := opened.decision_eq notExit isRule isName isMesh isProjection decided
    have kept : (first.after visit.decision).OpensTo (· = meshName) last := by
      rw [show last = _ from final]
      exact opensTo_carryOut currentFormed (Nat.lt_of_lt_of_le old extended.operations_le) opened
        isName decided
    rw [same] at kept
    obtain ⟨nameAfter, again, isAgain, settled⟩ :=
      consistent_after isSimple sound isName isMesh isProjection within
    exact ⟨same, kept.mesh?_of_old nameAfter, again, kept.projection_iff.mpr isAgain, settled⟩
  · rintro ⟨event, isEvent, elsewhere⟩
    have opened := opensTo_reshardFrom meshes wellFormed old distinct known notVisited
    have noMesh := mesh?_of_opensElsewhere wellFormed distinct known old notVisited isName
      ((sameEvents elsewhere).mp isEvent) elsewhere
    rw [decision_of_noMesh (opened.kind_eq.trans_ne notExit) (opened.rule?_eq.trans isRule)
      noMesh, Except.ok.injEq] at decided
    rw [← decided] at final ⊢
    exact ⟨rfl, (congrArg Signature.mesh? final).trans noMesh⟩

/-- The product on the left mesh is brought to agree there, the one on the right mesh is skipped. -/
theorem products_on_two_meshes :
    let run := (ofHistory "main" productsHistory).reshard leftAndRight
    (run.function.signature ⟨1⟩).mesh? = some "left" ∧
      (∃ again, Projection.ofSignature squareMesh vectorRule (run.function.signature ⟨1⟩) =
        .ok again ∧ again.IsConsistent) ∧
      ∃ visit ∈ run.visits, visit.operation = ⟨2⟩ ∧ visit.decision = .skip .noCommonMesh := by
  intro run
  have verified : (ofHistory "main" productsHistory).verify leftAndRight = .ok () := by
    decide +kernel
  have simple : (ofHistory "main" productsHistory).AttachesOnly FactorRule.IsSimple := by
    decide +kernel
  obtain ⟨mesh, projection, isMesh, isProjection, _, _, _, keeps, -⟩ :=
    reshard_keeps_mesh_unless_opened "main" productsHistory leftAndRight verified simple ⟨1⟩
      vectorRule "left" (by decide +kernel) (by decide +kernel) (by decide +kernel)
      (by decide +kernel)
  obtain ⟨_, _, _, _, visit, isVisit, isProduct, -, skips⟩ :=
    reshard_keeps_mesh_unless_opened "main" productsHistory leftAndRight verified simple ⟨2⟩
      vectorRule "right" (by decide +kernel) (by decide +kernel) (by decide +kernel)
      (by decide +kernel)
  have sameMesh : leftAndRight.mesh? "left" = some squareMesh := by decide +kernel
  rw [sameMesh] at isMesh
  cases isMesh
  have within : ∀ other ∈ (Projection.ofSignature squareMesh vectorRule
      ((ofHistory "main" productsHistory).signature ⟨1⟩)).toOption, ¬ other.Overflows := by
    decide +kernel
  obtain ⟨-, stillName, again, isAgain, -, consistent⟩ :=
    keeps (within projection (by rw [isProjection]; rfl)) (by decide +kernel)
  obtain ⟨skipped, -⟩ := skips (by decide +kernel)
  exact ⟨stillName, ⟨again, isAgain, consistent⟩, visit, isVisit, isProduct, skipped⟩

/-- The product on the right mesh has no common mesh in the end, although it has one at the start
and does not overflow there. -/
theorem product_loses_mesh :
    let function := ofHistory "main" productsHistory
    let run := function.reshard leftAndRight
    function.verify leftAndRight = .ok () ∧
      (∀ operation ∈ function.body, (function.operation operation).attached = none) ∧
      ⟨2⟩ ∈ function.body ∧ (function.operation ⟨2⟩).kind ≠ .exit ∧
      (function.signature ⟨2⟩).rule? = some vectorRule ∧
      (function.signature ⟨2⟩).mesh? = some "right" ∧
      leftAndRight.mesh? "right" = some squareMesh ∧
      (∃ projection, Projection.ofSignature squareMesh vectorRule (function.signature ⟨2⟩) =
        .ok projection ∧ ¬ projection.Overflows) ∧
      run.error = none ∧ (run.function.signature ⟨2⟩).mesh? = none := by
  intro function run
  let projection : Projection := {
    operands := [⟨[some ⟨[], [], false, true⟩], []⟩, ⟨[some ⟨[.whole "x"], [], true, true⟩], []⟩]
    results := [⟨[some ⟨[], [], false, true⟩], []⟩] }
  exact ⟨by decide +kernel, by decide +kernel, by decide +kernel, by decide +kernel,
    by decide +kernel, by decide +kernel, by decide +kernel,
    ⟨projection, by decide +kernel, by decide +kernel⟩, by decide +kernel, by decide +kernel⟩

end Function

end MeshSharding
