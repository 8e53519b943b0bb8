import MeshSharding.Proofs.Reshard.Erasure
import MeshSharding.Proofs.Reshard.Settled

/-!
# Runs over functions that verify

A run over a function that verifies and whose attached rules are simple goes
through and leaves every operation settled, the inserted ones among them. So
every operation that can be projected without overflow is consistent afterwards
(`reshard_makes_consistent`), and a second run finds nothing to do
(`reshard_twice`). Rules that follow from kinds and shapes are always simple, so
only the attached ones have to be asked for it.

The result of a run verifies again (`reshard_verifies`) if no sharding lists
replicated axes and the attached rules suit their operations and use no factor
twice. A dimension may then have any number of factors. Operands stay defined
before their uses and new shardings suit their meshes, since this is what every
visit keeps. That the return stays the last operation and the only return follows
from what inserted operations are, and its values keep their types.
-/

set_option autoImplicit false

namespace MeshSharding

/-! ## Attached rules -/

namespace Function

variable {function : Function} {meshes : SymbolTable} {terminator : OperationId}

/-- Every rule attached to an operation of the body suits the operation and has a property. -/
def AttachesOnly (function : Function) (Holds : FactorRule → Prop) : Prop :=
  ∀ operation ∈ function.body, ∀ rule ∈ (function.operation operation).attached,
    (function.signature operation).SuitedBy rule ∧ Holds rule

instance (Holds : FactorRule → Prop) [DecidablePred Holds] :
    Decidable (function.AttachesOnly Holds) :=
  inferInstanceAs (Decidable (∀ operation ∈ function.body,
    ∀ rule ∈ (function.operation operation).attached,
      (function.signature operation).SuitedBy rule ∧ Holds rule))

/-- A property of all simple rules and of the attached ones is one of all rules. -/
theorem AttachesOnly.rule {Holds : FactorRule → Prop} (attaches : function.AttachesOnly Holds)
    (ofSimple : ∀ rule : FactorRule, rule.IsSimple → Holds rule) {operation : OperationId}
    (member : operation ∈ function.body) {rule : FactorRule}
    (isRule : (function.signature operation).rule? = some rule) :
    (function.signature operation).SuitedBy rule ∧ Holds rule := by
  unfold Signature.rule? at isRule
  split at isRule
  · rename_i attached isAttached
    cases isRule
    exact attaches operation member rule isAttached
  · obtain ⟨simple, suited⟩ := FactorRule.ofKind?_isSimple isRule
    rw [List.map_map, List.map_map] at suited
    exact ⟨suited, ofSimple rule simple⟩

/-- The operations of a function that verifies are regular if the attached rules use no factor
twice. -/
theorem Verifies.regular (verifies : function.Verifies meshes terminator)
    (once : function.AttachesOnly FactorRule.UsesFactorsOnce) {operation : OperationId}
    (member : operation ∈ function.body) :
    (function.signature operation).Regular function.results := by
  constructor
  · intro rule isRule
    exact once.rule (fun _ simple => simple.1) member isRule
  · intro isExit
    have isTerminator := verifies.only_exit operation member isExit
    have returned := verifies.returned
    rw [← isTerminator] at returned
    rw [← returned]
    exact List.map_map

/-- A function that verifies is at the start of a run, for any property that its tensors have. -/
theorem Verifies.stage (verifies : function.Verifies meshes terminator)
    (wellFormed : function.WellFormed) {Good : Tensor → Prop}
    (good : ∀ value : ValueId, value.index < function.values.length →
      (function.tensor value).check meshes = .ok () → Good (function.tensor value)) :
    function.Stage Good :=
  ⟨wellFormed, verifies.runs, fun value known => good value known (verifies.values value known)⟩

/-! ## The second run -/

/-- A run over settled operations changes nothing and counts nothing. -/
theorem reshardFrom_of_settled {operations : List OperationId}
    (settled : ∀ operation ∈ operations,
      (function.signature operation).Settled meshes function.results) :
    (reshardFrom meshes function operations).function = function ∧
      (reshardFrom meshes function operations).error = none ∧
      (reshardFrom meshes function operations).tally.reshards = 0 ∧
      (reshardFrom meshes function operations).tally.revised = 0 := by
  induction operations with
  | nil => exact ⟨rfl, rfl, rfl, rfl⟩
  | cons operation rest ih =>
    obtain ⟨settledFirst, settledRest⟩ := List.forall_mem_cons.mp settled
    obtain ⟨decision, decided, idle⟩ := settledFirst
    obtain ⟨sameFunction, noError, noReshards, noRevisions⟩ := ih settledRest
    have isDecision := decision_eq_ok_iff.mpr decided
    have unchanged : function.carryOut operation decision = function ∧
        decision.reshardCount = 0 ∧ (Tally.ofDecision decision).revised = 0 := by
      cases decision with
      | exit changes =>
        rw [show changes = [] from idle]
        exact ⟨rfl, rfl, rfl⟩
      | skip reason => cases reason <;> exact ⟨rfl, rfl, rfl⟩
      | revise revision => exact absurd idle id
    have counted : (Tally.ofDecision decision).reshards = decision.reshardCount := by
      cases decision with
      | skip reason => cases reason <;> rfl
      | exit changes => rfl
      | revise revision => rfl
    simp only [reshardFrom, isDecision, unchanged.1]
    refine ⟨sameFunction, noError, ?_, ?_⟩
    · change (Tally.ofDecision decision).reshards +
        (reshardFrom meshes function rest).tally.reshards = 0
      rw [counted, unchanged.2.1, noReshards]
    · change (Tally.ofDecision decision).revised +
        (reshardFrom meshes function rest).tally.revised = 0
      rw [unchanged.2.2, noRevisions]

/-! ## The first run -/

/-- A reshard that the run inserts has no rule, so nothing has to be done about it. -/
theorem settled_of_reshard {declared : List Tensor} {signature : Signature}
    (isReshard : signature.kind = .reshard) (noRule : signature.attached = none) :
    signature.Settled meshes declared := by
  have isNone : signature.rule? = none := by
    rw [Signature.rule?, noRule, isReshard]
    rfl
  exact ⟨.skip .noRule, decision_of_noRule (by rw [isReshard]; decide) isNone, trivial⟩

theorem regular_congr {declared : List Tensor} {first second : Signature}
    (same : first.unsharded = second.unsharded) (regular : first.Regular declared) :
    second.Regular declared := by
  constructor
  · intro rule isRule
    rw [← Signature.rule?_congr same] at isRule
    obtain ⟨suited, once⟩ := regular.1 rule isRule
    exact ⟨Signature.suitedBy_congr same suited, once⟩
  · intro isExit
    rw [← Signature.kind_congr same] at isExit
    rw [← Signature.operandTypes_congr same]
    exact regular.2 isExit

/-- What a run over operations with simple rules establishes. -/
def settlingSpec (meshes : SymbolTable) (declared : List Tensor)
    (sound : ∀ tensor ∈ declared, tensor.Sound meshes) : RunSpec meshes declared where
  Good := Tensor.Sound meshes
  Allowed signature := signature.Regular declared ∧
    ∀ rule, signature.rule? = some rule → rule.IsSimple
  Done := Signature.Settled meshes declared
  allowed_congr same allowed := by
    refine ⟨regular_congr same allowed.1, ?_⟩
    intro rule isRule
    rw [← Signature.rule?_congr same] at isRule
    exact allowed.2 rule isRule
  reshard_done _ isReshard noRule := settled_of_reshard isReshard noRule
  decides signature allowed good := by
    obtain ⟨decision, decided, keeps⟩ :=
      exists_decision (followsShardings_sound meshes) sound allowed.1 good
    exact ⟨decision, decided, keeps, settled_after allowed.2 good keeps decided⟩

/-- A run over a function that verifies, with simple rules, goes through and settles every
operation of its body. -/
theorem reshard_settles (wellFormed : function.WellFormed)
    (verified : function.verify meshes = .ok ())
    (simple : function.AttachesOnly FactorRule.IsSimple) :
    (function.reshard meshes).error = none ∧
      ∀ operation ∈ (function.reshard meshes).function.body,
        ((function.reshard meshes).function.signature operation).Settled meshes
          (function.reshard meshes).function.results := by
  obtain ⟨terminator, verifies⟩ := verify_eq_ok_iff.mp verified
  have once : function.AttachesOnly FactorRule.UsesFactorsOnce :=
    fun operation member rule attached =>
      ⟨(simple operation member rule attached).1, (simple operation member rule attached).2.1⟩
  have sound : ∀ tensor ∈ function.results, tensor.Sound meshes :=
    fun tensor member => Tensor.sound_of_check (verifies.results tensor member)
  have stage := verifies.stage wellFormed fun _ _ => Tensor.sound_of_check
  obtain ⟨noError, -, settled, -⟩ := stage.reshard_spec (settlingSpec meshes function.results sound)
    fun operation member => ⟨verifies.regular once member,
      fun rule isRule => (simple.rule (fun _ isSimple => isSimple) member isRule).2⟩
  have sameResults : (function.reshard meshes).function.results = function.results :=
    (reshard_erases wellFormed meshes).2.1.results_eq
  rw [sameResults]
  exact ⟨noError, settled⟩

/-- A settled operation with a projection without overflow is consistent. -/
theorem isConsistent_of_settled {declared : List Tensor} {signature : Signature}
    {rule : FactorRule} {name : String} (settled : signature.Settled meshes declared)
    (notExit : signature.kind ≠ .exit) (isRule : signature.rule? = some rule)
    (isName : signature.mesh? = some name) :
    ∃ mesh projection, meshes.mesh? name = some mesh ∧
      Projection.ofSignature mesh rule signature = .ok projection ∧
      (¬ projection.Overflows → projection.IsConsistent) := by
  obtain ⟨decision, decided, idle⟩ := settled
  obtain ⟨mesh, projection, isMesh, isProjection, rfl⟩ :=
    (decision_of_rule notExit isRule isName).mp decided
  refine ⟨mesh, projection, isMesh, isProjection, ?_⟩
  intro within
  exact (Projection.idle_decision_iff.mp idle).resolve_left within

/-! ## A product whose operands disagree -/

/-- Two by two devices. -/
def squareMesh : Mesh :=
  ⟨[⟨"x", 2, by decide, by decide, by decide⟩,
    ⟨"y", 2, by decide, by decide, by decide⟩], by decide⟩

def squareMeshes : SymbolTable :=
  ⟨[("mesh", squareMesh)], List.nodup_singleton _⟩

/-- A matrix that keeps the axes of its dimensions. -/
def closedMatrix (rows columns : AxisSequence) : Tensor :=
  ⟨⟨[4, 4], .f32⟩, some ⟨"mesh", [⟨rows, true⟩, ⟨columns, true⟩], []⟩⟩

/-- The result of a shift is sharded like its operand. -/
def shiftRule : FactorRule where
  sizes := [4, 4]
  operands := [[[0], [1]]]
  results := [[[0], [1]]]
  reduction := []
  isCustom := true
  mapped_lt := by decide
  reduction_lt := by decide

/-- The contracting dimensions of the product are sharded along different axes, and so are operand
and result of the shift. -/
def productHistory : List Edit :=
  [.addArgument (closedMatrix [.whole "x"] [.whole "y"]),
    .addArgument (closedMatrix [.whole "x"] []),
    .addResult (closedMatrix [] [.whole "x"]),
    .append .dot [⟨0⟩, ⟨1⟩] [⟨[4, 4], .f32⟩],
    .append (.custom "shift") [⟨2⟩] [⟨[4, 4], .f32⟩],
    .setRule ⟨1⟩ (some shiftRule),
    .setSharding ⟨3⟩ (closedMatrix [] [.whole "x"]).sharding,
    .append .exit [⟨3⟩] []]

theorem product_verifies : (ofHistory "main" productHistory).verify squareMeshes = .ok () := by
  decide +kernel

theorem product_attaches_simple :
    (ofHistory "main" productHistory).AttachesOnly FactorRule.IsSimple := by
  decide +kernel

/-! ## Both runs -/

/-- **A run makes operations consistent.** Over a function that verifies and whose attached rules
are simple, it goes through, and afterwards every operation of the body with a rule and a common
mesh, original or inserted, has a projection that is consistent unless it overflows. -/
theorem reshard_makes_consistent (name : String) (history : List Edit) (meshes : SymbolTable)
    (verified : (ofHistory name history).verify meshes = .ok ())
    (simple : (ofHistory name history).AttachesOnly FactorRule.IsSimple) :
    let run := (ofHistory name history).reshard meshes
    run.error = none ∧ ∀ operation ∈ run.function.body, ∀ rule meshName,
      (run.function.operation operation).kind ≠ .exit →
      (run.function.signature operation).rule? = some rule →
      (run.function.signature operation).mesh? = some meshName →
      ∃ mesh projection, meshes.mesh? meshName = some mesh ∧
        Projection.ofSignature mesh rule (run.function.signature operation) = .ok projection ∧
        (¬ projection.Overflows → projection.IsConsistent) := by
  intro run
  obtain ⟨noError, settled⟩ :=
    reshard_settles (wellFormed_ofHistory name history) verified simple
  refine ⟨noError, ?_⟩
  intro operation member rule meshName notExit isRule isName
  exact isConsistent_of_settled (settled operation member) notExit isRule isName

theorem shift_made_consistent :
    let run := (ofHistory "main" productHistory).reshard squareMeshes
    run.error = none ∧ ∃ projection,
      Projection.ofSignature squareMesh shiftRule (run.function.signature ⟨1⟩) = .ok projection ∧
        projection.IsConsistent := by
  intro run
  obtain ⟨noError, consistent⟩ := reshard_makes_consistent "main" productHistory squareMeshes
    product_verifies product_attaches_simple
  obtain ⟨mesh, projection, isMesh, isProjection, holds⟩ := consistent ⟨1⟩ (by decide +kernel)
    shiftRule "mesh" (by decide +kernel) (by decide +kernel) (by decide +kernel)
  have sameMesh : squareMeshes.mesh? "mesh" = some squareMesh := by decide +kernel
  rw [sameMesh] at isMesh
  cases isMesh
  have within : ∀ other ∈ (Projection.ofSignature squareMesh shiftRule
      (run.function.signature ⟨1⟩)).toOption, ¬ other.Overflows := by decide +kernel
  refine ⟨noError, projection, isProjection, holds (within projection ?_)⟩
  rw [isProjection]
  rfl

/-- **A second run finds nothing to do.** It goes through, inserts no reshard and revises no
operation, and leaves the function as the first run left it. -/
theorem reshard_twice (name : String) (history : List Edit) (meshes : SymbolTable)
    (verified : (ofHistory name history).verify meshes = .ok ())
    (simple : (ofHistory name history).AttachesOnly FactorRule.IsSimple) :
    let first := (ofHistory name history).reshard meshes
    let second := first.function.reshard meshes
    first.error = none ∧ second.error = none ∧ second.tally.reshards = 0 ∧
      second.tally.revised = 0 ∧ second.function = first.function := by
  intro first second
  obtain ⟨noError, settled⟩ :=
    reshard_settles (wellFormed_ofHistory name history) verified simple
  obtain ⟨sameFunction, stillNoError, noReshards, noRevisions⟩ := reshardFrom_of_settled settled
  exact ⟨noError, stillNoError, noReshards, noRevisions, sameFunction⟩

theorem product_resharded_once :
    let first := (ofHistory "main" productHistory).reshard squareMeshes
    first.tally.reshards = 3 ∧ (first.function.reshard squareMeshes).function = first.function := by
  intro first
  obtain ⟨-, -, -, -, sameFunction⟩ := reshard_twice "main" productHistory squareMeshes
    product_verifies product_attaches_simple
  exact ⟨by decide +kernel, sameFunction⟩

end Function

/-! ## Functions that verify again -/

namespace Function

variable {function : Function} {meshes : SymbolTable}

/-- No sharding of a value or of a declared result lists replicated axes. -/
def ListsNoReplicated (function : Function) : Prop :=
  ∀ tensor ∈ function.values.map Value.tensor ++ function.results, tensor.Bare

instance : Decidable function.ListsNoReplicated :=
  inferInstanceAs (Decidable (∀ tensor ∈ function.values.map Value.tensor ++ function.results,
    tensor.Bare))

/-- What a run over regular operations without replicated axes establishes: their tensors stay
acceptable. -/
def verifyingSpec (meshes : SymbolTable) (declared : List Tensor)
    (good : ∀ tensor ∈ declared, tensor.Sound meshes ∧ tensor.Bare) : RunSpec meshes declared where
  Good tensor := tensor.Sound meshes ∧ tensor.Bare
  Allowed signature := signature.Regular declared
  Done _ := True
  allowed_congr := regular_congr
  reshard_done _ _ _ := trivial
  decides signature regular goodTensors := by
    obtain ⟨decision, decided, keeps⟩ :=
      exists_decision (followsShardings_bare meshes) good regular goodTensors
    exact ⟨decision, decided, keeps, trivial⟩

/-- Inserted operations are no returns. -/
theorem Extends.only_exit {base current : Function} {terminator : OperationId}
    (extended : base.Extends current) (base_wellFormed : base.WellFormed)
    (wellFormed : current.WellFormed)
    (only : ∀ operation ∈ base.body, (base.operation operation).kind = .exit →
      operation = terminator) :
    ∀ operation ∈ current.body, (current.operation operation).kind = .exit →
      operation = terminator := by
  intro operation member isExit
  have known := (wellFormed.mem_body_iff operation).mp member
  rcases Nat.lt_or_ge operation.index base.operations.length with old | new
  · rw [(extended.kept operation old).1] at isExit
    exact only operation ((base_wellFormed.mem_body_iff operation).mpr old) isExit
  · obtain ⟨operand, result, isReshard, -⟩ := extended.inserted operation new known
    rw [isReshard] at isExit
    cases isExit

/-- The dimensions of a matrix become one. -/
def flattenRule : FactorRule :=
  { shiftRule with
    results := [[[0, 1]]]
    mapped_lt := by decide }

/-- The one dimension of the result is sharded along the axes of both dimensions of the operand, in
the wrong order. -/
def flattenHistory : List Edit :=
  [.addArgument (closedMatrix [.whole "x"] [.whole "y"]),
    .addResult ⟨⟨[16], .f32⟩, none⟩,
    .append (.custom "flatten") [⟨0⟩] [⟨[16], .f32⟩],
    .setRule ⟨0⟩ (some flattenRule),
    .setSharding ⟨1⟩ (some ⟨"mesh", [⟨[.whole "y", .whole "x"], true⟩], []⟩),
    .append .exit [⟨1⟩] []]

/-- **A run keeps verification.** Over a function that verifies, in which no sharding lists
replicated axes and whose attached rules use no factor twice in a tensor, it goes through, and what
it leaves verifies against the same meshes. -/
theorem reshard_verifies (name : String) (history : List Edit) (meshes : SymbolTable)
    (verified : (ofHistory name history).verify meshes = .ok ())
    (bare : (ofHistory name history).ListsNoReplicated)
    (once : (ofHistory name history).AttachesOnly FactorRule.UsesFactorsOnce) :
    let run := (ofHistory name history).reshard meshes
    run.error = none ∧ run.function.verify meshes = .ok () := by
  intro run
  have started := wellFormed_ofHistory name history
  obtain ⟨terminator, verifies⟩ := verify_eq_ok_iff.mp verified
  obtain ⟨bareValues, bareResults⟩ := List.forall_mem_append.mp bare
  have good : ∀ tensor ∈ (ofHistory name history).results, tensor.Sound meshes ∧ tensor.Bare :=
    fun tensor member =>
      ⟨Tensor.sound_of_check (verifies.results tensor member), bareResults tensor member⟩
  have stage : (ofHistory name history).Stage fun tensor => tensor.Sound meshes ∧ tensor.Bare :=
    verifies.stage started fun value known accepted =>
      ⟨Tensor.sound_of_check accepted, forall_values_iff.mp bareValues value known⟩
  obtain ⟨noError, final, -, sameBut, ends⟩ := stage.reshard_spec (verifyingSpec meshes _ good)
    fun operation member => verifies.regular once member
  obtain ⟨wellFormed, extended, -⟩ := reshard_erases started meshes
  obtain ⟨front, body⟩ := verifies.ends
  have old : terminator.index < (ofHistory name history).operations.length :=
    started.lt_of_mem_body body (List.mem_append_right _ (List.mem_singleton_self _))
  refine ⟨noError, verify_eq_ok_iff.mpr ⟨terminator, ?_⟩⟩
  exact {
    ends := ends front terminator body verifies.is_exit
    is_exit := (extended.kept terminator old).1.trans verifies.is_exit
    only_exit := extended.only_exit started wellFormed verifies.only_exit
    runs := final.runs
    returned := by
      have sameTypes := Signature.operandTypes_congr (sameBut terminator old)
      simp only [Function.signature, List.map_map] at sameTypes
      rw [extended.results_eq, ← verifies.returned]
      exact sameTypes
    values := fun value known => (final.good value known).1.check (final.good value known).2
    results := fun tensor member => by
      rw [extended.results_eq] at member
      exact verifies.results tensor member }

theorem flatten_verifies_again :
    let run := (ofHistory "main" flattenHistory).reshard squareMeshes
    run.tally.reshards = 2 ∧ run.function.verify squareMeshes = .ok () := by
  intro run
  obtain ⟨-, verifiesAgain⟩ := reshard_verifies "main" flattenHistory squareMeshes
    (by decide +kernel) (by decide +kernel) (by decide +kernel)
  exact ⟨by decide +kernel, verifiesAgain⟩

end Function

end MeshSharding
