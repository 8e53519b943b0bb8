import MeshSharding.Proofs.Reshard.Layout
import MeshSharding.Proofs.Reshard.Locality

/-!
# What becomes of results and returned values

A result that a run brings to another sharding is taken over by the reshard that
stands behind the operation. Nothing else uses the result any more, and the
reshard brings back the sharding that the result had (`Redirected`).

Who used the result before the run now uses what the reshard makes of it, or
what another reshard makes of that for this one use. This follows from what
erasing the reshards gives back: each operand goes back to the operand that was
there, each step of the way is an inserted reshard, and an inserted reshard is
either for a slot of an operation of the body or for one of its results, so that
there are two steps at most (`reaches_result`).

The return is visited last. By then the values that it returns may have got new
shardings or have been replaced by reshards of results, but all that this does
to the return is to open operands that had no sharding, and an opened operand is
brought to what is declared just as the operand without a sharding would be. So
after the run each returned value has the declared sharding or needs none
(`reshard_returns_declared`).
-/

set_option autoImplicit false

namespace MeshSharding

namespace Function

variable {meshes : SymbolTable} {base current : Function} {value : ValueId}

/-! ## Going back -/

/-- A value of an extension is one of the base or the result of an inserted reshard. -/
theorem Extends.value_cases (extended : base.Extends current) (baseFormed : base.WellFormed)
    (wellFormed : current.WellFormed) (known : value.index < current.values.length) :
    value.index < base.values.length ∨ ∃ inserted operand,
      base.operations.length ≤ inserted.index ∧
        current.operation inserted = ⟨.reshard, [operand], [value], none⟩ := by
  obtain ⟨origin, found⟩ := exists_origin? known
  cases origin with
  | argument index =>
    rw [← wellFormed.argument_iff, extended.arguments_eq] at found
    exact .inl (baseFormed.argument_lt (List.mem_of_getElem? found))
  | result producer index =>
    have created := wellFormed.operation_lt_of_origin found
    rw [← wellFormed.result_iff] at found
    by_cases old : producer.index < base.operations.length
    · rw [(extended.kept producer old).2.2] at found
      exact .inl (baseFormed.result_lt (List.mem_of_getElem? found))
    · obtain ⟨operand, result, isReshard, -⟩ :=
        extended.inserted producer (Nat.le_of_not_lt old) created
      rw [isReshard] at found
      obtain rfl : value = result := List.mem_singleton.mp (List.mem_of_getElem? found)
      exact .inr ⟨producer, operand, Nat.le_of_not_lt old, isReshard⟩

/-- A value of the base is its own source. -/
theorem Extends.source_eq_self (extended : base.Extends current) (baseFormed : base.WellFormed)
    (old : value.index < base.values.length) :
    current.source base.operations.length value = value :=
  Function.iterate_fixed (extended.behind_eq_self baseFormed old) _

/-- What an inserted reshard makes of a value has the same source. -/
theorem Erases.source_of_reshard (erased : base.Erases current) (extended : base.Extends current)
    (baseFormed : base.WellFormed) (wellFormed : current.WellFormed) {inserted : OperationId}
    {operand : ValueId} (new : base.operations.length ≤ inserted.index)
    (isReshard : current.operation inserted = ⟨.reshard, [operand], [value], none⟩) :
    current.source base.operations.length operand =
      current.source base.operations.length value := by
  have origin : current.origin? value = some (.result inserted 0) := by
    rw [← wellFormed.result_iff, isReshard]
    rfl
  have isBehind : current.behind base.operations.length value = operand := by
    rw [behind_of_result origin new, isReshard]
    rfl
  have known := (Extends.inserted_lt wellFormed isReshard).2
  have fixed := extended.behind_eq_self baseFormed (erased.source_lt extended baseFormed known)
  rw [source, ← isBehind, ← Function.iterate_succ_apply, Function.iterate_succ_apply']
  exact fixed

/-! ## The reshards of a run -/

section Run

variable (baseFormed : base.WellFormed) (noError : (base.reshard meshes).error = none)
include baseFormed noError

/-- What an inserted reshard makes of a value is used by one slot of an operation of the body,
unless it is made of a value of the base. -/
theorem reshard_cases {inserted : OperationId} {operand : ValueId}
    (new : base.operations.length ≤ inserted.index)
    (isReshard : (base.reshard meshes).function.operation inserted =
      ⟨.reshard, [operand], [value], none⟩) :
    (∃ user ∈ base.body, ∃ slot, (base.reshard meshes).function.OnlyUse value ⟨user, slot⟩) ∨
      operand.index < base.values.length := by
  obtain ⟨visits, blocks, body, surrounded⟩ := reshard_blocks baseFormed noError
  have placed := ((baseFormed.reshard meshes).mem_body_iff inserted).mpr (lt_of_reshard isReshard)
  rw [body] at placed
  obtain ⟨block, isBlock, member⟩ := List.mem_flatMap.mp placed
  obtain ⟨visit, isVisit, surrounds⟩ := forall₂_exists_of_mem_right surrounded isBlock
  have original : visit.operation ∈ base.body := by
    rw [← visits]
    exact List.mem_map_of_mem isVisit
  have old := (baseFormed.mem_body_iff _).mp original
  rcases List.mem_append.mp member with isBefore | isLater
  · obtain ⟨change, -, -, operand, held, alsoReshard, only, -⟩ :=
      forall₂_exists_of_mem_right surrounds.before isBefore
    rw [isReshard] at alsoReshard
    cases alsoReshard
    exact .inl ⟨visit.operation, original, change.slot, only⟩
  rcases List.mem_cons.mp isLater with isOperation | isBehind
  · rw [surrounds.operation_eq] at isOperation
    exact absurd old (isOperation ▸ Nat.not_lt.mpr new)
  · obtain ⟨change, -, -, result, made, found, alsoReshard, -⟩ :=
      forall₂_exists_of_mem_right surrounds.behind isBehind
    rw [isReshard] at alsoReshard
    cases alsoReshard
    obtain ⟨-, extended, -⟩ := reshard_erases baseFormed meshes
    rw [(extended.kept _ old).2.2] at found
    exact .inr (baseFormed.result_lt (List.mem_of_getElem? found))

/-- A result that a visit changes is resharded behind the operation, and only inserted operations
stand between the two. -/
theorem exists_reshard_behind {visit : Visit} (isVisit : visit ∈ (base.reshard meshes).visits)
    {change : ResultChange} (isChange : change ∈ visit.decision.resultChanges) :
    ∃ reshard, base.operations.length ≤ reshard.index ∧
      (base.reshard meshes).function.ReshardsResult visit.operation change reshard ∧
      ∃ front between back, (base.reshard meshes).function.body =
          front ++ visit.operation :: between ++ reshard :: back ∧
        ∀ other ∈ between, base.operations.length ≤ other.index := by
  obtain ⟨-, blocks, body, surrounded⟩ := reshard_blocks baseFormed noError
  obtain ⟨block, isBlock, surrounds⟩ := forall₂_exists_of_mem_left surrounded isVisit
  obtain ⟨reshard, isBehind, new, reshards⟩ := forall₂_exists_of_mem_left surrounds.behind isChange
  obtain ⟨front, back, isFlat⟩ := List.append_of_mem isBlock
  obtain ⟨between, others, isRow⟩ := List.append_of_mem isBehind
  refine ⟨reshard, new, reshards, front.flatMap Block.operations ++ block.before, between,
    others ++ back.flatMap Block.operations, ?_, ?_⟩
  · rw [body, isFlat]
    simp [Block.operations, surrounds.operation_eq, isRow]
  · intro other isOther
    have member : other ∈ block.behind := by
      rw [isRow]
      exact List.mem_append_left _ isOther
    obtain ⟨_, -, new, -⟩ := forall₂_exists_of_mem_right surrounds.behind member
    exact new

/-- **Whoever goes back to a result that has been taken over uses what the reshard behind it makes
of it**, directly or through one more reshard that nothing else uses. -/
theorem reaches_result {result last : ValueId} {reshard : OperationId}
    (isReshard : (base.reshard meshes).function.operation reshard =
      ⟨.reshard, [result], [value], none⟩)
    (only : (base.reshard meshes).function.OnlyUse result ⟨reshard, 0⟩)
    (known : last.index < (base.reshard meshes).function.values.length)
    (isSource : (base.reshard meshes).function.source base.operations.length last = result)
    (differ : last ≠ result) :
    last = value ∨ ∃ second, base.operations.length ≤ second.index ∧
      (base.reshard meshes).function.operation second = ⟨.reshard, [value], [last], none⟩ ∧
      ∃ user ∈ base.body, ∃ slot, (base.reshard meshes).function.OnlyUse last ⟨user, slot⟩ := by
  obtain ⟨wellFormed, extended, erased⟩ := reshard_erases baseFormed meshes
  -- a value of the base goes back to the result only if it is the result
  have isResult {other : ValueId} (old : other.index < base.values.length)
      (goesBack : (base.reshard meshes).function.source base.operations.length other = result) :
      other = result :=
    (extended.source_eq_self baseFormed old).symm.trans goesBack
  rcases extended.value_cases baseFormed wellFormed known with
    old | ⟨second, operand, new, isSecond⟩
  · exact absurd (isResult old isSource) differ
  have operandBack := (erased.source_of_reshard extended baseFormed wellFormed new isSecond).trans
    isSource
  by_cases direct : operand = result
  · rw [direct] at isSecond
    exact .inl (only.made_eq isReshard isSecond)
  have operandKnown := (Extends.inserted_lt wellFormed isSecond).1
  rcases extended.value_cases baseFormed wellFormed operandKnown with
    old | ⟨first, source, firstNew, isFirst⟩
  · exact absurd (isResult old operandBack) direct
  have sourceBack :=
    (erased.source_of_reshard extended baseFormed wellFormed firstNew isFirst).trans operandBack
  rcases reshard_cases baseFormed noError firstNew isFirst with
    ⟨user, placed, slot, onlyOperand⟩ | sourceOld
  · -- the operand is used by an inserted operation, so it was not made for one of the body
    have used := (onlyOperand second 0).mp (by rw [isSecond]; rfl)
    rw [(Use.mk.inj used).1, baseFormed.mem_body_iff] at placed
    exact absurd placed (Nat.not_lt.mpr new)
  · rw [isResult sourceOld sourceBack] at isFirst
    rw [only.made_eq isReshard isFirst] at isSecond direct operandBack
    refine .inr ⟨second, new, isSecond, ?_⟩
    refine (reshard_cases baseFormed noError new isSecond).resolve_right fun old => ?_
    exact direct (isResult old operandBack)

/-- A result has another sharding after a run only if the visit of its operation changes it. -/
theorem exists_resultChange {producer : OperationId} (placed : producer ∈ base.body)
    {result : ValueId} (isResult : result ∈ (base.operation producer).results)
    (changed : ((base.reshard meshes).function.tensor result).sharding ≠
      (base.tensor result).sharding) :
    ∃ visit ∈ (base.reshard meshes).visits, visit.operation = producer ∧
      ∃ change ∈ visit.decision.resultChanges,
        (base.operation producer).results[change.index]? = some result ∧
          change.Restores (fun name => (base.signature producer).mesh? = some name)
            (base.signature producer) := by
  obtain ⟨visits, -⟩ := reshard_blocks baseFormed noError
  obtain ⟨-, extended, -⟩ := reshard_erases baseFormed meshes
  rw [← visits] at placed
  obtain ⟨visit, isVisit, rfl⟩ := List.mem_map.mp placed
  obtain ⟨isOperation, -, -, -, final⟩ := reshard_reaches baseFormed isVisit
  obtain ⟨index, found⟩ := List.mem_iff_getElem?.mp isResult
  have sameResults := (extended.kept _ ((baseFormed.mem_body_iff _).mp isOperation)).2.2
  have changes : index ∈ visit.decision.resultChanges.map ResultChange.index := by
    by_contra untouched
    apply changed
    have outcome := congrArg (·[index]?) final.results_eq
    simp only [Signature.results_after, Function.signature] at outcome
    rw [getElem?_retargeted_of_notMem (by rw [List.map_map]; exact untouched), List.getElem?_map,
      List.getElem?_map, sameResults, found] at outcome
    exact congrArg Tensor.sharding (Option.some.inj outcome)
  obtain ⟨change, isChange, rfl⟩ := List.mem_map.mp changes
  refine ⟨visit, isVisit, rfl, change, isChange, found, ?_⟩
  cases isDecision : visit.decision with
  | exit operands =>
    rw [isDecision] at isChange
    exact absurd isChange List.not_mem_nil
  | skip reason =>
    rw [isDecision] at isChange
    exact absurd isChange List.not_mem_nil
  | revise revision =>
    obtain ⟨-, decidedFirst, -⟩ := revision_at_start baseFormed isVisit isDecision
    rw [isDecision] at isChange
    exact (restores_of_decision decidedFirst fun _ _ isName _ => isName).2 change isChange

end Run

/-- A result has been taken over by an inserted reshard, which makes a value of it: the reshard
stands behind the operation in front of the next one of the base, it alone uses the result, the
value has the sharding that the result had or, if it had none, the fully open one, and every slot
that held the result reaches the value, directly or through one more reshard of its own. -/
structure Redirected (base current : Function) (producer : OperationId) (result : ValueId)
    (reshard : OperationId) (value : ValueId) : Prop where
  inserted : base.operations.length ≤ reshard.index
  reshards : current.operation reshard = ⟨.reshard, [result], [value], none⟩
  only_use : current.uses result = [⟨reshard, 0⟩]
  follows : ∃ front between back,
    current.body = front ++ producer :: between ++ reshard :: back ∧
      ∀ other ∈ between, base.operations.length ≤ other.index
  restored : ∃ meshName, (base.signature producer).mesh? = some meshName ∧
    current.tensor value = (base.tensor result).withSharding
      ((base.tensor result).sharding.getD (.fullyOpen meshName (base.tensor result).rank))
  reached : ∀ user ∈ base.body, ∀ slot, (base.operation user).operands[slot]? = some result →
    ∃ last, (current.operation user).operands[slot]? = some last ∧
      (last = value ∨ ∃ second, base.operations.length ≤ second.index ∧
        current.operation second = ⟨.reshard, [value], [last], none⟩ ∧
        current.uses last = [⟨user, slot⟩])

/-- **A result whose sharding changes is taken over.** If a run goes through and a result of an
operation of the body has another sharding afterwards, then a reshard behind the operation takes it
over, brings back the sharding that it had, and reaches every use that the result had. The function
need not verify for this. -/
theorem reshard_redirects (name : String) (history : List Edit) (meshes : SymbolTable)
    (noError : ((ofHistory name history).reshard meshes).error = none)
    (producer : OperationId) (placed : producer ∈ (ofHistory name history).body)
    (result : ValueId)
    (isResult : result ∈ ((ofHistory name history).operation producer).results)
    (changed : (((ofHistory name history).reshard meshes).function.tensor result).sharding ≠
      ((ofHistory name history).tensor result).sharding) :
    ∃ reshard value, (ofHistory name history).Redirected
      ((ofHistory name history).reshard meshes).function producer result reshard value := by
  have baseFormed := wellFormed_ofHistory name history
  generalize ofHistory name history = base at *
  obtain ⟨wellFormed, extended, erased⟩ := reshard_erases baseFormed meshes
  obtain ⟨visit, isVisit, rfl, change, isChange, found, restores⟩ :=
    exists_resultChange baseFormed noError placed isResult changed
  obtain ⟨_, meshName, isTensor, isName, isRestored⟩ := restores
  obtain ⟨reshard, new, ⟨_, value, alsoFound, reshards, only, -, restored⟩, follows⟩ :=
    exists_reshard_behind baseFormed noError isVisit isChange
  rw [(extended.kept _ ((baseFormed.mem_body_iff _).mp placed)).2.2, found] at alsoFound
  cases alsoFound
  refine ⟨reshard, value, new, reshards, only.uses_eq wellFormed, follows,
    ⟨meshName, isName, ?_⟩, ?_⟩
  · obtain ⟨_, _, alsoReshard, sameType⟩ := extended.inserted reshard new (lt_of_reshard reshards)
    rw [reshards] at alsoReshard
    cases alsoReshard
    rw [(extended.typed result (baseFormed.result_lt isResult)).1] at sameType
    rw [Function.signature, List.getElem?_map, found] at isTensor
    cases isTensor
    rw [← isRestored]
    exact congrArg₂ Tensor.mk sameType restored
  · intro user isUser slot held
    have old := (baseFormed.mem_body_iff user).mp isUser
    have wired := congrArg (·[slot]?) (erased.wired user old)
    simp only [List.getElem?_map, held, Option.map_eq_some_iff] at wired
    obtain ⟨last, isLast, isSource⟩ := wired
    have differ : last ≠ result := by
      rintro rfl
      have used := (only user slot).mp isLast
      rw [← (Use.mk.inj used).1] at old
      exact Nat.not_lt.mpr new old
    refine ⟨last, isLast, ?_⟩
    have known := wellFormed.operand_lt user last (List.mem_of_getElem? isLast)
    rcases reaches_result baseFormed noError reshards only known isSource differ with
      same | ⟨second, isNew, isSecond, other, -, place, onlyLast⟩
    · exact .inl same
    · refine .inr ⟨second, isNew, isSecond, ?_⟩
      rw [onlyLast.uses_eq wellFormed, (onlyLast user slot).mp isLast]

/-- The first result of the fork, which had rows along the other axis. The sum reaches it through
one reshard for each of its operands, and the return directly in one place and through a reshard in
the other. -/
theorem fork_redirected :
    let before := ofHistory "main" forkHistory
    let after := (before.reshard squareMeshes).function
    before.Redirected after ⟨0⟩ ⟨2⟩ ⟨4⟩ ⟨6⟩ ∧
      (after.operation ⟨1⟩).operands = [⟨8⟩, ⟨9⟩] ∧
      (after.operation ⟨2⟩).operands = [⟨6⟩, ⟨11⟩, ⟨7⟩, ⟨12⟩] := by
  intro before after
  obtain ⟨reshard, value, redirected⟩ := reshard_redirects "main" forkHistory squareMeshes
    (by decide +kernel) ⟨0⟩ (by decide +kernel) ⟨2⟩ (by decide +kernel) (by decide +kernel)
  have uses : after.uses ⟨2⟩ = [⟨⟨4⟩, 0⟩] := by decide +kernel
  have takesOver : after.operation ⟨4⟩ = ⟨.reshard, [⟨2⟩], [⟨6⟩], none⟩ := by decide +kernel
  obtain rfl : reshard = ⟨4⟩ := by
    have same := redirected.only_use.symm.trans uses
    cases same
    rfl
  obtain rfl : value = ⟨6⟩ := by
    have same := redirected.reshards.symm.trans takesOver
    cases same
    rfl
  exact ⟨redirected, by decide +kernel, by decide +kernel⟩

end Function

/-! ## Returned values -/

/-- A returned value is left as it is if it has the declared sharding, or if it and the declared
result are both fully replicated. -/
theorem exitTarget?_eq_none_iff {wanted current : Option TensorSharding} :
    exitTarget? wanted current = none ↔ current = wanted ∨
      TensorSharding.IsFullyReplicated current ∧ TensorSharding.IsFullyReplicated wanted := by
  unfold exitTarget?
  by_cases bothReplicated : TensorSharding.IsFullyReplicated current ∧
      TensorSharding.IsFullyReplicated wanted
  · simp [bothReplicated]
  · rw [if_neg bothReplicated]
    by_cases same : wanted = current
    · simp [same]
    · rw [if_neg same]
      cases wanted with
      | some target => simp [bothReplicated, Ne.symm same]
      | none =>
        cases current with
        | none => exact absurd rfl same
        | some sharding => simp [bothReplicated]

namespace Function

variable {meshes : SymbolTable} {function : Function}

/-- The return stays at the end of the body. -/
theorem terminator?_reshard (wellFormed : function.WellFormed)
    (noError : (function.reshard meshes).error = none) {terminator : OperationId}
    (isTerminator : function.terminator? = some terminator) :
    (function.reshard meshes).function.terminator? = some terminator := by
  obtain ⟨⟨front, body⟩, isExit⟩ := terminator?_eq_some_iff.mp isTerminator
  obtain ⟨visits, blocks, newBody, surrounded⟩ := reshard_blocks wellFormed noError
  obtain ⟨-, extended, -⟩ := reshard_erases wellFormed meshes
  rw [body] at visits
  obtain ⟨earlier, last, isVisits, -, isLast⟩ := List.map_eq_append_iff.mp visits
  obtain ⟨visit, rfl, rfl⟩ := List.map_eq_singleton_iff.mp isLast
  have isVisit : visit ∈ (function.reshard meshes).visits := by
    rw [isVisits]
    exact List.mem_append_right _ List.mem_cons_self
  -- the last block has nothing behind its operation, because a return has no results
  rw [isVisits] at surrounded
  obtain ⟨others, block, rfl, surrounds⟩ := forall₂_exists_concat surrounded
  obtain ⟨isOperation, signature, opened, decided, -⟩ := reshard_reaches wellFormed isVisit
  have behind := surrounds.behind
  rw [resultChanges_of_exit (opened.kind_eq.trans isExit) decided,
    List.forall₂_nil_left_iff] at behind
  refine terminator?_eq_some_iff.mpr ⟨⟨others.flatMap Block.operations ++ block.before, ?_⟩, ?_⟩
  · rw [newBody]
    simp [Block.operations, behind, surrounds.operation_eq]
  · rw [(extended.kept _ ((wellFormed.mem_body_iff _).mp isOperation)).1]
    exact isExit

/-- Once the return has been visited none of its operands has to change. -/
theorem exitChanges_reshard (wellFormed : function.WellFormed)
    (noError : (function.reshard meshes).error = none) {terminator : OperationId}
    (placed : terminator ∈ function.body)
    (isExit : (function.operation terminator).kind = .exit) :
    exitChanges function.results
      ((function.reshard meshes).function.signature terminator).operands = [] := by
  obtain ⟨visits, -⟩ := reshard_blocks wellFormed noError
  rw [← visits] at placed
  obtain ⟨visit, isVisit, rfl⟩ := List.mem_map.mp placed
  obtain ⟨-, signature, opened, decided, final⟩ := reshard_reaches wellFormed isVisit
  rw [decision_of_exit (opened.kind_eq.trans isExit), Except.ok.injEq,
    opened.exitChanges_eq] at decided
  rw [final.exitChanges_eq, Signature.operands_after, ← decided]
  exact exitChanges_retargeted _

/-- **A function returns what it declares.** If a function verifies and the run goes through, the
body still ends in the return, which returns one value for each declared result. Each returned value
has the declared sharding, or both are fully replicated; where no sharding is declared, the returned
value is fully replicated in any case. -/
theorem reshard_returns_declared (name : String) (history : List Edit) (meshes : SymbolTable)
    (verified : (ofHistory name history).verify meshes = .ok ())
    (noError : ((ofHistory name history).reshard meshes).error = none) :
    let before := ofHistory name history
    let after := (before.reshard meshes).function
    ∃ terminator, before.terminator? = some terminator ∧ after.terminator? = some terminator ∧
      (after.operation terminator).operands.length = before.results.length ∧
      ∀ index value, (after.operation terminator).operands[index]? = some value →
        let returned := (after.tensor value).sharding
        let declared := before.resultSharding? index
        (returned = declared ∨ TensorSharding.IsFullyReplicated returned ∧
            TensorSharding.IsFullyReplicated declared) ∧
          (declared = none → TensorSharding.IsFullyReplicated returned) := by
  intro before after
  have wellFormed : before.WellFormed := wellFormed_ofHistory name history
  obtain ⟨terminator, verifies⟩ := verify_eq_ok_iff.mp verified
  have isTerminator := terminator?_eq_some_iff.mpr ⟨verifies.ends, verifies.is_exit⟩
  have placed : terminator ∈ before.body := by
    obtain ⟨front, body⟩ := verifies.ends
    exact body.symm ▸ List.mem_append_right front List.mem_cons_self
  refine ⟨terminator, isTerminator, terminator?_reshard wellFormed noError isTerminator, ?_, ?_⟩
  · obtain ⟨-, -, erased⟩ := reshard_erases wellFormed meshes
    have wired := congrArg List.length
      (erased.wired terminator ((wellFormed.mem_body_iff terminator).mp placed))
    have returned := congrArg List.length verifies.returned
    rw [List.length_map] at wired
    rw [List.length_map, List.length_map] at returned
    exact wired.trans returned
  · intro index value found returned declared
    have nothing : exitTarget? declared returned = none := by
      cases isTarget : exitTarget? declared returned with
      | none => rfl
      | some target =>
        have change : ⟨index, target⟩ ∈ exitChanges before.results
            (after.signature terminator).operands :=
          mem_exitChanges_iff.mpr ⟨after.tensor value, by
            rw [Function.signature, List.getElem?_map, found, Option.map_some], isTarget⟩
        rw [exitChanges_reshard wellFormed noError placed verifies.is_exit] at change
        exact absurd change List.not_mem_nil
    have outcome := exitTarget?_eq_none_iff.mp nothing
    refine ⟨outcome, fun undeclared => ?_⟩
    rcases outcome with same | ⟨replicated, -⟩
    · rw [same, undeclared]
      trivial
    · exact replicated

/-- The first result of the fork is returned as it is declared and once more without axes, the
second one is open without axes as nothing is declared for it, and the sum is brought to other
columns. -/
theorem fork_returns_declared :
    let before := ofHistory "main" forkHistory
    let after := (before.reshard squareMeshes).function
    after.terminator? = some ⟨2⟩ ∧
      (after.operation ⟨2⟩).operands.map (fun value => (after.tensor value).sharding) =
        [(closedMatrix [.whole "y"] []).sharding, (closedMatrix [] []).sharding,
          some (.fullyOpen "mesh" 2), (closedMatrix [] [.whole "y"]).sharding] ∧
      ∀ index value, (after.operation ⟨2⟩).operands[index]? = some value →
        (after.tensor value).sharding = before.resultSharding? index ∨
          TensorSharding.IsFullyReplicated (after.tensor value).sharding ∧
            TensorSharding.IsFullyReplicated (before.resultSharding? index) := by
  intro before after
  obtain ⟨terminator, isTerminator, stays, -, returned⟩ := reshard_returns_declared "main"
    forkHistory squareMeshes (by decide +kernel) (by decide +kernel)
  have known : before.terminator? = some ⟨2⟩ := by decide +kernel
  rw [known] at isTerminator
  cases isTerminator
  exact ⟨stays, by decide +kernel, fun index value found => (returned index value found).1⟩

end Function

end MeshSharding
