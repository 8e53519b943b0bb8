import MeshSharding.Reshard.Decision

/-!
# What is decided

The decision about an operation depends on its kind, its rule and the common
mesh of its tensors, in this order, and after that on its projection. For each
way to end there is a statement of what is decided then, and `decision_cases`
says that there are no other ways. In particular a revision is that of a
projection without overflow in which some factor is disputed
(`decision_revise_cases`).
-/

set_option autoImplicit false

namespace MeshSharding

variable {mesh : Mesh} {name : String} {meshes : SymbolTable} {declared : List Tensor}

/-! ## What a projection decides -/

section Cases

variable {rule : FactorRule} {results : List Tensor} {projection : Projection}

theorem Projection.decision_ne_exit (changes : List OperandChange) :
    projection.decision mesh name rule results ≠ .exit changes := by
  intro isExit
  unfold Projection.decision at isExit
  split at isExit
  · cases isExit
  · split at isExit
    · cases isExit
    · cases isExit

theorem Projection.decision_eq_revise_iff {revision : Revision} :
    projection.decision mesh name rule results = .revise revision ↔
      ¬ projection.Overflows ∧ ¬ projection.IsConsistent ∧
        revision = projection.revision mesh name rule results := by
  unfold Projection.decision
  by_cases overflows : projection.Overflows
  · simp [overflows]
  · by_cases consistent : projection.IsConsistent
    · simp [overflows, consistent]
    · simp [overflows, consistent, eq_comm]

end Cases

/-! ## What is decided about an operation -/

section Operation

variable {signature : Signature} {rule : FactorRule} {decision : Decision}

/-- The values that a return returns are brought to what is declared. -/
theorem decision_of_exit (isExit : signature.kind = .exit) :
    signature.decision meshes declared =
      .ok (.exit (exitChanges declared signature.operands)) :=
  if_pos isExit

/-- An operation without a rule is skipped. -/
theorem decision_of_noRule (notExit : signature.kind ≠ .exit) (noRule : signature.rule? = none) :
    signature.decision meshes declared = .ok (.skip .noRule) := by
  rw [Signature.decision, if_neg notExit, noRule]

/-- An operation with a rule but without a common mesh is skipped. -/
theorem decision_of_noMesh (notExit : signature.kind ≠ .exit)
    (isRule : signature.rule? = some rule) (noMesh : signature.mesh? = none) :
    signature.decision meshes declared = .ok (.skip .noCommonMesh) := by
  simp only [Signature.decision, if_neg notExit, isRule, noMesh]

/-- What is decided about an operation with a rule and a common mesh. -/
theorem decision_of_rule (notExit : signature.kind ≠ .exit) (isRule : signature.rule? = some rule)
    (isName : signature.mesh? = some name) :
    signature.decision meshes declared = .ok decision ↔ ∃ mesh projection,
      meshes.mesh? name = some mesh ∧ Projection.ofSignature mesh rule signature =
        .ok projection ∧ decision = projection.decision mesh name rule signature.results := by
  simp only [Signature.decision, if_neg notExit, isRule, isName]
  cases isMesh : meshes.mesh? name with
  | none => simp
  | some mesh =>
    cases isProjection : Projection.ofSignature mesh rule signature with
    | error cause => simp [isProjection]
    | ok projection => simp [isProjection, eq_comm]

/-- **What can have been decided, and why.** -/
theorem decision_cases (decided : signature.decision meshes declared = .ok decision) :
    (signature.kind = .exit ∧ decision = .exit (exitChanges declared signature.operands)) ∨
      signature.kind ≠ .exit ∧
        ((signature.rule? = none ∧ decision = .skip .noRule) ∨
          ∃ rule, signature.rule? = some rule ∧
            ((signature.mesh? = none ∧ decision = .skip .noCommonMesh) ∨
              ∃ name mesh projection, signature.mesh? = some name ∧
                meshes.mesh? name = some mesh ∧
                Projection.ofSignature mesh rule signature = .ok projection ∧
                decision = projection.decision mesh name rule signature.results)) := by
  by_cases isExit : signature.kind = .exit
  · rw [decision_of_exit isExit] at decided
    cases decided
    exact .inl ⟨isExit, rfl⟩
  · refine .inr ⟨isExit, ?_⟩
    cases isRule : signature.rule? with
    | none =>
      rw [decision_of_noRule isExit isRule] at decided
      cases decided
      exact .inl ⟨rfl, rfl⟩
    | some rule =>
      refine .inr ⟨rule, rfl, ?_⟩
      cases isName : signature.mesh? with
      | none =>
        rw [decision_of_noMesh isExit isRule isName] at decided
        cases decided
        exact .inl ⟨rfl, rfl⟩
      | some name =>
        obtain ⟨mesh, projection, isMesh, isProjection, same⟩ :=
          (decision_of_rule isExit isRule isName).mp decided
        exact .inr ⟨name, mesh, projection, rfl, isMesh, isProjection, same⟩

/-- An exit decision is about a return. -/
theorem kind_of_decision_exit {changes : List OperandChange}
    (decided : signature.decision meshes declared = .ok (.exit changes)) :
    signature.kind = .exit ∧ changes = exitChanges declared signature.operands := by
  rcases decision_cases decided with ⟨isExit, same⟩ | ⟨-, ⟨-, same⟩ | ⟨rule, -, ⟨-, same⟩ |
    ⟨name, mesh, projection, -, -, -, same⟩⟩⟩
  · cases same
    exact ⟨isExit, rfl⟩
  · cases same
  · cases same
  · exact absurd same.symm (Projection.decision_ne_exit changes)

/-- A revision is that of the projection of an operation with a rule and a common mesh, in which
nothing overflows and not all tensors agree. -/
theorem decision_revise_cases {revision : Revision}
    (decided : signature.decision meshes declared = .ok (.revise revision)) :
    ∃ rule name mesh projection, signature.kind ≠ .exit ∧ signature.rule? = some rule ∧
      signature.mesh? = some name ∧ meshes.mesh? name = some mesh ∧
      Projection.ofSignature mesh rule signature = .ok projection ∧ ¬ projection.Overflows ∧
      ¬ projection.IsConsistent ∧
      revision = projection.revision mesh name rule signature.results := by
  rcases decision_cases decided with ⟨-, same⟩ | ⟨notExit, ⟨-, same⟩ | ⟨rule, isRule, ⟨-, same⟩ |
    ⟨name, mesh, projection, isName, isMesh, isProjection, same⟩⟩⟩
  · cases same
  · cases same
  · cases same
  · exact ⟨rule, name, mesh, projection, notExit, isRule, isName, isMesh, isProjection,
      Projection.decision_eq_revise_iff.mp same.symm⟩

end Operation

end MeshSharding
