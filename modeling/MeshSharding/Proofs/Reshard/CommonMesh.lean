import MeshSharding.Proofs.Program.Declarations
import MeshSharding.Proofs.Reshard.Consistency

/-!
# The common mesh of an operation

An operation is skipped for want of a common mesh if its tensors have no
shardings or have them on several meshes. Meshes are compared by name for that,
by the names as they stand in the shardings. But a declaration has two names, one
with an at sign in front of the other, and verification takes either. So an
operation whose tensors are all on one declared mesh is skipped as well if two of
them name it differently, and for no other reason (`Function.lacksMesh_iff`).
-/

set_option autoImplicit false

namespace MeshSharding

namespace Signature

variable {signature : Signature} {meshes : SymbolTable} {declared : List Tensor}

/-- The shardings that the tensors of the operation have. -/
def present (signature : Signature) : List TensorSharding :=
  signature.shardings.reduceOption

theorem mem_present_iff {sharding : TensorSharding} :
    sharding ∈ signature.present ↔ some sharding ∈ signature.shardings :=
  List.reduceOption_mem_iff

/-- Two of the shardings are on meshes that are declared apart. -/
def CrossesMeshes (meshes : SymbolTable) (signature : Signature) : Prop :=
  ∃ first ∈ signature.present, ∃ second ∈ signature.present,
    meshes.declaration? first.mesh ≠ meshes.declaration? second.mesh

instance : Decidable (signature.CrossesMeshes meshes) :=
  inferInstanceAs (Decidable (∃ first ∈ signature.present, ∃ second ∈ signature.present,
    meshes.declaration? first.mesh ≠ meshes.declaration? second.mesh))

/-- Two of the shardings are on one declared mesh, which one of them names by its bare name and the
other by that name after an at sign. -/
def RenamesMesh (meshes : SymbolTable) (signature : Signature) : Prop :=
  ∃ first ∈ signature.present, ∃ second ∈ signature.present,
    meshes.declaration? first.mesh = meshes.declaration? second.mesh ∧
      bareName first.mesh = first.mesh ∧ second.mesh = withAtSign first.mesh

instance : Decidable (signature.RenamesMesh meshes) :=
  inferInstanceAs (Decidable (∃ first ∈ signature.present, ∃ second ∈ signature.present,
    meshes.declaration? first.mesh = meshes.declaration? second.mesh ∧
      bareName first.mesh = first.mesh ∧ second.mesh = withAtSign first.mesh))

/-- There is no common mesh without shardings or with shardings that name their meshes differently,
and there is one otherwise. -/
theorem mesh?_eq_none_iff : signature.mesh? = none ↔
    signature.present = [] ∨
      ∃ first ∈ signature.present, ∃ second ∈ signature.present, first.mesh ≠ second.mesh := by
  constructor
  · intro noMesh
    cases isPresent : signature.present with
    | nil => exact .inl rfl
    | cons first rest =>
      have isFirst : first ∈ signature.present := isPresent ▸ List.mem_cons_self
      refine .inr ⟨first, List.mem_cons_self, Decidable.byContradiction fun noOther => ?_⟩
      have named : signature.mesh? = some first.mesh := by
        refine commonMesh?_eq_some_iff.mpr ⟨⟨first, mem_present_iff.mp isFirst⟩, ?_⟩
        intro sharding isSharding
        rw [← mem_present_iff, isPresent] at isSharding
        exact Decidable.byContradiction fun differ => noOther ⟨sharding, isSharding, Ne.symm differ⟩
      rw [noMesh] at named
      cases named
  · intro without
    cases found : signature.mesh? with
    | none => rfl
    | some name =>
      obtain ⟨⟨sharding, isSharding⟩, named⟩ := commonMesh?_eq_some_iff.mp found
      simp only [← mem_present_iff] at isSharding named
      rcases without with isEmpty | ⟨first, isFirst, second, isSecond, differ⟩
      · rw [isEmpty] at isSharding
        exact absurd isSharding List.not_mem_nil
      · exact absurd ((named first isFirst).trans (named second isSecond).symm) differ

/-- If all meshes are declared, names that differ are names of several declarations or the two names
of one. -/
theorem exists_differing_iff
    (known : ∀ sharding ∈ signature.present, ∃ mesh, meshes.mesh? sharding.mesh = some mesh) :
    (∃ first ∈ signature.present, ∃ second ∈ signature.present, first.mesh ≠ second.mesh) ↔
      signature.CrossesMeshes meshes ∨ signature.RenamesMesh meshes := by
  constructor
  · rintro ⟨first, isFirst, second, isSecond, differ⟩
    obtain ⟨mesh, found⟩ := known first isFirst
    obtain ⟨mesh', found'⟩ := known second isSecond
    by_cases same : meshes.declaration? first.mesh = meshes.declaration? second.mesh
    · have sameBare := (SymbolTable.declaration?_eq_iff found found').mp same
      rcases bareName_eq_iff.mp sameBare with sameName | ⟨isBare, isLonger⟩ | ⟨isBare, isLonger⟩
      · exact absurd sameName differ
      · exact .inr ⟨first, isFirst, second, isSecond, same, isBare, isLonger⟩
      · exact .inr ⟨second, isSecond, first, isFirst, same.symm, isBare, isLonger⟩
    · exact .inl ⟨first, isFirst, second, isSecond, same⟩
  · rintro (⟨first, isFirst, second, isSecond, differ⟩ |
      ⟨first, isFirst, second, isSecond, -, -, isLonger⟩)
    · exact ⟨first, isFirst, second, isSecond, fun same => differ (congrArg _ same)⟩
    · refine ⟨first, isFirst, second, isSecond, ?_⟩
      rw [isLonger]
      exact (withAtSign_ne _).symm

/-- An operation with a common mesh is not skipped for want of one. -/
theorem decision_ne_noCommonMesh {mesh : Mesh} {name : String} {rule : FactorRule}
    {results : List Tensor} {projection : Projection} :
    projection.decision mesh name rule results ≠ .skip .noCommonMesh := by
  unfold Projection.decision
  split
  · exact fun same => (nomatch same)
  · split <;> exact fun same => (nomatch same)

/-- The decision is to skip the operation for want of a common mesh exactly if it is no return, has a
rule and no common mesh. -/
theorem decision_eq_noCommonMesh_iff :
    signature.decision meshes declared = .ok (.skip .noCommonMesh) ↔
      signature.kind ≠ .exit ∧ signature.rule? ≠ none ∧ signature.mesh? = none := by
  constructor
  · intro decided
    rcases decision_cases decided with ⟨-, same⟩ | ⟨notExit, ⟨-, same⟩ | ⟨rule, isRule,
      ⟨noMesh, -⟩ | ⟨name, mesh, projection, -, -, -, same⟩⟩⟩
    · cases same
    · cases same
    · exact ⟨notExit, isRule ▸ Option.some_ne_none rule, noMesh⟩
    · exact absurd same.symm decision_ne_noCommonMesh
  · rintro ⟨notExit, hasRule, noMesh⟩
    obtain ⟨rule, isRule⟩ := Option.ne_none_iff_exists'.mp hasRule
    exact decision_of_noMesh notExit isRule noMesh

end Signature

namespace Function

/-- **Over a function that verifies all shardings are on declared meshes, and an operation has no
common mesh exactly if it has no shardings, has them on several declared meshes, or has them on one
mesh that two of them name differently.** If it is no return and has a rule it is then skipped for
want of a common mesh, and otherwise it is not. -/
theorem lacksMesh_iff (name : String) (history : List Edit) (meshes : SymbolTable)
    (verified : (ofHistory name history).verify meshes = .ok ()) (operation : OperationId) :
    let function := ofHistory name history
    let signature := function.signature operation
    (∀ sharding ∈ signature.present, ∃ mesh,
      meshes.declaration? sharding.mesh = some (bareName sharding.mesh, mesh)) ∧
      (signature.mesh? = none ↔ signature.present = [] ∨ signature.CrossesMeshes meshes ∨
        signature.RenamesMesh meshes) ∧
      (signature.decision meshes function.results = .ok (.skip .noCommonMesh) ↔
        signature.kind ≠ .exit ∧ signature.rule? ≠ none ∧ (signature.present = [] ∨
          signature.CrossesMeshes meshes ∨ signature.RenamesMesh meshes)) := by
  intro function signature
  obtain ⟨terminator, verifies⟩ := verify_eq_ok_iff.mp verified
  have known : ∀ sharding ∈ signature.present, ∃ mesh,
      meshes.mesh? sharding.mesh = some mesh := by
    intro sharding isPresent
    obtain ⟨tensor, isTensor, isSharding⟩ :=
      List.mem_map.mp (Signature.mem_present_iff.mp isPresent)
    obtain ⟨mesh, found, -⟩ := verifies.sound_signature (wellFormed_ofHistory name history)
      operation tensor isTensor sharding isSharding
    exact ⟨mesh, found⟩
  have noMesh : signature.mesh? = none ↔ signature.present = [] ∨
      signature.CrossesMeshes meshes ∨ signature.RenamesMesh meshes := by
    rw [Signature.mesh?_eq_none_iff, Signature.exists_differing_iff known]
  refine ⟨fun sharding isPresent => ?_, noMesh, ?_⟩
  · obtain ⟨mesh, found⟩ := known sharding isPresent
    exact ⟨mesh, SymbolTable.declaration?_of_mesh? found⟩
  · rw [Signature.decision_eq_noCommonMesh_iff, noMesh]

/-- All shardings of the product name the mesh alike, so that it is not skipped for want of one. -/
theorem product_not_skipped_for_mesh :
    ((ofHistory "main" productHistory).signature ⟨0⟩).decision squareMeshes
      (ofHistory "main" productHistory).results ≠ .ok (.skip .noCommonMesh) := by
  obtain ⟨-, -, skipped⟩ := lacksMesh_iff "main" productHistory squareMeshes product_verifies ⟨0⟩
  rw [Ne, skipped]
  decide +kernel

/-- A vector that keeps the axes of its dimension, on a mesh that the sharding names. -/
def closedVector (meshName : String) (axes : AxisSequence) : Tensor :=
  ⟨⟨[4], .f32⟩, some ⟨meshName, [⟨axes, true⟩], []⟩⟩

/-- A sum of vectors that are sharded differently on one mesh. The sharding of the second operand
names the mesh as given. -/
def spelledHistory (meshName : String) : List Edit :=
  [.addArgument (closedVector "mesh" [.whole "x"]),
    .addArgument (closedVector meshName []),
    .addResult (closedVector "mesh" [.whole "x"]),
    .append (.elementwise .add) [⟨0⟩, ⟨1⟩] [⟨[4], .f32⟩],
    .setSharding ⟨2⟩ (closedVector "mesh" [.whole "x"]).sharding,
    .append .exit [⟨2⟩] []]

/-- With an at sign in front the name of the mesh still refers to the one declaration of the table,
but the operation is skipped for want of a common mesh. Without it the operation is revised. -/
theorem renamed_mesh_skipped :
    let function := ofHistory "main" (spelledHistory "@mesh")
    let signature := function.signature ⟨0⟩
    SymbolTable.empty.insert "mesh" squareMesh = .ok squareMeshes ∧
      function.verify squareMeshes = .ok () ∧ signature.present.length = 3 ∧
      (∀ sharding ∈ signature.present,
        squareMeshes.declaration? sharding.mesh = some ("mesh", squareMesh)) ∧
      signature.mesh? = none ∧
      signature.decision squareMeshes function.results = .ok (.skip .noCommonMesh) ∧
      (function.reshard squareMeshes).tally.revised = 0 ∧
      ((ofHistory "main" (spelledHistory "mesh")).reshard squareMeshes).tally.revised = 1 := by
  refine ⟨rfl, ?_⟩
  decide +kernel

end Function

end MeshSharding
