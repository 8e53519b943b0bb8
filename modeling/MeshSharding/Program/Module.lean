import MeshSharding.Program.History

/-!
# Modules and their verification

A symbol table lists meshes under distinct names in the order of declaration. An
at sign at the start of a name does not belong to it, neither when a mesh is
declared nor when it is looked up. A module holds such meshes and functions.
Functions are found by name, and names of functions that are added must be new.

A function verifies against the declared meshes when its body ends with its only
return, every operand is an argument or a result of an earlier operation, the
returned values are as many and of the types that the function declares, and
every sharding of a value or of a declared result suits the mesh it names. The
checks are made in this order and the first that fails is reported.
-/

set_option autoImplicit false

namespace MeshSharding

/-! ## Symbol tables -/

/-- A name without the at sign it starts with, if it starts with one. -/
def bareName (name : String) : String :=
  String.ofList (withoutAtSign name.toList)

/-- Meshes under distinct names. -/
structure SymbolTable where
  entries : List (String × Mesh)
  names_nodup : (entries.map Prod.fst).Nodup

namespace SymbolTable

/-- A table without meshes. -/
def empty : SymbolTable := ⟨[], List.nodup_nil⟩

/-- The mesh of a name. -/
def mesh? (table : SymbolTable) (name : String) : Option Mesh :=
  table.entries.lookup (bareName name)

/-- The table with one more mesh, whose name must be new. -/
def insert (table : SymbolTable) (name : String) (mesh : Mesh) :
    Except ProgramError SymbolTable :=
  if fresh : bareName name ∈ table.entries.map Prod.fst then
    .error (.repeatedMesh (bareName name))
  else .ok
    { entries := table.entries ++ [(bareName name, mesh)]
      names_nodup := by
        rw [List.map_append, List.nodup_append]
        refine ⟨table.names_nodup, by simp, fun earlier member later last same => fresh ?_⟩
        simp only [List.map_cons, List.map_nil, List.mem_singleton] at last
        exact last ▸ same ▸ member }

end SymbolTable

/-! ## Modules -/

/-- Declared meshes, and functions in order. -/
structure Module where
  meshes : SymbolTable
  functions : List Function

namespace Module

/-- A module without meshes and functions. -/
def empty : Module := ⟨.empty, []⟩

/-- The function of a name. -/
def function? (module : Module) (name : String) : Option Function :=
  module.functions.find? fun function => function.name == name

/-- The module with one more function, whose name must be new. -/
def addFunction (module : Module) (function : Function) : Except ProgramError Module :=
  if (module.function? function.name).isSome then .error (.repeatedFunction function.name)
  else .ok { module with functions := module.functions ++ [function] }

/-- The module with another function in place of the one of the same name. -/
def replaceFunction (module : Module) (function : Function) : Module :=
  { module with functions := module.functions.map fun other =>
      if other.name = function.name then function else other }

end Module

/-! ## Verification -/

/-- Accepts a tensor without a sharding, or with one that suits a declared mesh. -/
def Tensor.check (meshes : SymbolTable) (tensor : Tensor) : Except ProgramError Unit :=
  match tensor.sharding with
  | none => .ok ()
  | some sharding =>
    match meshes.mesh? sharding.mesh with
    | none => .error (.unknownMesh sharding)
    | some mesh =>
      match sharding.check mesh tensor.rank with
      | .error cause => .error (.invalidSharding sharding cause)
      | .ok () => .ok ()

/-- Accepts tensors in order. -/
def checkTensors (meshes : SymbolTable) : List Tensor → Except ProgramError Unit
  | [] => .ok ()
  | tensor :: rest => do
    tensor.check meshes
    checkTensors meshes rest

namespace Function

/-- Accepts a body of which only the given operation is a return, and whose operands are defined,
before it or earlier in it. -/
def checkBody (function : Function) (terminator : OperationId) (defined : List ValueId) :
    List OperationId → Except ProgramError Unit
  | [] => .ok ()
  | operation :: rest =>
    let visited := function.operation operation
    if visited.kind = .exit ∧ operation ≠ terminator then
      .error (.misplacedTerminator operation function.name)
    else
      match visited.operands.find? fun operand => decide (operand ∉ defined) with
      | some operand => .error (.useBeforeDefinition operand operation)
      | none => function.checkBody terminator (defined ++ visited.results) rest

/-- Accepts returned values of the declared types, from the given position on. -/
def checkResultTypes (function : Function) (index : Nat) :
    List ValueId → List Tensor → Except ProgramError Unit
  | value :: values, declared :: results =>
    let actual := (function.tensor value).type
    if actual = declared.type then function.checkResultTypes (index + 1) values results
    else .error (.resultType function.name index declared.type actual)
  | _, _ => .ok ()

/-- Accepts returned values as many and of the types that the function declares. -/
def checkReturned (function : Function) (returned : List ValueId) : Except ProgramError Unit :=
  if returned.length = function.results.length then
    function.checkResultTypes 0 returned function.results
  else .error (.resultCount function.name function.results.length returned.length)

/-- Accepts a function that is well formed over the declared meshes. -/
def verify (function : Function) (meshes : SymbolTable) : Except ProgramError Unit :=
  match function.terminator? with
  | none => .error (.missingTerminator function.name)
  | some terminator => do
    function.checkBody terminator function.arguments function.body
    function.checkReturned (function.operation terminator).operands
    checkTensors meshes (function.values.map Value.tensor)
    checkTensors meshes function.results

end Function

/-- Accepts functions in order. -/
def verifyAll (meshes : SymbolTable) : List Function → Except ProgramError Unit
  | [] => .ok ()
  | function :: rest => do
    function.verify meshes
    verifyAll meshes rest

/-- Accepts a module whose functions all verify. -/
def Module.verify (module : Module) : Except ProgramError Unit :=
  verifyAll module.meshes module.functions

end MeshSharding
