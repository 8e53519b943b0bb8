import MeshSharding.Text.Basic

/-!
# Device meshes

A mesh is an ordered list of named axes. Names are non-empty and pairwise
distinct, and sizes are positive and fit into a machine word; these facts are
part of the types, so a mesh that exists needs no further check. `Mesh.ofPairs`
builds one from names and sizes: the axes are checked one by one, and only then
are they compared with each other.

Sizes are multiplied in machine words of 64 bits, without a check: a product that
needs more room loses what does not fit (`wordMul`).

A declaration introduces a mesh under a symbol, written after an at sign. The
symbol of a name is the name without blanks at its ends and without one leading
at sign; what remains must be non-empty and free of blanks.

The main statements say that a list of names is accepted exactly when it has no
repetition (`firstRepeatedAfter_eq_none_iff`) and that an axis that is found has
a positive size (`Mesh.axisSize?_pos`) that fits into a word (`Mesh.axisSize?_lt`).
-/

set_option autoImplicit false

namespace MeshSharding

/-! ## Machine words -/

/-- The product of two sizes as a machine word holds it. -/
def wordMul (first second : Nat) : Nat :=
  first * second % UInt64.size

/-- A product that fits into a word is held as it is. -/
theorem wordMul_eq {first second : Nat} (fits : first * second < UInt64.size) :
    wordMul first second = first * second :=
  Nat.mod_eq_of_lt fits

/-! ## Meshes -/

/-- A named axis of a mesh, with the number of devices along it. -/
structure MeshAxis where
  name : String
  size : Nat
  name_ne_empty : name ≠ ""
  size_pos : 0 < size
  size_lt : size < UInt64.size
  deriving DecidableEq

/-- Why names and sizes do not describe a mesh. -/
inductive MeshError where
  /-- An axis has no name. -/
  | emptyAxisName
  /-- An axis has no devices. -/
  | zeroAxisSize (axis : String)
  /-- Two axes have the same name. -/
  | repeatedAxisName (axis : String)
  deriving DecidableEq

/-- The text of a mesh error. -/
def MeshError.message : MeshError → String
  | .emptyAxisName => "mesh axis names must be non-empty"
  | .zeroAxisSize axis => "mesh axis '" ++ axis ++ "' must have size > 0"
  | .repeatedAxisName axis => "mesh axis '" ++ axis ++ "' appears more than once"

/-- An axis from its name and size, of which a machine word holds the last 64 bits. -/
def MeshAxis.ofPair (name : String) (size : Nat) : Except MeshError MeshAxis :=
  if named : name = "" then .error .emptyAxisName
  else if sized : size % UInt64.size = 0 then .error (.zeroAxisSize name)
  else .ok ⟨name, size % UInt64.size, named, Nat.pos_of_ne_zero sized,
    Nat.mod_lt _ (Nat.succ_pos _)⟩

/-- The first name that has occurred before, among `seen` or earlier in the list. -/
def firstRepeatedAfter (seen : List String) : List String → Option String
  | [] => none
  | name :: rest => if name ∈ seen then some name else firstRepeatedAfter (name :: seen) rest

/-- No name is repeated exactly when the names are distinct and all new. -/
theorem firstRepeatedAfter_eq_none_iff (seen names : List String) :
    firstRepeatedAfter seen names = none ↔ names.Nodup ∧ ∀ name ∈ names, name ∉ seen := by
  induction names generalizing seen with
  | nil => simp [firstRepeatedAfter]
  | cons name rest ih =>
    by_cases known : name ∈ seen
    · simp [firstRepeatedAfter, known]
    · simp only [firstRepeatedAfter, known, if_false, ih, List.nodup_cons, List.mem_cons,
        forall_eq_or_imp, not_or, not_false_eq_true, true_and]
      constructor
      · rintro ⟨distinct, fresh⟩
        exact ⟨⟨fun member => (fresh name member).1 rfl, distinct⟩,
          fun other member => (fresh other member).2⟩
      · rintro ⟨⟨absent, distinct⟩, fresh⟩
        exact ⟨distinct, fun other member =>
          ⟨fun same => absent (same ▸ member), fresh other member⟩⟩

/-- An ordered list of axes with distinct names. -/
structure Mesh where
  axes : List MeshAxis
  names_nodup : (axes.map MeshAxis.name).Nodup
  deriving DecidableEq

namespace Mesh

/-- A mesh from axes, refusing the first axis whose name an earlier one has. -/
def ofAxes (axes : List MeshAxis) : Except MeshError Mesh :=
  match repeated : firstRepeatedAfter [] (axes.map MeshAxis.name) with
  | some name => .error (.repeatedAxisName name)
  | none => .ok ⟨axes, ((firstRepeatedAfter_eq_none_iff _ _).mp repeated).1⟩

/-- A mesh from names and sizes. -/
def ofPairs (pairs : List (String × Nat)) : Except MeshError Mesh := do
  let axes ← pairs.mapM fun pair => MeshAxis.ofPair pair.1 pair.2
  ofAxes axes

/-- The position of the axis of a name. -/
def axisIndex? (mesh : Mesh) (name : String) : Option Nat :=
  mesh.axes.findIdx? fun axis => axis.name == name

/-- The size of the axis of a name. -/
def axisSize? (mesh : Mesh) (name : String) : Option Nat :=
  (mesh.axes.find? fun axis => axis.name == name).map MeshAxis.size

/-- An axis that is found has a positive size. -/
theorem axisSize?_pos {mesh : Mesh} {name : String} {size : Nat}
    (found : mesh.axisSize? name = some size) : 0 < size := by
  obtain ⟨axis, -, rfl⟩ := Option.map_eq_some_iff.mp found
  exact axis.size_pos

/-- An axis that is found has a size that fits into a word. -/
theorem axisSize?_lt {mesh : Mesh} {name : String} {size : Nat}
    (found : mesh.axisSize? name = some size) : size < UInt64.size := by
  obtain ⟨axis, -, rfl⟩ := Option.map_eq_some_iff.mp found
  exact axis.size_lt

/-- The text of a mesh: its axes with their sizes, in order. -/
def literal (mesh : Mesh) : String :=
  "<" ++ bracketed (mesh.axes.map fun axis => quoted axis.name ++ "=" ++ toString axis.size) ++ ">"

end Mesh

/-! ## Symbols -/

/-- Why a name has no symbol. -/
inductive SymbolError where
  /-- Nothing but blanks. -/
  | empty
  /-- What remains after the at sign is empty or holds a blank. -/
  | malformed (symbol : String)
  deriving DecidableEq

/-- The text of a symbol error. -/
def SymbolError.message : SymbolError → String
  | .empty => "mesh symbol names used in Shardy attributes must be non-empty"
  | .malformed symbol =>
    "invalid mesh symbol name '" ++ symbol ++ "' used in Shardy attributes"

/-- A text without the at sign it starts with, if it starts with one. -/
def withoutAtSign : List Char → List Char
  | '@' :: rest => rest
  | characters => characters

/-- The symbol of a mesh name. -/
def meshSymbol (name : String) : Except SymbolError String :=
  let trimmed := trimBlanks name.toList
  if trimmed = [] then .error .empty
  else
    let symbol := withoutAtSign trimmed
    if symbol = [] ∨ symbol.any isBlank then .error (.malformed (String.ofList symbol))
    else .ok (String.ofList symbol)

/-- The declaration of a mesh under a name. -/
def Mesh.declaration (mesh : Mesh) (name : String) : Except SymbolError String := do
  let symbol ← meshSymbol name
  return "sdy.mesh @" ++ symbol ++ " = " ++ mesh.literal

end MeshSharding
