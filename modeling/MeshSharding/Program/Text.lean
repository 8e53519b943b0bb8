import MeshSharding.Program.Module

/-!
# Text of programs

A function is printed with a head, a line for every operation of its body and a
closing brace. Arguments are numbered among themselves; operations with results
are numbered in the order of the body, and the results of one that has several
carry a number of their own after a number sign. A module is printed with its
meshes and then its functions, indented. It has no text if a mesh name has no
symbol.
-/

set_option autoImplicit false

namespace MeshSharding

/-- The end of a tensor's text that shows its sharding, empty if it has none. -/
def shardingAttribute : Option TensorSharding → String
  | none => ""
  | some sharding => " " ++ braced ["sdy.sharding = " ++ sharding.text]

/-- A list of dimensions. -/
def dimensionsText (dimensions : List Nat) : String :=
  bracketed (dimensions.map toString)

/-- Texts ended by line breaks. -/
def linesText : List String → String
  | [] => ""
  | line :: rest => line ++ "\n" ++ linesText rest

namespace Function

/-! ## Names of values -/

/-- The names of the results of the operations of a body, the next of which has the given
number. -/
def resultNames (function : Function) (next : Nat) : List OperationId → List (ValueId × String)
  | [] => []
  | operation :: rest =>
    match (function.operation operation).results with
    | [] => function.resultNames next rest
    | [result] => (result, "%" ++ toString next) :: function.resultNames (next + 1) rest
    | results =>
      (results.zipIdx.map fun result =>
        (result.1, "%" ++ toString next ++ "#" ++ toString result.2)) ++
        function.resultNames (next + 1) rest

/-- The names of all values. -/
def valueNames (function : Function) : List (ValueId × String) :=
  (function.arguments.zipIdx.map fun argument =>
    (argument.1, "%arg" ++ toString argument.2)) ++ function.resultNames 0 function.body

/-- The name of a value among names. -/
def nameIn (names : List (ValueId × String)) (value : ValueId) : String :=
  (names.lookup value).getD "%<<UNKNOWN VALUE>>"

/-! ## Operations -/

/-- The types of values. -/
def typesText (function : Function) (values : List ValueId) : String :=
  commaSeparated (values.map fun value => (function.tensor value).type.text)

/-- The results of an operation, with an equality sign. -/
def resultsText (names : List (ValueId × String)) : List ValueId → String
  | [] => ""
  | [result] => nameIn names result ++ " = "
  | result :: rest =>
    String.ofList ((nameIn names result).toList.takeWhile (· ≠ '#')) ++ ":" ++
      toString (rest.length + 1) ++ " = "

/-- The sharding of a result in a list of which some member has one; a result without a sharding
is shown as fully open. -/
def listedSharding (mesh : String) (result : Tensor) : String :=
  (result.sharding.getD (.fullyOpen mesh result.rank)).shortText

/-- The shardings of the results of an operation, if one of them has any. -/
def resultShardingsText? (results : List Tensor) : Option String :=
  (results.findSome? Tensor.sharding).map fun first =>
    "#sdy.sharding_per_value<" ++ bracketed (results.map (listedSharding first.mesh)) ++ ">"

/-- The attributes of an operation between braces, empty if it has none. -/
def attributesText (signature : Signature) : String :=
  let shardings := (resultShardingsText? signature.results).map ("sdy.sharding = " ++ ·)
  let rule := signature.attached.map fun rule => "sdy.sharding_rule = " ++ rule.text
  match [shardings, rule].reduceOption with
  | [] => ""
  | attributes => " " ++ braced attributes

/-- The types of an operation: those of its results if it works element by element, otherwise
those of its operands and of its results. -/
def signatureText (kind : OperationKind) (resultCount : Nat) (operands results : String) :
    String :=
  if kind.isElementwise then " : " ++ results
  else if resultCount = 1 then " : (" ++ operands ++ ") -> " ++ results
  else " : (" ++ operands ++ ") -> (" ++ results ++ ")"

/-- What follows the name of an operation up to its attributes. -/
def argumentsText (kind : OperationKind) (operands : String) : String :=
  match kind with
  | .transpose permutation => " " ++ operands ++ ", dims = " ++ dimensionsText permutation
  | .dotGeneral numbers =>
    " " ++ operands ++
      (if numbers.lhsBatch = [] then ""
        else ", batching_dims = " ++ dimensionsText numbers.lhsBatch ++ " x " ++
          dimensionsText numbers.rhsBatch) ++
      ", contracting_dims = " ++ dimensionsText numbers.lhsContract ++ " x " ++
      dimensionsText numbers.rhsContract
  | .custom name => " @" ++ name ++ "(" ++ operands ++ ")"
  | _ => " " ++ operands

/-- The text of an operation. -/
def operationText (function : Function) (names : List (ValueId × String))
    (operation : OperationId) : String :=
  let printed := function.operation operation
  let signature := function.signature operation
  let operands := commaSeparated (printed.operands.map (nameIn names))
  let operandTypes := function.typesText printed.operands
  let resultTypes := function.typesText printed.results
  resultsText names printed.results ++ printed.kind.name ++
    match printed.kind with
    | .exit => if printed.operands = [] then "" else " " ++ operands ++ " : " ++ operandTypes
    | .reshard =>
      let target := match signature.results.head?.bind Tensor.sharding with
        | none => ""
        | some sharding => " " ++ sharding.shortText
      " " ++ operands ++ target ++ " : " ++ resultTypes
    | kind =>
      argumentsText kind operands ++ attributesText signature ++
        signatureText kind printed.results.length operandTypes resultTypes

/-! ## Functions -/

/-- The declared results of a function. -/
def declaredText : List Tensor → String
  | [⟨type, none⟩] => type.text
  | results =>
    "(" ++ commaSeparated (results.map fun result =>
      result.type.text ++ shardingAttribute result.sharding) ++ ")"

/-- An argument of a function. -/
def argumentText (function : Function) (names : List (ValueId × String)) (argument : ValueId) :
    String :=
  nameIn names argument ++ ": " ++ (function.tensor argument).type.text ++
    shardingAttribute (function.tensor argument).sharding

/-- The lines of a function. -/
def lines (function : Function) : List String :=
  let names := function.valueNames
  let head := "func.func @" ++ function.name ++ "(" ++
    commaSeparated (function.arguments.map (function.argumentText names)) ++ ") -> " ++
    declaredText function.results ++ " \x7b"
  head :: (function.body.map fun operation =>
    "  " ++ function.operationText names operation) ++ ["\x7d"]

/-- The text of a function. -/
def text (function : Function) : String :=
  linesText function.lines

end Function

/-- The text of a module. -/
def Module.text (module : Module) : Except SymbolError String := do
  let declarations ← module.meshes.entries.mapM fun entry => entry.2.declaration entry.1
  let inner := declarations ++ module.functions.flatMap Function.lines
  return linesText ("module \x7b" :: inner.map ("  " ++ ·) ++ ["\x7d"])

end MeshSharding
