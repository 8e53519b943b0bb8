import MeshSharding.Sharding.Basic

/-!
# Factor rules

A factor rule says how the dimensions of the operands and results of an
operation correspond. Every dimension is mapped to a list of factors, major to
minor, and dimensions that share a factor are to be sharded alike along it. The
factors of a rule are numbered from zero and each has a size. That every factor
that occurs in a rule is one of its factors is part of the type; the functions
that build rules from data check it (`FactorRule.ofMappings`,
`FactorRule.withReduction`).

In the text of a rule a factor is a letter, and a dimension is the letters of
its factors one after the other.
-/

set_option autoImplicit false

namespace MeshSharding

/-- The factors of a dimension, major to minor. -/
abbrev DimMapping := List Nat

/-- The factors of every dimension of a tensor. -/
abbrev TensorMapping := List DimMapping

namespace TensorMapping

/-- Every dimension mapped to one factor. -/
def ofFactors (factors : List Nat) : TensorMapping :=
  factors.map fun factor => [factor]

/-- The factors of all dimensions, dimension by dimension. -/
def factors (mapping : TensorMapping) : List Nat :=
  mapping.flatten

end TensorMapping

/-- Which side of an operation a tensor is on. -/
inductive TensorSide where
  | operand
  | result
  deriving DecidableEq

/-- The word for a side. -/
def TensorSide.text : TensorSide → String
  | .operand => "operand"
  | .result => "result"

/-- Why data does not make a rule, or a rule does not suit an operation. -/
inductive RuleError where
  /-- A factor is not among those that the rule declares. -/
  | undeclaredFactor (factor factorCount : Nat)
  /-- The operation has another number of operands or results. -/
  | mappingCount (side : TensorSide) (expected actual : Nat)
  /-- A tensor has another number of dimensions than its mapping. -/
  | rank (found expected : Nat)
  deriving DecidableEq

/-- The text of a rule error. -/
def RuleError.message : RuleError → String
  | .undeclaredFactor factor factorCount =>
    "sharding rule references factor #" ++ toString factor ++ ", but only " ++
      toString factorCount ++ " factor(s) are declared"
  | .mappingCount side expected actual =>
    "sharding rule has " ++ toString actual ++ " " ++ side.text ++
      " mapping(s), but the operation has " ++ toString expected
  | .rank found expected => rankMismatchText found expected

/-- Sizes of factors, and the factors of every dimension of every operand and result. -/
structure FactorRule where
  sizes : List Nat
  operands : List TensorMapping
  results : List TensorMapping
  reduction : List Nat
  isCustom : Bool
  mapped_lt : ∀ mapping ∈ operands ++ results, ∀ factor ∈ mapping.factors, factor < sizes.length
  reduction_lt : ∀ factor ∈ reduction, factor < sizes.length
  deriving DecidableEq

namespace FactorRule

/-- The number of factors. -/
def factorCount (rule : FactorRule) : Nat :=
  rule.sizes.length

/-- The first number in a list that is not below a bound. -/
def firstUndeclared? (bound : Nat) (factors : List Nat) : Option Nat :=
  factors.find? fun factor => decide (bound ≤ factor)

/-- No number is found exactly when all are below the bound. -/
theorem firstUndeclared?_eq_none_iff (bound : Nat) (factors : List Nat) :
    firstUndeclared? bound factors = none ↔ ∀ factor ∈ factors, factor < bound := by
  simp [firstUndeclared?]

/-- A rule from the sizes of its factors and its mappings, without reduction factors. -/
def ofMappings (sizes : List Nat) (operands results : List TensorMapping) :
    Except RuleError FactorRule :=
  match undeclared : firstUndeclared? sizes.length ((operands ++ results).flatMap
      TensorMapping.factors) with
  | some factor => .error (.undeclaredFactor factor sizes.length)
  | none => .ok
      { sizes, operands, results
        reduction := []
        isCustom := false
        mapped_lt := fun mapping member factor factorMember =>
          (firstUndeclared?_eq_none_iff _ _).mp undeclared factor
            (List.mem_flatMap.mpr ⟨mapping, member, factorMember⟩)
        reduction_lt := fun _ member => nomatch member }

/-- The rule with the given reduction factors. -/
def withReduction (rule : FactorRule) (reduction : List Nat) : Except RuleError FactorRule :=
  match undeclared : firstUndeclared? rule.sizes.length reduction with
  | some factor => .error (.undeclaredFactor factor rule.sizes.length)
  | none => .ok
      { rule with
        reduction
        reduction_lt := (firstUndeclared?_eq_none_iff _ _).mp undeclared }

/-- The rule, marked as given by the user or not. -/
def withCustom (rule : FactorRule) (isCustom : Bool) : FactorRule :=
  { rule with isCustom }

/-! ## Suiting an operation -/

/-- Accepts mappings of as many tensors as there are ranks. -/
def checkCount (side : TensorSide) (mappings : List TensorMapping) (ranks : List Nat) :
    Except RuleError Unit :=
  if mappings.length = ranks.length then .ok ()
  else .error (.mappingCount side ranks.length mappings.length)

/-- Accepts mappings of the given ranks, pairwise in order. -/
def checkRanks : List TensorMapping → List Nat → Except RuleError Unit
  | mapping :: mappings, rank :: ranks =>
    if mapping.length = rank then checkRanks mappings ranks
    else .error (.rank mapping.length rank)
  | _, _ => .ok ()

/-- Accepts a rule with one mapping of the right rank for every operand, then for every result. -/
def check (rule : FactorRule) (operandRanks resultRanks : List Nat) : Except RuleError Unit := do
  checkCount .operand rule.operands operandRanks
  checkRanks rule.operands operandRanks
  checkCount .result rule.results resultRanks
  checkRanks rule.results resultRanks

/-! ## Text -/

/-- The name of a factor: the letters from i to z, then numbered names. -/
def factorSymbol (factor : Nat) : String :=
  if factor < 18 then String.singleton (Char.ofNat ('i'.toNat + factor))
  else "z_" ++ toString (factor - 17)

/-- The names of the factors of a dimension, without anything between them. -/
def dimText : DimMapping → String
  | [] => ""
  | factor :: rest => factorSymbol factor ++ dimText rest

/-- The mappings of the operands or of the results. -/
def mappingsText (mappings : List TensorMapping) : String :=
  "(" ++ commaSeparated (mappings.map fun mapping => bracketed (mapping.map dimText)) ++ ")"

/-- The part of the text that lists reduction factors, empty if there are none. -/
def reductionText : List Nat → String
  | [] => ""
  | factors => ", reduction=" ++ braced (factors.map factorSymbol)

/-- The text of a rule. -/
def text (rule : FactorRule) : String :=
  "#sdy.op_sharding_rule<" ++ mappingsText rule.operands ++ "->" ++ mappingsText rule.results ++
    " " ++ braced (rule.sizes.zipIdx.map fun entry =>
      factorSymbol entry.2 ++ "=" ++ toString entry.1) ++
    reductionText rule.reduction ++ (if rule.isCustom then ", custom" else "") ++ ">"

end FactorRule

end MeshSharding
