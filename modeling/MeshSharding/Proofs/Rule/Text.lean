import MeshSharding.Proofs.Rule.Regular
import MeshSharding.Proofs.Text.Legible

/-!
# Reading a rule off its text

The text of a rule shows the sizes of its factors, its reduction factors and
whether the user gave it, and it shows the factors of every dimension. The names
of the factors of a dimension stand one after the other with nothing between
them and are of any length, but each starts with a letter and has no other
letter, so it is seen where the next one starts (`legible_factorSymbol`).

**What the text does not show.** A dimension without factors is printed as
nothing. In a list of dimensions the commas still count it, but a tensor with
that one dimension is printed like a tensor without dimensions. Such mappings
look alike (`TensorMapping.shown`), and no others do: rules have the same text
exactly when they are the same up to this (`text_eq_text_iff`). The number of
dimensions of every tensor settles the rest (`eq_of_text_of_check`).
-/

set_option autoImplicit false

namespace MeshSharding

/-- The mapping of a tensor that has dimensions. -/
abbrev DimensionedMapping := { mapping : TensorMapping // mapping ≠ [] }

namespace TensorMapping

/-- What a mapping looks like in the text of a rule: without any dimensions it looks like one
dimension without factors. -/
def shown : TensorMapping → DimensionedMapping
  | [] => ⟨[[]], List.cons_ne_nil _ _⟩
  | dim :: dims => ⟨dim :: dims, List.cons_ne_nil _ _⟩

/-- Different mappings look alike only if one has no dimensions and the other has one dimension,
which has no factors. -/
theorem shown_eq_shown_iff {first second : TensorMapping} :
    first.shown = second.shown ↔
      first = second ∨ (first = [] ∧ second = [[]]) ∨ (first = [[]] ∧ second = []) := by
  cases first <;> cases second <;> simp [shown, eq_comm]

/-- Mappings with the same number of dimensions look alike only if they are the same. -/
theorem eq_of_shown_eq {first second : TensorMapping} (same : first.shown = second.shown)
    (sameRank : first.length = second.length) : first = second := by
  rcases shown_eq_shown_iff.mp same with same | ⟨rfl, rfl⟩ | ⟨rfl, rfl⟩
  · exact same
  · cases sameRank
  · cases sameRank

end TensorMapping

namespace FactorRule

/-! ## Factors -/

/-- The letters with which the names of factors start. -/
def factorLetters : List Char :=
  ['i', 'j', 'k', 'l', 'm', 'n', 'o', 'p', 'q', 'r', 's', 't', 'u', 'v', 'w', 'x', 'y', 'z']

/-- What ends the name of a factor: nothing that a name has behind its letter. -/
def EndsFactor (character : Char) : Prop :=
  character ≠ '_' ∧ character.isDigit = false

instance (character : Char) : Decidable (EndsFactor character) :=
  inferInstanceAs (Decidable (_ ∧ _))

/-- What holds of all letters, as is seen by trying them, holds of any letter. -/
theorem of_letter (Kind : Char → Prop) [DecidablePred Kind]
    (all : (factorLetters.all fun letter => decide (Kind letter)) = true) {character : Char}
    (isLetter : character ∈ factorLetters) : Kind character :=
  of_decide_eq_true (List.all_eq_true.mp all character isLetter)

theorem factorLetters_get_inj : ∀ first second : Fin factorLetters.length,
    factorLetters.get first = factorLetters.get second → first = second := by
  decide

/-- The first factors have a letter each. -/
theorem toList_factorSymbol_of_lt {factor : Nat} (lt : factor < 18) :
    (factorSymbol factor).toList = [factorLetters.get ⟨factor, lt⟩] := by
  have letters : ∀ index : Fin factorLetters.length,
      Char.ofNat ('i'.toNat + index) = factorLetters.get index := by decide
  rw [factorSymbol, if_pos lt, letters ⟨factor, lt⟩, String.toList_singleton]

/-- The others have the last letter and a number. -/
theorem toList_factorSymbol_of_le {factor : Nat} (le : 18 ≤ factor) :
    (factorSymbol factor).toList = 'z' :: '_' :: (toString (factor - 17)).toList := by
  rw [factorSymbol, if_neg (Nat.not_lt.mpr le), String.toList_append]
  rfl

theorem startsWith_factorSymbol (factor : Nat) :
    StartsWith (fun character => character ∈ factorLetters) (factorSymbol factor).toList := by
  by_cases lt : factor < 18
  · rw [toList_factorSymbol_of_lt lt]
    exact .cons (List.get_mem _ _)
  · rw [toList_factorSymbol_of_le (Nat.not_lt.mp lt)]
    exact .cons (by decide)

/-- The names of factors are legible before anything but an underscore or a digit. -/
theorem legible_factorSymbol : Legible factorSymbol (StartsWith EndsFactor) := by
  have notNumbered : ∀ {letter : Char} {rest rest' : List Char}, StartsWith EndsFactor rest →
      letter :: rest ≠ 'z' :: '_' :: rest' := by
    intro letter rest rest' follows same
    rw [List.tail_eq_of_cons_eq same, startsWith_cons] at follows
    exact follows.1 rfl
  intro first second rest rest' follows follows' same
  by_cases lt : first < 18
  · rw [toList_factorSymbol_of_lt lt] at same
    by_cases lt' : second < 18
    · rw [toList_factorSymbol_of_lt lt'] at same
      have sameFactor := factorLetters_get_inj _ _ (List.head_eq_of_cons_eq same)
      exact ⟨congrArg Fin.val sameFactor, List.tail_eq_of_cons_eq same⟩
    · rw [toList_factorSymbol_of_le (Nat.not_lt.mp lt')] at same
      exact absurd same (notNumbered follows)
  · have le := Nat.not_lt.mp lt
    rw [toList_factorSymbol_of_le le] at same
    by_cases lt' : second < 18
    · rw [toList_factorSymbol_of_lt lt'] at same
      exact absurd same.symm (notNumbered follows')
    · have le' := Nat.not_lt.mp lt'
      rw [toList_factorSymbol_of_le le'] at same
      simp only [List.cons_append, List.cons.injEq, true_and] at same
      obtain ⟨sameNumber, sameRest⟩ := legible_toString (follows.mono fun _ ends => ends.2)
        (follows'.mono fun _ ends => ends.2) same
      exact ⟨by omega, sameRest⟩

/-! ## Dimensions and tensors -/

theorem toList_dimText_cons_append (factor : Nat) (others : DimMapping) (rest : List Char) :
    (dimText (factor :: others)).toList ++ rest =
      (factorSymbol factor).toList ++ ((dimText others).toList ++ rest) := by
  rw [dimText, String.toList_append, List.append_assoc]

theorem startsWith_dimText_append (dim : DimMapping) {rest : List Char}
    (follows : StartsWith (EndsItem ']') rest) :
    StartsWith (fun character => character ∈ factorLetters ∨ EndsItem ']' character)
      ((dimText dim).toList ++ rest) := by
  cases dim with
  | nil => exact follows.mono fun _ => .inr
  | cons factor others =>
    rw [toList_dimText_cons_append]
    exact ((startsWith_factorSymbol factor).append _).mono fun _ => .inl

/-- Dimensions are legible in a list, whose brackets and commas are no letters. -/
theorem legible_dimText : Legible dimText (StartsWith (EndsItem ']')) := by
  have notFactor : ∀ {factor : Nat} {rest rest' : List Char}, StartsWith (EndsItem ']') rest →
      rest ≠ (factorSymbol factor).toList ++ rest' := by
    intro factor rest rest' follows same
    obtain ⟨letter, behind, isStart, isLetter⟩ := (startsWith_factorSymbol factor).append rest'
    rw [same, isStart, startsWith_cons] at follows
    rcases follows with rfl | rfl <;> revert isLetter <;> decide
  have endsFactor : ∀ character, character ∈ factorLetters ∨ EndsItem ']' character →
      EndsFactor character := by
    rintro character (isLetter | rfl | rfl)
    · exact of_letter EndsFactor (by decide) isLetter
    · decide
    · decide
  intro first
  induction first with
  | nil =>
    intro second rest rest' follows follows' same
    cases second with
    | nil => exact ⟨rfl, same⟩
    | cons factor others =>
      rw [toList_dimText_cons_append] at same
      exact absurd same (notFactor follows)
  | cons factor others ih =>
    intro second rest rest' follows follows' same
    cases second with
    | nil =>
      rw [toList_dimText_cons_append] at same
      exact absurd same.symm (notFactor follows')
    | cons factor' others' =>
      rw [toList_dimText_cons_append, toList_dimText_cons_append] at same
      obtain ⟨rfl, sameOthers⟩ := legible_factorSymbol
        ((startsWith_dimText_append others follows).mono endsFactor)
        ((startsWith_dimText_append others' follows').mono endsFactor) same
      obtain ⟨rfl, sameRest⟩ := ih follows follows' sameOthers
      exact ⟨rfl, sameRest⟩

/-- Mappings of tensors with dimensions are legible before any text: between their brackets there
is a dimension at least, so nothing between them is a dimension without factors. -/
theorem legible_dimensionedMapping :
    Legible (fun mapping : DimensionedMapping => bracketed (mapping.val.map dimText)) AnyText := by
  intro first second rest rest' _ _ same
  rw [toList_bracketed_append, toList_bracketed_append, List.cons.injEq] at same
  obtain ⟨sameMapping, sameRest⟩ := commaSeparated_append_inj (by decide) legible_dimText
    (iff_of_false first.property second.property) same.2
  exact ⟨Subtype.ext sameMapping, sameRest⟩

theorem bracketed_shown (mapping : TensorMapping) :
    bracketed (mapping.shown.val.map dimText) = bracketed (mapping.map dimText) := by
  cases mapping <;> rfl

theorem toList_mappingsText_append (mappings : List TensorMapping) (rest : List Char) :
    (mappingsText mappings).toList ++ rest = '(' :: ((commaSeparated
      ((mappings.map TensorMapping.shown).map fun mapping =>
        bracketed (mapping.val.map dimText))).toList ++ ')' :: rest) := by
  simp [mappingsText, Function.comp_def, bracketed_shown]

/-- What the mappings of the operands or of the results look like can be told from what is behind
them. -/
theorem mappingsText_append_inj {first second : List TensorMapping} {rest rest' : List Char}
    (same : (mappingsText first).toList ++ rest = (mappingsText second).toList ++ rest') :
    first.map TensorMapping.shown = second.map TensorMapping.shown ∧ rest = rest' := by
  rw [toList_mappingsText_append, toList_mappingsText_append, List.cons.injEq] at same
  refine commaSeparated_append_inj_of_starts (by decide)
    (legible_dimensionedMapping.mono fun _ _ => trivial) (fun mapping => ?_) same.2
  rw [← List.append_nil (bracketed _).toList, toList_bracketed_append]
  exact .cons (by decide)

/-! ## Sizes and reduction factors -/

/-- What ends an item between braces ends the name of a factor. -/
theorem endsFactor_of_endsItem (character : Char) (ends : EndsItem '\x7d' character) :
    EndsFactor character := by
  rcases ends with rfl | rfl <;> decide

theorem ne_brace_of_letter (character : Char) (isLetter : character ∈ factorLetters) :
    character ≠ '\x7d' :=
  of_letter (fun letter => letter ≠ '\x7d') (by decide) isLetter

/-- The text of a factor and its size. -/
def sizeText (entry : Nat × Nat) : String :=
  factorSymbol entry.2 ++ "=" ++ toString entry.1

theorem toList_sizeText_append (entry : Nat × Nat) (rest : List Char) :
    (sizeText entry).toList ++ rest =
      (factorSymbol entry.2).toList ++ '=' :: ((toString entry.1).toList ++ rest) := by
  simp [sizeText]

/-- Factors with their sizes are legible before anything but a digit. -/
theorem legible_sizeText :
    Legible sizeText (StartsWith fun character => character.isDigit = false) := by
  intro first second rest rest' follows follows' same
  rw [toList_sizeText_append, toList_sizeText_append] at same
  obtain ⟨sameFactor, sameBehind⟩ :=
    legible_factorSymbol (.cons (by decide)) (.cons (by decide)) same
  obtain ⟨sameSize, sameRest⟩ :=
    legible_toString follows follows' (List.tail_eq_of_cons_eq sameBehind)
  exact ⟨Prod.ext sameSize sameFactor, sameRest⟩

/-- The sizes of the factors, in the order of the factors. -/
def sizesText (sizes : List Nat) : String :=
  braced (sizes.zipIdx.map sizeText)

theorem sizesText_eq (sizes : List Nat) :
    sizesText sizes = braced (sizes.zipIdx.map fun entry =>
      factorSymbol entry.2 ++ "=" ++ toString entry.1) :=
  rfl

/-- Lists of sizes are legible before any text. -/
theorem legible_sizesText : Legible sizesText AnyText := by
  have legibleEntries :
      Legible (fun entries : List (Nat × Nat) => braced (entries.map sizeText)) AnyText := by
    refine (legible_sizeText.mono fun _ starts => starts.mono fun character ends =>
      (endsFactor_of_endsItem character ends).2).braced fun entry => ?_
    rw [← List.append_nil (sizeText entry).toList, toList_sizeText_append]
    exact ((startsWith_factorSymbol entry.2).append _).mono ne_brace_of_letter
  refine legibleEntries.comp fun first second same => ?_
  have sameSizes := congrArg (List.map Prod.fst) same
  rwa [List.zipIdx_map_fst, List.zipIdx_map_fst] at sameSizes

/-- What is behind the reduction factors. -/
def ruleEnd (isCustom : Bool) : List Char :=
  (if isCustom then ", custom" else "").toList ++ ['>']

theorem ruleEnd_injective {first second : Bool} (same : ruleEnd first = ruleEnd second) :
    first = second := by
  revert first second
  decide

theorem toList_reductionText_cons (factor : Nat) (others : List Nat) :
    (reductionText (factor :: others)).toList = ", reduction=".toList ++
      (braced ((factor :: others).map factorSymbol)).toList := by
  simp [reductionText]

/-- The list of reduction factors is legible before the end of a rule. -/
theorem legible_reductionText :
    Legible reductionText fun rest => ∃ isCustom, rest = ruleEnd isCustom := by
  have legibleFactors :
      Legible (fun factors : List Nat => braced (factors.map factorSymbol)) AnyText :=
    (legible_factorSymbol.mono fun _ starts => starts.mono endsFactor_of_endsItem).braced
      fun factor => (startsWith_factorSymbol factor).mono ne_brace_of_letter
  refine legibleFactors.headed rfl toList_reductionText_cons ?_
  rintro _ behind ⟨isCustom, rfl⟩ same
  cases isCustom <;> simp [ruleEnd] at same

/-! ## Rules -/

/-- The text of a rule, part by part. -/
theorem toList_text (rule : FactorRule) :
    rule.text.toList = "#sdy.op_sharding_rule<".toList ++ ((mappingsText rule.operands).toList ++
      '-' :: '>' :: ((mappingsText rule.results).toList ++
        ' ' :: ((sizesText rule.sizes).toList ++
          ((reductionText rule.reduction).toList ++ ruleEnd rule.isCustom)))) := by
  unfold text ruleEnd
  rw [← sizesText_eq]
  simp only [String.toList_append, List.append_assoc]
  simp

/-- Two rules differ at most in mappings that look alike. -/
structure LooksLike (first second : FactorRule) : Prop where
  sizes : first.sizes = second.sizes
  operands : first.operands.map TensorMapping.shown = second.operands.map TensorMapping.shown
  results : first.results.map TensorMapping.shown = second.results.map TensorMapping.shown
  reduction : first.reduction = second.reduction
  isCustom : first.isCustom = second.isCustom

theorem looksLike_of_text_eq {first second : FactorRule} (sameText : first.text = second.text) :
    first.LooksLike second := by
  have same := congrArg String.toList sameText
  rw [toList_text, toList_text] at same
  obtain ⟨sameOperands, same⟩ := mappingsText_append_inj (List.append_cancel_left same)
  simp only [List.cons.injEq, true_and] at same
  obtain ⟨sameResults, same⟩ := mappingsText_append_inj same
  obtain ⟨sameSizes, same⟩ := legible_sizesText trivial trivial (List.tail_eq_of_cons_eq same)
  obtain ⟨sameReduction, same⟩ := legible_reductionText ⟨_, rfl⟩ ⟨_, rfl⟩ same
  exact ⟨sameSizes, sameOperands, sameResults, sameReduction, ruleEnd_injective same⟩

/-- Mappings that look alike one by one and have the same ranks are the same. -/
theorem mappings_eq_of_shown {first second : List TensorMapping}
    (same : first.map TensorMapping.shown = second.map TensorMapping.shown)
    (sameRanks : first.map List.length = second.map List.length) : first = second := by
  induction first generalizing second with
  | nil => exact (List.map_eq_nil_iff.mp same.symm).symm
  | cons mapping others ih =>
    cases second with
    | nil => cases same
    | cons mapping' others' =>
      rw [List.map_cons, List.map_cons, List.cons.injEq] at same sameRanks
      rw [TensorMapping.eq_of_shown_eq same.1 sameRanks.1, ih same.2 sameRanks.2]

/-- Rules for operations with operands and results of the same ranks have the same text only if they
are the same. -/
theorem eq_of_text_of_check {first second : FactorRule} {operandRanks resultRanks : List Nat}
    (suits : first.check operandRanks resultRanks = .ok ())
    (suits' : second.check operandRanks resultRanks = .ok ())
    (sameText : first.text = second.text) : first = second := by
  obtain ⟨sizes, operands, results, reduction, isCustom⟩ := looksLike_of_text_eq sameText
  obtain ⟨operandRanks, resultRanks⟩ := check_eq_ok_iff.mp suits
  obtain ⟨operandRanks', resultRanks'⟩ := check_eq_ok_iff.mp suits'
  have operands := mappings_eq_of_shown operands (operandRanks.trans operandRanks'.symm)
  have results := mappings_eq_of_shown results (resultRanks.trans resultRanks'.symm)
  cases first
  cases second
  cases sizes
  cases operands
  cases results
  cases reduction
  cases isCustom
  rfl

/-- **The text of a rule determines it up to what looks alike.** Two rules have the same text exactly
when their factors have the same sizes, they have the same reduction factors, both or neither are
given by the user, and the mappings of their operands and results look the same one by one. So all
that the text leaves open is, where it has an empty pair of brackets, whether a tensor has no
dimensions or one dimension without factors. -/
theorem text_eq_text_iff (first second : FactorRule) :
    first.text = second.text ↔ first.LooksLike second := by
  refine ⟨looksLike_of_text_eq, fun alike => ?_⟩
  rw [← String.toList_inj, toList_text, toList_text, toList_mappingsText_append,
    toList_mappingsText_append, toList_mappingsText_append, toList_mappingsText_append, alike.sizes,
    alike.operands, alike.results, alike.reduction, alike.isCustom]

/-- A vector is combined with a scalar or with another vector whose only dimension has no factors.
The rules are not the same, each suits one of the operations only, and they have the same text. -/
theorem scalar_looks_unmapped :
    ∃ scalar vector : FactorRule,
      ofMappings [6] [[[0]], []] [[[0]]] = .ok scalar ∧
      ofMappings [6] [[[0]], [[]]] [[[0]]] = .ok vector ∧
      scalar.check [1, 0] [1] = .ok () ∧ vector.check [1, 1] [1] = .ok () ∧
      scalar ≠ vector ∧ scalar.text = vector.text ∧
      scalar.text = "#sdy.op_sharding_rule<([i], [])->([i]) \x7bi=6\x7d>" := by
  refine ⟨_, _, rfl, rfl, rfl, rfl, ?_, ?_, ?_⟩
  · intro same
    exact absurd (congrArg FactorRule.operands same) (by decide)
  · rfl
  · rfl

end FactorRule

end MeshSharding
