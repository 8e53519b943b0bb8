import MeshSharding.Proofs.Program.Declarations
import MeshSharding.Sharding.Basic

/-!
# The symbol of a mesh where it is used

A mesh is declared under the symbol of its name. The attribute of a sharding
refers to the mesh by the name that the sharding gives, with quotes and
backslashes escaped. The name has a symbol, but not the symbol is printed.

So the two texts agree on what stands behind the at sign for some names only. A
table forgets one leading at sign of a name and a declaration forgets the blanks
around it and one more at sign, while the attribute forgets nothing and may add
backslashes. Nothing may be forgotten or added, then: the attribute refers to the
declared symbol exactly when the name is plain
(`SymbolTable.exists_symbol_iff_isPlain`).
-/

set_option autoImplicit false

namespace MeshSharding

/-! ## What is forgotten and what is added -/

theorem withoutAtSign_sublist (characters : List Char) :
    (withoutAtSign characters).Sublist characters := by
  rcases withoutAtSign_cases characters with isBare | isLonger
  · simp only [isBare, List.Sublist.refl]
  · have isLast := List.sublist_cons_self '@' (withoutAtSign characters)
    rwa [← isLonger] at isLast

theorem withoutAtSign_eq_self_iff {characters : List Char} :
    withoutAtSign characters = characters ↔ characters.head? ≠ some '@' := by
  rcases withoutAtSign_cases characters with isBare | isLonger
  · refine iff_of_true isBare fun isAtSign => ?_
    obtain ⟨rest, rfl⟩ := List.head?_eq_some_iff.mp isAtSign
    exact List.cons_ne_self _ _ isBare.symm
  · refine iff_of_false (fun isBare => ?_) ?_
    · exact List.cons_ne_self _ _ (isLonger.symm.trans isBare.symm)
    · rw [isLonger]
      exact not_not_intro rfl

theorem trimBlanks_sublist (characters : List Char) :
    (trimBlanks characters).Sublist characters := by
  have fromEnd : ((characters.dropWhile isBlank).reverse.dropWhile isBlank).reverse.Sublist
      (characters.dropWhile isBlank).reverse.reverse :=
    (List.dropWhile_sublist _).reverse
  rw [List.reverse_reverse] at fromEnd
  exact fromEnd.trans (List.dropWhile_sublist _)

theorem sublist_escapeChars (characters : List Char) :
    characters.Sublist (escapeChars characters) := by
  induction characters with
  | nil => exact .slnil
  | cons character rest ih =>
    have own : [character].Sublist (escapeChar character) := by
      unfold escapeChar
      split
      · exact List.sublist_cons_self _ _
      · exact .refl _
    exact own.append ih

/-- Escaping adds nothing to a text without quotes and backslashes, and something to any other. -/
theorem escapeChars_eq_self_iff {characters : List Char} :
    escapeChars characters = characters ↔
      ∀ character ∈ characters, character ≠ '\\' ∧ character ≠ '"' := by
  induction characters with
  | nil => exact iff_of_true rfl fun _ member => absurd member List.not_mem_nil
  | cons character rest ih =>
    rw [List.forall_mem_cons, ← ih, ← not_or]
    have isCons : escapeChars (character :: rest) = escapeChar character ++ escapeChars rest :=
      List.flatMap_cons
    rw [isCons, escapeChar]
    by_cases special : character = '\\' ∨ character = '"'
    · rw [if_pos special]
      refine iff_of_false (fun same => ?_) fun plain => plain.1 special
      have counts := congrArg List.length same
      have atLeast := (sublist_escapeChars rest).length_le
      simp only [List.length_append, List.length_cons, List.length_nil] at counts
      omega
    · rw [if_neg special, List.singleton_append, List.cons_inj_right]
      exact (and_iff_right special).symm

/-! ## Plain names -/

/-- The name has no leading at sign, and no blank, quote or backslash. -/
def IsPlain (name : String) : Prop :=
  name.toList.head? ≠ some '@' ∧
    ∀ character ∈ name.toList, isBlank character = false ∧ character ≠ '\\' ∧ character ≠ '"'

instance (name : String) : Decidable (IsPlain name) :=
  -- the characters of the name are tried, not all characters
  have := List.decidableBAll (fun character => isBlank character = false ∧ character ≠ '\\' ∧
    character ≠ '"') name.toList
  inferInstanceAs (Decidable (_ ∧ _))

/-- The symbol of a name is the name without the blanks around it and without an at sign in front
of what remains, and it has no blanks inside. -/
theorem toList_of_meshSymbol {name symbol : String} (isOk : meshSymbol name = .ok symbol) :
    symbol.toList = withoutAtSign (trimBlanks name.toList) ∧
      ∀ character ∈ symbol.toList, isBlank character = false := by
  simp only [meshSymbol] at isOk
  split at isOk
  · cases isOk
  · split at isOk
    · cases isOk
    · rename_i wellFormed
      cases isOk
      rw [String.toList_ofList]
      refine ⟨rfl, fun character member => ?_⟩
      exact Bool.eq_false_iff.mpr fun blank =>
        wellFormed (.inr (List.any_eq_true.mpr ⟨character, member, blank⟩))

/-- The symbol under which the mesh of a name is declared is the escaped name only if the name is
plain. -/
theorem escaped_eq_symbol_iff {name symbol : String}
    (isOk : meshSymbol (bareName name) = .ok symbol) : escaped name = symbol ↔ IsPlain name := by
  obtain ⟨isSymbol, solid⟩ := toList_of_meshSymbol isOk
  rw [toList_bareName] at isSymbol
  rw [← String.toList_inj, toList_escaped]
  constructor
  · intro same
    -- each text is contained in the next one, and the last one is the first one again
    have symbolInTrimmed := withoutAtSign_sublist (trimBlanks (withoutAtSign name.toList))
    have trimmedInBare := trimBlanks_sublist (withoutAtSign name.toList)
    have bareInName := withoutAtSign_sublist name.toList
    have nameInEscaped := sublist_escapeChars name.toList
    rw [← isSymbol, ← same] at symbolInTrimmed
    have isName : escapeChars name.toList = name.toList :=
      ((symbolInTrimmed.trans trimmedInBare).trans bareInName).eq_of_length_le
        nameInEscaped.length_le
    rw [isName] at symbolInTrimmed same
    have isBare : withoutAtSign name.toList = name.toList :=
      bareInName.eq_of_length_le (symbolInTrimmed.trans trimmedInBare).length_le
    rw [← same] at solid
    exact ⟨withoutAtSign_eq_self_iff.mp isBare, fun character member =>
      ⟨solid character member, escapeChars_eq_self_iff.mp isName character member⟩⟩
  · rintro ⟨noAtSign, plain⟩
    have isBare := withoutAtSign_eq_self_iff.mpr noAtSign
    rw [isSymbol, isBare, trimBlanks_eq_self fun character member => (plain character member).1,
      isBare, escapeChars_eq_self_iff.mpr fun character member => (plain character member).2]

/-! ## Attributes and declarations -/

/-- The attribute of a sharding with a given text behind the at sign. -/
def TensorSharding.attributeUnder (sharding : TensorSharding) (symbol : String) : String :=
  "#sdy.sharding" ++ ("<@" ++ symbol ++ ", " ++
    bracketed (sharding.dims.map DimSharding.text) ++ replicatedText sharding.replicated ++ ">")

/-- The declaration of a mesh with a given text behind the at sign. -/
def Mesh.declarationUnder (mesh : Mesh) (symbol : String) : String :=
  "sdy.mesh @" ++ symbol ++ " = " ++ mesh.literal

theorem TensorSharding.attributeText_eq_ok {sharding : TensorSharding} {text : String}
    (isOk : sharding.attributeText = .ok text) :
    text = sharding.attributeUnder (escaped sharding.mesh) := by
  rw [attributeText] at isOk
  cases symbolOk : meshSymbol sharding.mesh with
  | error cause =>
    rw [symbolOk] at isOk
    cases isOk
  | ok symbol =>
    rw [symbolOk] at isOk
    cases isOk
    rfl

theorem Mesh.declaration_eq_ok {mesh : Mesh} {name declaration : String}
    (isOk : mesh.declaration name = .ok declaration) :
    ∃ symbol, meshSymbol name = .ok symbol ∧ declaration = mesh.declarationUnder symbol := by
  rw [Mesh.declaration] at isOk
  cases symbolOk : meshSymbol name with
  | error cause =>
    rw [symbolOk] at isOk
    cases isOk
  | ok symbol =>
    rw [symbolOk] at isOk
    cases isOk
    exact ⟨symbol, rfl, rfl⟩

/-- What stands behind the at sign is seen in the attribute. -/
theorem TensorSharding.attributeUnder_inj {sharding : TensorSharding} {first second : String} :
    sharding.attributeUnder first = sharding.attributeUnder second ↔ first = second := by
  simp only [attributeUnder, String.append_right_inj, String.append_left_inj]

/-- What stands behind the at sign is seen in the declaration. -/
theorem Mesh.declarationUnder_inj {mesh : Mesh} {first second : String} :
    mesh.declarationUnder first = mesh.declarationUnder second ↔ first = second := by
  simp only [declarationUnder, String.append_right_inj, String.append_left_inj]

namespace SymbolTable

variable {meshes : SymbolTable} {name : String} {mesh : Mesh}

/-- The name of the declaration that a name refers to is the bare name. -/
theorem name_of_declaration? {used : String}
    (declared : meshes.declaration? used = some (name, mesh)) : name = bareName used := by
  have isName := List.find?_some declared
  exact (beq_iff_eq.mp isName).symm

/-- **The attribute of a sharding refers to a mesh by the symbol under which it is declared exactly
when the name that the sharding gives is plain.** The name is to refer to the declaration, and the
attribute and the declaration are to have texts. -/
theorem exists_symbol_iff_isPlain (meshes : SymbolTable) (sharding : TensorSharding)
    (name : String) (mesh : Mesh)
    (declared : meshes.declaration? sharding.mesh = some (name, mesh)) (text declaration : String)
    (isText : sharding.attributeText = .ok text)
    (isDeclaration : mesh.declaration name = .ok declaration) :
    (∃ symbol, text = sharding.attributeUnder symbol ∧
        declaration = mesh.declarationUnder symbol) ↔
      IsPlain sharding.mesh := by
  obtain ⟨declaredSymbol, isSymbol, rfl⟩ := Mesh.declaration_eq_ok isDeclaration
  rw [TensorSharding.attributeText_eq_ok isText]
  simp only [TensorSharding.attributeUnder_inj, Mesh.declarationUnder_inj]
  rw [name_of_declaration? declared] at isSymbol
  rw [← escaped_eq_symbol_iff isSymbol]
  constructor
  · rintro ⟨symbol, same, rfl⟩
    exact same
  · intro same
    exact ⟨_, rfl, same.symm⟩

/-- Stalls in a depot. -/
def depotMesh : Mesh where
  axes := [⟨"stall", 33, by decide, by decide, by decide⟩]
  names_nodup := by decide

/-- The depot under its name. -/
def depotTable : SymbolTable where
  entries := [("depot", depotMesh)]
  names_nodup := by decide

/-- A dimension along the stalls of the depot, which is given by a name. -/
def stallSharding (name : String) : TensorSharding where
  mesh := name
  dims := [⟨[.whole "stall"], true⟩]
  replicated := []

/-- The name under which the depot is declared is plain, and the attribute has the same symbol. -/
theorem depot_referred_to :
    ∃ symbol, "#sdy.sharding<@depot, [\x7b\"stall\"\x7d]>" =
        (stallSharding "depot").attributeUnder symbol ∧
      "sdy.mesh @depot = <[\"stall\"=33]>" = depotMesh.declarationUnder symbol :=
  (exists_symbol_iff_isPlain depotTable (stallSharding "depot") "depot" depotMesh (by decide) _ _
    rfl rfl).mpr (by decide)

/-- The name after an at sign refers to the same declaration and has a symbol too, but the attribute
has two at signs and the declaration has one. -/
theorem depot_after_at_sign :
    SymbolTable.empty.insert "depot" depotMesh = .ok depotTable ∧
      depotTable.mesh? "@depot" = some depotMesh ∧
      depotTable.declaration? "@depot" = some ("depot", depotMesh) ∧
      (stallSharding "@depot").attributeText =
        .ok "#sdy.sharding<@@depot, [\x7b\"stall\"\x7d]>" ∧
      depotMesh.declaration "depot" = .ok "sdy.mesh @depot = <[\"stall\"=33]>" ∧
      ¬ ∃ symbol, "#sdy.sharding<@@depot, [\x7b\"stall\"\x7d]>" =
          (stallSharding "@depot").attributeUnder symbol ∧
        "sdy.mesh @depot = <[\"stall\"=33]>" = depotMesh.declarationUnder symbol := by
  refine ⟨rfl, by decide, by decide, rfl, rfl, ?_⟩
  rintro ⟨symbol, isText, isDeclaration⟩
  have twoAtSigns : (stallSharding "@depot").attributeUnder "@depot" = _ := isText
  have oneAtSign : depotMesh.declarationUnder "depot" = _ := isDeclaration
  rw [← TensorSharding.attributeUnder_inj.mp twoAtSigns, Mesh.declarationUnder_inj] at oneAtSign
  exact absurd oneAtSign (by decide)

end SymbolTable

end MeshSharding
