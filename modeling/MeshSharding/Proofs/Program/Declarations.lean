import MeshSharding.Program.Module

/-!
# Names and declarations

A symbol table finds a mesh under its bare name, so a name and the same name
after an at sign refer to one declaration. These are the only two names of a
declaration: names that differ and refer to the same declaration are a name
without an at sign and that name after one (`bareName_eq_iff`).

Two names refer to the same declaration exactly when they are the same once bare
(`SymbolTable.declaration?_eq_iff`), because the names in a table are distinct.
-/

set_option autoImplicit false

namespace MeshSharding

/-- A name after an at sign. -/
def withAtSign (name : String) : String :=
  "@" ++ name

/-! ## Bare names -/

theorem toList_bareName (name : String) : (bareName name).toList = withoutAtSign name.toList :=
  String.toList_ofList

theorem toList_withAtSign (name : String) : (withAtSign name).toList = '@' :: name.toList := by
  rw [withAtSign, String.toList_append]
  rfl

/-- An at sign in front makes another name. -/
theorem withAtSign_ne (name : String) : withAtSign name ≠ name := by
  intro same
  have counts := congrArg (fun text : String => text.toList.length) same
  simp only [toList_withAtSign, List.length_cons] at counts
  omega

/-- A text loses no at sign, or it is what it loses an at sign to, after an at sign. -/
theorem withoutAtSign_cases (characters : List Char) :
    withoutAtSign characters = characters ∨ characters = '@' :: withoutAtSign characters := by
  unfold withoutAtSign
  split
  · exact .inr rfl
  · exact .inl rfl

/-- Bare names are the same if the names are, or if one is the other after an at sign and the other
has none. -/
theorem bareName_eq_iff {first second : String} :
    bareName first = bareName second ↔ first = second ∨
      (bareName first = first ∧ second = withAtSign first) ∨
      (bareName second = second ∧ first = withAtSign second) := by
  simp only [← String.toList_inj, toList_bareName, toList_withAtSign]
  constructor
  · intro same
    rcases withoutAtSign_cases first.toList with isBare | isLonger <;>
      rcases withoutAtSign_cases second.toList with isBare' | isLonger'
    · exact .inl (isBare.symm.trans (same.trans isBare'))
    · exact .inr (.inl ⟨isBare, by rw [isLonger', ← same, isBare]⟩)
    · exact .inr (.inr ⟨isBare', by rw [isLonger, same, isBare']⟩)
    · exact .inl (by rw [isLonger, same, ← isLonger'])
  · rintro (same | ⟨isBare, isLonger⟩ | ⟨isBare, isLonger⟩)
    · rw [same]
    · rw [isLonger, isBare]
      rfl
    · rw [isLonger, isBare]
      rfl

/-! ## Declarations -/

namespace SymbolTable

variable {meshes : SymbolTable} {first second : String}

/-- The declaration that a name refers to: the mesh of the bare name, with that name. -/
def declaration? (meshes : SymbolTable) (name : String) : Option (String × Mesh) :=
  meshes.entries.find? fun entry => bareName name == entry.1

/-- The mesh of a name is the mesh of the declaration that the name refers to. -/
theorem mesh?_eq_declaration? (meshes : SymbolTable) (name : String) :
    meshes.mesh? name = (meshes.declaration? name).map Prod.snd := by
  rw [mesh?, declaration?]
  induction meshes.entries with
  | nil => rfl
  | cons entry rest ih =>
    rw [List.lookup_cons, List.find?_cons, ih]
    cases bareName name == entry.1 <;> rfl

/-- A name under which a mesh is found refers to the declaration of its bare name. -/
theorem declaration?_of_mesh? {mesh : Mesh} (found : meshes.mesh? first = some mesh) :
    meshes.declaration? first = some (bareName first, mesh) := by
  rw [mesh?_eq_declaration?, Option.map_eq_some_iff] at found
  obtain ⟨⟨name, _⟩, isDeclaration, rfl⟩ := found
  have isName : bareName first = name := by simpa using List.find?_some isDeclaration
  rw [isDeclaration, isName]

/-- Names of declarations refer to the same one exactly when they are the same once bare. -/
theorem declaration?_eq_iff {mesh mesh' : Mesh} (found : meshes.mesh? first = some mesh)
    (found' : meshes.mesh? second = some mesh') :
    meshes.declaration? first = meshes.declaration? second ↔ bareName first = bareName second := by
  constructor
  · intro same
    rw [declaration?_of_mesh? found, declaration?_of_mesh? found', Option.some.injEq, Prod.mk.injEq]
      at same
    exact same.1
  · intro same
    rw [declaration?, declaration?, same]

end SymbolTable

end MeshSharding
