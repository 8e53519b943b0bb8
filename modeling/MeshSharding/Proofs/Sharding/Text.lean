import MeshSharding.Proofs.Text.Legible
import MeshSharding.Sharding.Basic

/-!
# Reading a sharding off its text

The text of a tensor sharding shows all of it: shardings with the same text are
the same (`TensorSharding.text_inj`), whatever characters the names of their mesh
and axes are made of.

**Axes and dimensions.** The name of an axis is quoted, so what is behind it is
seen. A dimension is a list of entries (`DimSharding.entries`), its axes and
possibly a question mark at the end, and no axis starts with a question mark.

**The mesh.** The name of the mesh is escaped but not quoted. It ends at a comma,
a blank and an opening bracket, and may contain these characters itself. The
bracket that is meant is the last one before the first quote that no backslash
precedes: in front of the first quoted axis, nothing printed behind that bracket
contains another one, or a backslash (`Unnested`).
-/

set_option autoImplicit false

namespace MeshSharding

namespace AxisRef

/-- What may stand behind a reference: nothing that would continue it. -/
def EndsRef (character : Char) : Prop :=
  character ≠ ':' ∧ character.isDigit = false

theorem toList_text_part_append (axis : String) (preSize size : Nat) (rest : List Char) :
    (text (.part axis preSize size)).toList ++ rest = (quoted axis).toList ++
      ':' :: '(' :: ((toString preSize).toList ++ ')' :: ((toString size).toList ++ rest)) := by
  simp [text]

/-- References to axes are legible before whatever does not continue them. -/
theorem legible_text : Legible text (StartsWith EndsRef) := by
  -- a whole axis is told from a part by the colon
  have notPart : ∀ {axis axis' : String} {preSize size : Nat} {rest rest' : List Char},
      StartsWith EndsRef rest →
        (quoted axis).toList ++ rest ≠ (text (.part axis' preSize size)).toList ++ rest' := by
    intro axis axis' preSize size rest rest' follows same
    rw [toList_text_part_append] at same
    obtain ⟨-, sameRest⟩ := legible_quoted trivial trivial same
    rw [sameRest, startsWith_cons] at follows
    exact follows.1 rfl
  intro first second rest rest' follows follows' same
  cases first with
  | whole axis =>
    cases second with
    | whole axis' =>
      obtain ⟨rfl, sameRest⟩ := legible_quoted trivial trivial same
      exact ⟨rfl, sameRest⟩
    | part axis' preSize' size' => exact absurd same (notPart follows)
  | part axis preSize size =>
    cases second with
    | whole axis' => exact absurd same.symm (notPart follows')
    | part axis' preSize' size' =>
      rw [toList_text_part_append, toList_text_part_append] at same
      obtain ⟨rfl, sameInfo⟩ := legible_quoted trivial trivial same
      simp only [List.cons.injEq, true_and] at sameInfo
      obtain ⟨rfl, sameBehind⟩ := legible_toString (.cons (by decide)) (.cons (by decide)) sameInfo
      rw [List.cons.injEq] at sameBehind
      obtain ⟨rfl, sameRest⟩ := legible_toString (follows.mono fun _ ends => ends.2)
        (follows'.mono fun _ ends => ends.2) sameBehind.2
      exact ⟨rfl, sameRest⟩

/-- Neither a comma nor a closing brace continues a reference. -/
theorem endsRef_of_endsItem (character : Char) (ends : EndsItem '\x7d' character) :
    EndsRef character := by
  rcases ends with rfl | rfl <;> exact ⟨by decide, by decide⟩

/-- A reference starts with a quote. -/
theorem startsWith_text (reference : AxisRef) :
    StartsWith (fun character => character = '"') reference.text.toList := by
  cases reference with
  | whole axis => exact startsWith_quoted axis
  | part axis preSize size =>
    rw [← List.append_nil (text _).toList, toList_text_part_append]
    exact (startsWith_quoted axis).append _

end AxisRef

namespace DimSharding

/-- The entries of a dimension in its text: an axis, or the question mark of an open one. -/
def entries (dim : DimSharding) : List (Option AxisRef) :=
  dim.axes.map some ++ if dim.isClosed then [] else [none]

/-- The text of an entry. -/
def entryText : Option AxisRef → String
  | some reference => reference.text
  | none => "?"

theorem text_eq_entries (dim : DimSharding) : dim.text = braced (dim.entries.map entryText) := by
  rw [text, entries, List.map_append, List.map_map]
  cases dim.isClosed <;> rfl

/-- The axes of a dimension are the entries that are one. -/
theorem filterMap_entries (dim : DimSharding) : dim.entries.filterMap id = dim.axes := by
  rw [entries, List.filterMap_append, List.filterMap_map]
  cases dim.isClosed <;> simp

/-- A dimension is closed when none of its entries is the question mark. -/
theorem none_notMem_entries (dim : DimSharding) : none ∉ dim.entries ↔ dim.isClosed = true := by
  rw [entries]
  cases dim.isClosed <;> simp

theorem entries_injective (first second : DimSharding) (same : first.entries = second.entries) :
    first = second := by
  have sameAxes := congrArg (List.filterMap id) same
  rw [filterMap_entries, filterMap_entries] at sameAxes
  have sameClosed : first.isClosed = second.isClosed := by
    rw [Bool.eq_iff_iff, ← none_notMem_entries, ← none_notMem_entries, same]
  cases first
  cases second
  cases sameAxes
  cases sameClosed
  rfl

theorem startsWith_entryText (entry : Option AxisRef) :
    StartsWith (fun character => character = '"' ∨ character = '?') (entryText entry).toList := by
  cases entry with
  | none => exact .cons (.inr rfl)
  | some reference => exact reference.startsWith_text.mono fun _ => .inl

/-- Entries are legible where references are. -/
theorem legible_entryText : Legible entryText (StartsWith AxisRef.EndsRef) := by
  have notRef : ∀ {reference : AxisRef} {rest rest' : List Char},
      '?' :: rest ≠ reference.text.toList ++ rest' := by
    intro reference rest rest' same
    have isQuote := reference.startsWith_text.append rest'
    rw [← same, startsWith_cons] at isQuote
    exact absurd isQuote (by decide)
  intro first second rest rest' follows follows' same
  cases first with
  | none =>
    cases second with
    | none => exact ⟨rfl, List.tail_eq_of_cons_eq same⟩
    | some reference => exact absurd same notRef
  | some reference =>
    cases second with
    | none => exact absurd same.symm notRef
    | some reference' =>
      obtain ⟨rfl, sameRest⟩ := AxisRef.legible_text follows follows' same
      exact ⟨rfl, sameRest⟩

theorem startsWith_text (dim : DimSharding) :
    StartsWith (fun character => character = '\x7b') dim.text.toList := by
  rw [← List.append_nil dim.text.toList, text, toList_braced_append]
  exact .cons rfl

/-- Dimensions are legible before any text. -/
theorem legible_text : Legible text AnyText := by
  have legibleEntries :
      Legible (fun entries : List (Option AxisRef) => braced (entries.map entryText)) AnyText :=
    (legible_entryText.mono fun _ starts => starts.mono AxisRef.endsRef_of_endsItem).braced
      fun entry => (startsWith_entryText entry).mono fun character starts => by
        rcases starts with rfl | rfl <;> decide
  intro first second rest rest' _ _ same
  rw [text_eq_entries, text_eq_entries] at same
  exact legibleEntries.comp entries_injective trivial trivial same

end DimSharding

/-! ## The end of a mesh name -/

/-- In front of the first quote there is no opening bracket and no backslash. -/
def Unnested : List Char → Prop
  | [] => True
  | character :: rest => character = '"' ∨ (character ≠ '[' ∧ character ≠ '\\' ∧ Unnested rest)

theorem Unnested.append {text : List Char} (unnested : Unnested text) {rest : List Char}
    (unnestedRest : Unnested rest) : Unnested (text ++ rest) := by
  induction text with
  | nil => exact unnestedRest
  | cons character others ih =>
    rcases unnested with isQuote | ⟨notBracket, notBackslash, unnestedOthers⟩
    · exact .inl isQuote
    · exact .inr ⟨notBracket, notBackslash, ih unnestedOthers⟩

theorem unnested_commasBefore {items : List String}
    (unnested : ∀ item ∈ items, Unnested item.toList) : Unnested (commasBefore items) := by
  induction items with
  | nil => trivial
  | cons item others ih =>
    rw [List.forall_mem_cons] at unnested
    rw [commasBefore, List.flatMap_cons]
    refine Unnested.append ?_ (ih unnested.2)
    exact .inr ⟨by decide, by decide, .inr ⟨by decide, by decide, unnested.1⟩⟩

theorem unnested_commaSeparated {items : List String}
    (unnested : ∀ item ∈ items, Unnested item.toList) : Unnested (commaSeparated items).toList := by
  cases items with
  | nil => trivial
  | cons item others =>
    rw [List.forall_mem_cons] at unnested
    rw [toList_commaSeparated_cons]
    exact unnested.1.append (unnested_commasBefore unnested.2)

theorem unnested_braced {items : List String} (unnested : ∀ item ∈ items, Unnested item.toList) :
    Unnested (braced items).toList := by
  rw [← List.append_nil (braced items).toList, toList_braced_append]
  refine .inr ⟨by decide, by decide, (unnested_commaSeparated unnested).append ?_⟩
  exact .inr ⟨by decide, by decide, trivial⟩

theorem unnested_of_startsWith_quote {text : List Char}
    (starts : StartsWith (fun character => character = '"') text) : Unnested text := by
  obtain ⟨character, rest, rfl, isQuote⟩ := starts
  exact .inl isQuote

/-- A comma, a blank and an opening bracket, and behind them an unnested text. -/
def EndsMeshName (text : List Char) : Prop :=
  ∃ rest, text = ',' :: ' ' :: '[' :: rest ∧ Unnested rest

/-- An escaped name before a comma, a blank and a bracket is nested: if it has no backslash, it has
no quote either. -/
theorem not_unnested_escaped (name rest : List Char) :
    ¬ Unnested (escapeChars name ++ ',' :: ' ' :: '[' :: rest) := by
  induction name with
  | nil => simp [escapeChars, Unnested]
  | cons character name ih =>
    intro unnested
    rw [escapeChars, List.flatMap_cons, List.append_assoc, escapeChar] at unnested
    split at unnested
    · rcases unnested with isQuote | ⟨-, notBackslash, -⟩
      · exact absurd isQuote (by decide)
      · exact notBackslash rfl
    · next plain =>
      rcases unnested with isQuote | ⟨-, -, unnestedRest⟩
      · exact plain (.inr isQuote)
      · exact ih unnestedRest

/-- If an escaped name before a comma starts with another character that needs no backslash, the
name starts with it. -/
theorem exists_behind_of_escaped {character : Char} (plain : escapeChar character = [character])
    (notComma : character ≠ ',') {name rest rest' : List Char}
    (same : escapeChars name ++ ',' :: rest = character :: rest') :
    ∃ behind, escapeChars behind ++ ',' :: rest = rest' := by
  cases name with
  | nil => exact absurd (List.head_eq_of_cons_eq same).symm notComma
  | cons first behind =>
    have sameStart : escapeChar first ++ (escapeChars behind ++ ',' :: rest) =
        escapeChar character ++ rest' := by
      rw [plain, ← List.append_assoc]
      exact same
    exact ⟨behind, (escapeChar_append_inj sameStart).2⟩

/-- Names of meshes are legible before what ends them. -/
theorem legible_meshName : Legible escaped EndsMeshName := by
  refine legible_escaped fun character name rest ends endsBefore => ?_
  obtain ⟨rest, rfl, -⟩ := ends
  obtain ⟨rest', same, unnested⟩ := endsBefore
  -- the name would go on with the three characters that end a name, and end behind them
  have afterComma : escapeChar character ++ _ = escapeChar ',' ++ _ := same
  obtain ⟨behindBlank, same⟩ :=
    exists_behind_of_escaped rfl (by decide) (escapeChar_append_inj afterComma).2
  obtain ⟨behindBracket, rfl⟩ := exists_behind_of_escaped rfl (by decide) same
  exact not_unnested_escaped behindBracket rest unnested

namespace DimSharding

theorem unnested_text (dim : DimSharding) : Unnested dim.text.toList := by
  rw [text_eq_entries]
  refine unnested_braced fun item isItem => ?_
  obtain ⟨entry, -, rfl⟩ := List.mem_map.mp isItem
  cases entry with
  | none => simp [entryText, Unnested]
  | some reference => exact unnested_of_startsWith_quote reference.startsWith_text

end DimSharding

namespace TensorSharding

theorem toList_replicatedText_cons (reference : AxisRef) (others : AxisSequence) :
    (replicatedText (reference :: others)).toList = ", replicated=".toList ++
      (braced ((reference :: others).map AxisRef.text)).toList := by
  simp [replicatedText]

theorem unnested_replicatedText (axes : AxisSequence) : Unnested (replicatedText axes).toList := by
  cases axes with
  | nil => trivial
  | cons reference others =>
    rw [toList_replicatedText_cons]
    refine Unnested.append (by simp [Unnested]) (unnested_braced fun item isItem => ?_)
    obtain ⟨reference, -, rfl⟩ := List.mem_map.mp isItem
    exact unnested_of_startsWith_quote reference.startsWith_text

/-- The list of replicated axes is legible before the end of a sharding. -/
theorem legible_replicatedText :
    Legible replicatedText (StartsWith fun character => character = '>') := by
  have legibleRefs : Legible (fun axes : AxisSequence => braced (axes.map AxisRef.text)) AnyText :=
    (AxisRef.legible_text.mono fun _ starts => starts.mono AxisRef.endsRef_of_endsItem).braced
      fun reference => reference.startsWith_text.mono fun character isQuote => by
        rw [isQuote]
        decide
  refine legibleRefs.headed rfl toList_replicatedText_cons ?_
  rintro _ behind ⟨_, rest, rfl, rfl⟩ same
  exact absurd (List.head_eq_of_cons_eq same) (by decide)

/-- The text of a sharding, part by part. -/
theorem toList_text (sharding : TensorSharding) :
    sharding.text.toList = "#sdy.sharding<@".toList ++ ((escaped sharding.mesh).toList ++
      ',' :: ' ' :: ((bracketed (sharding.dims.map DimSharding.text)).toList ++
        ((replicatedText sharding.replicated).toList ++ ['>']))) := by
  simp [text, shortText]

/-- What is behind the name of the mesh ends that name. -/
theorem endsMeshName_text (sharding : TensorSharding) :
    EndsMeshName (',' :: ' ' :: ((bracketed (sharding.dims.map DimSharding.text)).toList ++
      ((replicatedText sharding.replicated).toList ++ ['>']))) := by
  have unnestedDims :
      Unnested (commaSeparated (sharding.dims.map DimSharding.text)).toList := by
    refine unnested_commaSeparated fun item isItem => ?_
    obtain ⟨dim, -, rfl⟩ := List.mem_map.mp isItem
    exact dim.unnested_text
  rw [toList_bracketed_append]
  refine ⟨_, rfl, unnestedDims.append (.inr ⟨by decide, by decide, ?_⟩)⟩
  exact (unnested_replicatedText sharding.replicated).append (.inr ⟨by decide, by decide, trivial⟩)

theorem legible_dims :
    Legible (fun dims : List DimSharding => bracketed (dims.map DimSharding.text)) AnyText :=
  (DimSharding.legible_text.mono fun _ _ => trivial).bracketed fun dim =>
    dim.startsWith_text.mono fun character isBrace => by
      rw [isBrace]
      decide

/-- **The text of a sharding determines it.** Two shardings have the same text only if they name the
same mesh, have the same dimensions with the same axes in the same order, open and closed alike, and
list the same replicated axes. Nothing is asked of the names of the mesh and of the axes: they may
contain the very characters that delimit them. -/
theorem text_inj {first second : TensorSharding} : first.text = second.text ↔ first = second := by
  refine ⟨fun sameText => ?_, fun same => congrArg text same⟩
  have same := congrArg String.toList sameText
  rw [toList_text, toList_text] at same
  obtain ⟨sameMesh, sameBehind⟩ := legible_meshName first.endsMeshName_text
    second.endsMeshName_text (List.append_cancel_left same)
  simp only [List.cons.injEq, true_and] at sameBehind
  obtain ⟨sameDims, sameTail⟩ := legible_dims trivial trivial sameBehind
  obtain ⟨sameReplicated, -⟩ := legible_replicatedText (.cons rfl) (.cons rfl) sameTail
  obtain ⟨mesh, dims, replicated⟩ := first
  obtain rfl : mesh = second.mesh := sameMesh
  obtain rfl : dims = second.dims := sameDims
  obtain rfl : replicated = second.replicated := sameReplicated
  rfl

/-- A mesh name that imitates the dimensions behind it. -/
example : text ⟨"m, [\x7b\x7d]>", [.openEmpty], []⟩ =
    "#sdy.sharding<@m, [\x7b\x7d]>, [\x7b?\x7d]>" := by
  decide

end TensorSharding

end MeshSharding
