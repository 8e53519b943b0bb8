import MeshSharding.Text.Basic

/-!
# Legible printing

A way of printing values is legible before certain texts when a printed value
and such a text behind it can be told apart: two printed values with their texts
make the same characters only if both the values and the texts are the same
(`Legible`). What may follow matters, because nothing ends a number or an
unquoted name but the character behind it.

**Lists.** A comma-separated list before a closing character is legible if its
items are legible before commas and before that character
(`commaSeparated_append_inj`). It must be known whether the list is empty,
because an item that prints as nothing looks like no item; items that do not
start with the closing character leave no doubt (`Legible.bracketed`,
`Legible.braced`).

**Names.** An escaped name is legible before texts that are not themselves such
texts behind the rest of a name (`legible_escaped`). The quote that closes a
quoted name is one.
-/

set_option autoImplicit false

namespace MeshSharding

/-- Printed values and the texts behind them are the same whenever they make the same
characters. -/
def Legible {α : Type} (print : α → String) (Follows : List Char → Prop) : Prop :=
  ∀ ⦃first second : α⦄ ⦃rest rest' : List Char⦄, Follows rest → Follows rest' →
    (print first).toList ++ rest = (print second).toList ++ rest' → first = second ∧ rest = rest'

/-- A text that starts with a character of some kind. -/
def StartsWith (Kind : Char → Prop) (text : List Char) : Prop :=
  ∃ character rest, text = character :: rest ∧ Kind character

/-- Any text at all. -/
def AnyText (_ : List Char) : Prop :=
  True

section Legible

variable {α β : Type} {print : α → String} {Follows Narrower : List Char → Prop}
variable {Kind Wider : Char → Prop}

theorem StartsWith.cons {character : Char} {rest : List Char} (kind : Kind character) :
    StartsWith Kind (character :: rest) :=
  ⟨character, rest, rfl, kind⟩

theorem StartsWith.append {text : List Char} (starts : StartsWith Kind text) (rest : List Char) :
    StartsWith Kind (text ++ rest) := by
  obtain ⟨character, others, rfl, kind⟩ := starts
  exact .cons kind

theorem StartsWith.mono {text : List Char} (starts : StartsWith Kind text)
    (wider : ∀ character, Kind character → Wider character) : StartsWith Wider text := by
  obtain ⟨character, rest, rfl, kind⟩ := starts
  exact .cons (wider character kind)

/-- The kind of the first character of a text is known. -/
theorem startsWith_cons {character : Char} {rest : List Char} :
    StartsWith Kind (character :: rest) ↔ Kind character := by
  constructor
  · rintro ⟨_, _, same, kind⟩
    cases same
    exact kind
  · exact .cons

/-- Fewer texts may follow. -/
theorem Legible.mono (legible : Legible print Follows)
    (narrower : ∀ rest, Narrower rest → Follows rest) : Legible print Narrower := by
  intro first second rest rest' follows follows' same
  exact legible (narrower rest follows) (narrower rest' follows') same

/-- Values that can be told from what is printed of them are printed legibly. -/
theorem Legible.comp (legible : Legible print Follows) {view : β → α}
    (injective : ∀ first second, view first = view second → first = second) :
    Legible (fun value => print (view value)) Follows := by
  intro first second rest rest' follows follows' same
  obtain ⟨sameView, sameRest⟩ := legible follows follows' same
  exact ⟨injective first second sameView, sameRest⟩

end Legible

/-! ## Numbers -/

/-- Decimal digits are followed by their end, so before anything but a digit they are all that is
read. -/
theorem takeWhile_toString_append (number : Nat) {rest : List Char}
    (follows : StartsWith (fun character => character.isDigit = false) rest) :
    ((toString number).toList ++ rest).takeWhile Char.isDigit = Nat.toDigits 10 number := by
  obtain ⟨character, others, rfl, notDigit⟩ := follows
  rw [Nat.toString_eq_ofList_toDigits, String.toList_ofList, List.takeWhile_append_of_pos
    fun _ => Nat.isDigit_of_mem_toDigits (by decide) (by decide), List.takeWhile_cons, notDigit]
  simp

/-- Numbers are legible before anything but a digit. -/
theorem legible_toString :
    Legible (fun number : Nat => toString number)
      (StartsWith fun character => character.isDigit = false) := by
  intro first second rest rest' follows follows' same
  have sameDigits := congrArg (List.takeWhile Char.isDigit) same
  rw [takeWhile_toString_append first follows, takeWhile_toString_append second follows']
    at sameDigits
  have sameNumber := congrArg (Nat.ofDigitChars 10 · 0) sameDigits
  simp only [Nat.ofDigitChars_ten_toDigits] at sameNumber
  subst sameNumber
  exact ⟨rfl, List.append_cancel_left same⟩

/-! ## Names -/

/-- Each escaped character can be told from what is behind it. -/
theorem escapeChar_append_inj {first second : Char} {rest rest' : List Char}
    (same : escapeChar first ++ rest = escapeChar second ++ rest') :
    first = second ∧ rest = rest' := by
  unfold escapeChar at same
  split at same <;> split at same
  · simpa using same
  · -- the backslash in front of the first character would be the second, which has one itself
    simp only [List.cons_append, List.nil_append, List.cons.injEq] at same
    exact absurd (.inl same.1.symm) ‹¬ (second = _ ∨ _)›
  · simp only [List.cons_append, List.nil_append, List.cons.injEq] at same
    exact absurd (.inl same.1) ‹¬ (first = _ ∨ _)›
  · simpa using same

/-- Escaped names are legible before texts that are no such texts any more once the rest of a name
is put in front. -/
theorem legible_escaped {Ends : List Char → Prop}
    (apart : ∀ character name rest, Ends rest →
      ¬ Ends (escapeChar character ++ (escapeChars name ++ rest))) :
    Legible escaped Ends := by
  -- the induction follows the first name, and the names end together
  have readOff : ∀ first second rest rest', Ends rest → Ends rest' →
      escapeChars first ++ rest = escapeChars second ++ rest' → first = second ∧ rest = rest' := by
    intro first
    induction first with
    | nil =>
      intro second rest rest' ends ends' same
      cases second with
      | nil => exact ⟨rfl, same⟩
      | cons character name =>
        simp only [escapeChars, List.flatMap_nil, List.nil_append, List.flatMap_cons,
          List.append_assoc] at same
        exact absurd (same ▸ ends) (apart character name rest' ends')
    | cons character name ih =>
      intro second rest rest' ends ends' same
      cases second with
      | nil =>
        simp only [escapeChars, List.flatMap_nil, List.nil_append, List.flatMap_cons,
          List.append_assoc] at same
        exact absurd (same ▸ ends') (apart character name rest ends)
      | cons character' name' =>
        simp only [escapeChars, List.flatMap_cons, List.append_assoc] at same
        obtain ⟨rfl, sameRest⟩ := escapeChar_append_inj same
        obtain ⟨rfl, sameEnd⟩ := ih name' rest rest' ends ends' sameRest
        exact ⟨rfl, sameEnd⟩
  intro first second rest rest' ends ends' same
  rw [toList_escaped, toList_escaped] at same
  obtain ⟨sameName, sameRest⟩ := readOff first.toList second.toList rest rest' ends ends' same
  exact ⟨String.toList_inj.mp sameName, sameRest⟩

/-- No escaped character starts with a quote. -/
theorem startsWith_escapeChar (character : Char) :
    StartsWith (fun first => first ≠ '"') (escapeChar character) := by
  unfold escapeChar
  split
  · exact .cons (by decide)
  · next plain => exact .cons fun isQuote => plain (.inr isQuote)

theorem toList_quoted_append (name : String) (rest : List Char) :
    (quoted name).toList ++ rest = '"' :: ((escaped name).toList ++ '"' :: rest) := by
  simp [quoted]

theorem startsWith_quoted (name : String) :
    StartsWith (fun character => character = '"') (quoted name).toList := by
  rw [← List.append_nil (quoted name).toList, toList_quoted_append]
  exact .cons rfl

/-- Quoted names are legible before any text. -/
theorem legible_quoted : Legible quoted AnyText := by
  intro first second rest rest' _ _ same
  rw [toList_quoted_append, toList_quoted_append, List.cons.injEq] at same
  have legibleName : Legible escaped (StartsWith fun character => character = '"') := by
    refine legible_escaped fun character name rest _ ends => ?_
    obtain ⟨_, _, isStart, isQuote⟩ := ends
    obtain ⟨_, _, isStart', notQuote⟩ := (startsWith_escapeChar character).append
      (escapeChars name ++ rest)
    rw [isStart] at isStart'
    cases isStart'
    exact notQuote isQuote
  obtain ⟨sameName, sameRest⟩ := legibleName (.cons rfl) (.cons rfl) same.2
  cases sameRest
  exact ⟨sameName, rfl⟩

/-! ## Lists -/

/-- Items, each after a comma and a blank. -/
def commasBefore (items : List String) : List Char :=
  items.flatMap fun item => ',' :: ' ' :: item.toList

/-- The first item of a comma-separated list is the only one without a comma in front. -/
theorem toList_commaSeparated_cons (item : String) (items : List String) :
    (commaSeparated (item :: items)).toList = item.toList ++ commasBefore items := by
  induction items generalizing item with
  | nil => simp [commaSeparated, commasBefore]
  | cons next rest ih =>
    rw [commaSeparated, String.toList_append, String.toList_append, ih]
    simp [commasBefore]

section Lists

variable {α : Type} {item : α → String} {closing : Char}

/-- An item of a list is followed by a comma or by what closes the list. -/
def EndsItem (closing character : Char) : Prop :=
  character = ',' ∨ character = closing

theorem startsWith_commasBefore (items : List String) (rest : List Char) :
    StartsWith (EndsItem closing) (commasBefore items ++ closing :: rest) := by
  cases items with
  | nil => exact .cons (.inr rfl)
  | cons item items => exact .cons (.inl rfl)

/-- Items after commas can be told from what is behind the closing character. -/
theorem commasBefore_append_inj (notComma : closing ≠ ',')
    (legible : Legible item (StartsWith (EndsItem closing))) {first second : List α}
    {rest rest' : List Char}
    (same : commasBefore (first.map item) ++ closing :: rest =
      commasBefore (second.map item) ++ closing :: rest') : first = second ∧ rest = rest' := by
  induction first generalizing second with
  | nil =>
    cases second with
    | nil => exact ⟨rfl, List.tail_eq_of_cons_eq same⟩
    | cons value others => exact absurd (List.head_eq_of_cons_eq same) notComma
  | cons value others ih =>
    cases second with
    | nil => exact absurd (List.head_eq_of_cons_eq same).symm notComma
    | cons value' others' =>
      simp only [commasBefore, List.map_cons, List.flatMap_cons, List.cons_append,
        List.append_assoc, List.cons.injEq, true_and] at same
      obtain ⟨rfl, sameOthers⟩ :=
        legible (startsWith_commasBefore _ rest) (startsWith_commasBefore _ rest') same
      obtain ⟨rfl, sameRest⟩ := ih sameOthers
      exact ⟨rfl, sameRest⟩

/-- Comma-separated items can be told from what is behind the closing character if it is known
whether there are any. -/
theorem commaSeparated_append_inj (notComma : closing ≠ ',')
    (legible : Legible item (StartsWith (EndsItem closing))) {first second : List α}
    {rest rest' : List Char} (sameEmpty : first = [] ↔ second = [])
    (same : (commaSeparated (first.map item)).toList ++ closing :: rest =
      (commaSeparated (second.map item)).toList ++ closing :: rest') :
    first = second ∧ rest = rest' := by
  cases first with
  | nil =>
    cases sameEmpty.mp rfl
    exact ⟨rfl, List.tail_eq_of_cons_eq same⟩
  | cons value others =>
    cases second with
    | nil => exact absurd (sameEmpty.mpr rfl) (List.cons_ne_nil value others)
    | cons value' others' =>
      simp only [List.map_cons, toList_commaSeparated_cons, List.append_assoc] at same
      obtain ⟨rfl, sameOthers⟩ :=
        legible (startsWith_commasBefore _ rest) (startsWith_commasBefore _ rest') same
      obtain ⟨rfl, sameRest⟩ := commasBefore_append_inj notComma legible sameOthers
      exact ⟨rfl, sameRest⟩

/-- Whether there are items is seen from the first character if no item starts with the closing
one. -/
theorem isEmpty_iff_of_commaSeparated
    (starts : ∀ value, StartsWith (fun character => character ≠ closing) (item value).toList)
    {first second : List α} {rest rest' : List Char}
    (same : (commaSeparated (first.map item)).toList ++ closing :: rest =
      (commaSeparated (second.map item)).toList ++ closing :: rest') :
    first = [] ↔ second = [] := by
  have closes : ∀ {values : List α} {behind behind' : List Char},
      closing :: behind = (commaSeparated (values.map item)).toList ++ closing :: behind' →
        values = [] := by
    intro values behind behind' isClosing
    cases values with
    | nil => rfl
    | cons value others =>
      have started := (starts value).append (commasBefore (others.map item) ++ closing :: behind')
      rw [← List.append_assoc, ← toList_commaSeparated_cons, ← List.map_cons, ← isClosing,
        startsWith_cons] at started
      exact absurd rfl started
  constructor
  · rintro rfl
    exact closes same
  · rintro rfl
    exact closes same.symm

/-- Comma-separated items that do not start with the closing character can be told from what is
behind it. -/
theorem commaSeparated_append_inj_of_starts (notComma : closing ≠ ',')
    (legible : Legible item (StartsWith (EndsItem closing)))
    (starts : ∀ value, StartsWith (fun character => character ≠ closing) (item value).toList)
    {first second : List α} {rest rest' : List Char}
    (same : (commaSeparated (first.map item)).toList ++ closing :: rest =
      (commaSeparated (second.map item)).toList ++ closing :: rest') :
    first = second ∧ rest = rest' :=
  commaSeparated_append_inj notComma legible (isEmpty_iff_of_commaSeparated starts same) same

theorem toList_bracketed_append (items : List String) (rest : List Char) :
    (bracketed items).toList ++ rest = '[' :: ((commaSeparated items).toList ++ ']' :: rest) := by
  simp [bracketed]

theorem toList_braced_append (items : List String) (rest : List Char) :
    (braced items).toList ++ rest =
      '\x7b' :: ((commaSeparated items).toList ++ '\x7d' :: rest) := by
  simp [braced]

/-- Lists between square brackets are legible before any text. -/
theorem Legible.bracketed (legible : Legible item (StartsWith (EndsItem ']')))
    (starts : ∀ value, StartsWith (fun character => character ≠ ']') (item value).toList) :
    Legible (fun values : List α => bracketed (values.map item)) AnyText := by
  intro first second rest rest' _ _ same
  rw [toList_bracketed_append, toList_bracketed_append, List.cons.injEq] at same
  exact commaSeparated_append_inj_of_starts (by decide) legible starts same.2

/-- Lists between braces are legible before any text. -/
theorem Legible.braced (legible : Legible item (StartsWith (EndsItem '\x7d')))
    (starts : ∀ value, StartsWith (fun character => character ≠ '\x7d') (item value).toList) :
    Legible (fun values : List α => braced (values.map item)) AnyText := by
  intro first second rest rest' _ _ same
  rw [toList_braced_append, toList_braced_append, List.cons.injEq] at same
  exact commaSeparated_append_inj_of_starts (by decide) legible starts same.2

/-- A list that prints as nothing if it is empty, and otherwise as a header and its items between
braces, is legible before texts that do not start with the header. -/
theorem Legible.headed {listText : List α → String} {header : List Char}
    {Follows : List Char → Prop}
    (legible : Legible (fun values : List α => MeshSharding.braced (values.map item)) AnyText)
    (empty : (listText []).toList = [])
    (listed : ∀ value others, (listText (value :: others)).toList =
      header ++ (MeshSharding.braced ((value :: others).map item)).toList)
    (apart : ∀ rest behind, Follows rest → rest ≠ header ++ behind) :
    Legible listText Follows := by
  intro first second rest rest' follows follows' same
  cases first with
  | nil =>
    cases second with
    | nil => exact ⟨rfl, List.append_cancel_left same⟩
    | cons value others =>
      rw [empty, listed, List.append_assoc] at same
      exact absurd same (apart rest _ follows)
  | cons value others =>
    cases second with
    | nil =>
      rw [empty, listed, List.append_assoc] at same
      exact absurd same.symm (apart rest' _ follows')
    | cons value' others' =>
      rw [listed, listed, List.append_assoc, List.append_assoc] at same
      exact legible trivial trivial (List.append_cancel_left same)

end Lists

end MeshSharding
