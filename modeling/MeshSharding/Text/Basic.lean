/-!
# Text

Lists are printed with a comma and a blank between neighbouring items and with
nothing before the first or after the last. Bracketed forms are built on it, so
the shape of every printed list of the library is decided here.

A name stands between double quotes. A quote inside the name and a backslash
are each preceded by a backslash, every other character stands for itself, so
the quote that ends a name is the first one that no backslash precedes. Both can
be escaped at once, or first the backslashes and then the quotes
(`escapeChars_eq_replaceChar`): in the other order the backslashes in front of the
quotes would be escaped again.

Blank characters are those with the Unicode property `White_Space`, held as a
table of ranges. They are removed from both ends of a text.
-/

set_option autoImplicit false

namespace MeshSharding

/-! ## Lists -/

/-- The items with a comma and a blank between neighbours. -/
def commaSeparated : List String → String
  | [] => ""
  | [item] => item
  | item :: next :: rest => item ++ ", " ++ commaSeparated (next :: rest)

/-- The items, comma-separated, between square brackets. -/
def bracketed (items : List String) : String :=
  "[" ++ commaSeparated items ++ "]"

/-- The items, comma-separated, between braces. -/
def braced (items : List String) : String :=
  "\x7b" ++ commaSeparated items ++ "\x7d"

/-! ## Quoted names -/

/-- A quote or a backslash is preceded by a backslash. -/
def escapeChar (character : Char) : List Char :=
  if character = '\\' ∨ character = '"' then ['\\', character] else [character]

/-- The characters of a name, each escaped on its own. -/
def escapeChars (characters : List Char) : List Char :=
  characters.flatMap escapeChar

/-- A name with its quotes and backslashes escaped. -/
def escaped (name : String) : String :=
  String.ofList (escapeChars name.toList)

/-- A name between double quotes. -/
def quoted (name : String) : String :=
  "\"" ++ escaped name ++ "\""

/-- The characters of an escaped name. -/
theorem toList_escaped (name : String) : (escaped name).toList = escapeChars name.toList := by
  simp only [escaped, String.toList_ofList]

/-- A text in which one character is replaced wherever it stands. -/
def replaceChar (target : Char) (replacement characters : List Char) : List Char :=
  characters.flatMap fun character => if character = target then replacement else [character]

/-- Escaping replaces first every backslash, then every quote. -/
theorem escapeChars_eq_replaceChar (characters : List Char) :
    escapeChars characters =
      replaceChar '"' ['\\', '"'] (replaceChar '\\' ['\\', '\\'] characters) := by
  rw [escapeChars, replaceChar, replaceChar, List.flatMap_assoc]
  congr 1
  funext character
  unfold escapeChar
  by_cases isBackslash : character = '\\'
  · simp [isBackslash]
  · by_cases isQuote : character = '"'
    · simp [isQuote]
    · simp [isBackslash, isQuote]

/-! ## Blank characters -/

/-- First and last code point of each run of blank characters, in increasing order. -/
def blankRanges : List (Nat × Nat) :=
  [(0x9, 0xD), (0x20, 0x20), (0x85, 0x85), (0xA0, 0xA0), (0x1680, 0x1680), (0x2000, 0x200A),
    (0x2028, 0x2029), (0x202F, 0x202F), (0x205F, 0x205F), (0x3000, 0x3000)]

/-- Whether a character has the property `White_Space`. -/
def isBlank (character : Char) : Bool :=
  blankRanges.any fun range =>
    decide (range.1 ≤ character.toNat) && decide (character.toNat ≤ range.2)

/-- The characters that remain when the blanks at both ends are removed. -/
def trimBlanks (characters : List Char) : List Char :=
  ((characters.dropWhile isBlank).reverse.dropWhile isBlank).reverse

/-- A text without blanks is left as it is. -/
theorem trimBlanks_eq_self {characters : List Char}
    (solid : ∀ character ∈ characters, isBlank character = false) :
    trimBlanks characters = characters := by
  have unchanged : ∀ text : List Char, (∀ character ∈ text, isBlank character = false) →
      text.dropWhile isBlank = text := by
    intro text solidText
    cases text with
    | nil => rfl
    | cons character rest =>
      simp [solidText character (List.mem_cons_self ..)]
  rw [trimBlanks, unchanged characters solid,
    unchanged characters.reverse fun character member =>
      solid character (List.mem_reverse.mp member),
    List.reverse_reverse]

end MeshSharding
