import MeshSharding.Axis.Basic

/-!
# Parts of an axis

A reference with shards can be held against any other (`HasShards.comparable`).
It fits a mesh that has its axis if a part, together with what precedes it,
divides the axis. What fits has shards, it can be cut into two parts that fit
(`Fits.split`), and two adjoining parts that fit can be joined to a reference
that fits (`Fits.join`).

Where a part ends is computed in machine words, so only parts that end within a
word overlap exactly if they share shards (`overlaps_iff_meets`). What fits is no
greater than its axis and ends within a word (`Fits.endsInWord`).

Neither reaches further than what it starts from: a reference that overlaps one
of two parts overlaps what was cut, and a reference that overlaps what was
joined overlaps one of the two parts.
-/

set_option autoImplicit false

namespace MeshSharding

/-! ## References with shards -/

/-- A reference is to a whole axis or to a part that has shards. -/
def AxisRef.HasShards : AxisRef → Prop
  | .whole _ => True
  | .part _ _ size => 0 < size

instance (reference : AxisRef) : Decidable reference.HasShards :=
  match reference with
  | .whole _ => inferInstanceAs (Decidable True)
  | .part _ _ size => inferInstanceAs (Decidable (0 < size))

namespace AxisRef

variable {mesh : Mesh}

theorem HasShards.size_pos {reference : AxisRef} (hasShards : reference.HasShards) :
    0 < reference.size mesh := by
  cases reference with
  | whole axis =>
    cases found : mesh.axisSize? axis with
    | none =>
      rw [size, found]
      exact Nat.one_pos
    | some axisSize =>
      rw [size, found]
      exact Mesh.axisSize?_pos found
  | part axis preSize size => exact hasShards

/-- A reference with shards can be held against any other. -/
theorem HasShards.comparable {first : AxisRef} (hasShards : first.HasShards) (second : AxisRef) :
    first.Comparable second := by
  cases first with
  | whole axis => trivial
  | part axis preSize size =>
    cases second with
    | whole axis' => trivial
    | part axis' preSize' size' => exact fun same => absurd same.2.2.1 (Nat.ne_of_gt hasShards)

/-! ## References that fit -/

/-- The mesh has the axis, and a part divides it. -/
def Fits (mesh : Mesh) : AxisRef → Prop
  | .whole axis => ∃ axisSize, mesh.axisSize? axis = some axisSize
  | .part axis preSize size =>
    ∃ axisSize, mesh.axisSize? axis = some axisSize ∧ PartFits preSize size axisSize

theorem check_eq_ok_iff {reference : AxisRef} :
    reference.check mesh = .ok () ↔ reference.Fits mesh := by
  cases reference with
  | whole axis =>
    cases found : mesh.axisSize? axis with
    | none => simp [check, Fits, AxisRef.axis, found]
    | some axisSize => simp [check, Fits, AxisRef.axis, found]
  | part axis preSize size =>
    cases found : mesh.axisSize? axis with
    | none => simp [check, Fits, AxisRef.axis, found]
    | some axisSize =>
      by_cases fits : PartFits preSize size axisSize <;>
        simp [check, Fits, AxisRef.axis, found, fits]

/-- A reference that fits has shards. -/
theorem Fits.hasShards {reference : AxisRef} (fits : reference.Fits mesh) :
    reference.HasShards := by
  cases reference with
  | whole axis => trivial
  | part axis preSize size =>
    obtain ⟨axisSize, -, -, several, -⟩ := fits
    exact Nat.lt_of_succ_lt several

theorem Fits.size_pos {reference : AxisRef} (fits : reference.Fits mesh) :
    0 < reference.size mesh :=
  fits.hasShards.size_pos

/-- What precedes a reference, together with it, is no greater than the axis. -/
theorem Fits.mul_le {reference : AxisRef} (fits : reference.Fits mesh) : ∃ axisSize,
    mesh.axisSize? reference.axis = some axisSize ∧
      reference.preSize * reference.size mesh ≤ axisSize := by
  cases reference with
  | whole axis =>
    obtain ⟨axisSize, found⟩ := fits
    refine ⟨axisSize, found, Nat.le_of_eq ?_⟩
    rw [preSize, size, found, Option.getD_some, Nat.one_mul]
  | part axis preSize size =>
    obtain ⟨axisSize, found, -, -, divides⟩ := fits
    exact ⟨axisSize, found, Nat.le_of_dvd (Mesh.axisSize?_pos found) divides⟩

/-- A reference that fits has a number of shards that fits into a word, as its axis does. -/
theorem Fits.size_lt {reference : AxisRef} (fits : reference.Fits mesh) :
    reference.size mesh < UInt64.size := by
  cases reference with
  | whole axis =>
    obtain ⟨axisSize, found⟩ := fits
    rw [size, found]
    exact Mesh.axisSize?_lt found
  | part axis preSize size =>
    obtain ⟨axisSize, found, -, -, divides⟩ := fits
    have bounded := Nat.le_of_dvd (Mesh.axisSize?_pos found)
      (Nat.dvd_trans (Nat.dvd_mul_left size preSize) divides)
    exact Nat.lt_of_le_of_lt bounded (Mesh.axisSize?_lt found)

/-! ## Ends within a word -/

/-- A part ends at a number that fits into a machine word. -/
def EndsInWord : AxisRef → Prop
  | .whole _ => True
  | .part _ preSize size => preSize * size < UInt64.size

instance (reference : AxisRef) : Decidable reference.EndsInWord :=
  match reference with
  | .whole _ => inferInstanceAs (Decidable True)
  | .part _ preSize size => inferInstanceAs (Decidable (preSize * size < UInt64.size))

/-- Two references share shards, whatever machine words hold of the ends of parts. -/
def Meets : AxisRef → AxisRef → Prop
  | .part axis preSize size, .part axis' preSize' size' =>
    axis = axis' ∧ preSize < preSize' * size' ∧ preSize' < preSize * size
  | first, second => first.axis = second.axis

instance (first second : AxisRef) : Decidable (first.Meets second) :=
  match first, second with
  | .part .., .part .. => inferInstanceAs (Decidable (_ ∧ _ ∧ _))
  | .part .., .whole _ => inferInstanceAs (Decidable (_ = _))
  | .whole _, _ => inferInstanceAs (Decidable (_ = _))

/-- References that end within a word overlap exactly if they share shards. -/
theorem overlaps_iff_meets {first second : AxisRef} (ends : first.EndsInWord)
    (otherEnds : second.EndsInWord) : first.Overlaps second ↔ first.Meets second := by
  cases first with
  | whole axis => exact Iff.rfl
  | part axis preSize size =>
    cases second with
    | whole axis' => exact Iff.rfl
    | part axis' preSize' size' => rw [Overlaps, Meets, wordMul_eq ends, wordMul_eq otherEnds]

section Word

variable {reference : AxisRef} (fits : reference.Fits mesh)
include fits

theorem Fits.mul_lt : reference.preSize * reference.size mesh < UInt64.size := by
  obtain ⟨axisSize, found, bounded⟩ := fits.mul_le
  exact Nat.lt_of_le_of_lt bounded (Mesh.axisSize?_lt found)

/-- A reference that fits ends within a word, as its axis does. -/
theorem Fits.endsInWord : reference.EndsInWord := by
  cases reference with
  | whole axis => trivial
  | part axis preSize size => exact fits.mul_lt

/-- Up to the end of a reference that fits nothing is lost. -/
theorem Fits.wordMul_preSize {majorSize : Nat} (shorter : majorSize ≤ reference.size mesh) :
    wordMul reference.preSize majorSize = reference.preSize * majorSize :=
  wordMul_eq (Nat.lt_of_le_of_lt (Nat.mul_le_mul_left _ shorter) fits.mul_lt)

end Word

theorem Fits.wordMul_eq {axis : String} {preSize size : Nat}
    (fits : (part axis preSize size).Fits mesh) : wordMul preSize size = preSize * size :=
  fits.wordMul_preSize (Nat.le_refl _)

/-- A whole axis overlaps every reference to the axis. -/
theorem overlaps_whole_iff {axis : String} {other : AxisRef} :
    other.Overlaps (.whole axis) ↔ other.axis = axis := by
  cases other <;> exact Iff.rfl

/-- Only parts of one axis adjoin, and the second starts where the first ends. -/
theorem Adjoins.exists_parts {first second : AxisRef} (adjoins : first.Adjoins second) :
    ∃ axis preSize size nextSize, first = .part axis preSize size ∧
      second = .part axis (wordMul preSize size) nextSize := by
  cases first with
  | whole axis => exact absurd adjoins (by cases second <;> exact id)
  | part axis preSize size =>
    cases second with
    | whole axis' => exact absurd adjoins id
    | part axis' preSize' size' =>
      obtain ⟨rfl, rfl⟩ := adjoins
      exact ⟨axis, preSize, size, size', rfl, rfl⟩

/-! ## Cutting a reference in two -/

section Split

variable {reference : AxisRef} {majorSize : Nat}

/-- Both parts of a reference that fits and is cut properly fit. -/
theorem Fits.split (fits : reference.Fits mesh) (several : 1 < majorSize)
    (proper : majorSize < reference.size mesh) (divides : majorSize ∣ reference.size mesh) :
    (reference.split mesh majorSize).1.Fits mesh ∧
      (reference.split mesh majorSize).2.Fits mesh := by
  obtain ⟨minorSize, isProduct⟩ := divides
  have positive : 0 < majorSize := Nat.lt_of_succ_lt several
  have minorSeveral : 1 < minorSize := by
    by_cases small : minorSize ≤ 1
    · have bounded := Nat.mul_le_mul_left majorSize small
      omega
    · omega
  have quotient : reference.size mesh / majorSize = minorSize := by
    rw [isProduct, Nat.mul_div_cancel_left _ positive]
  rw [AxisRef.split, fits.wordMul_preSize (Nat.le_of_lt proper)]
  cases reference with
  | whole axis =>
    obtain ⟨axisSize, found⟩ := fits
    refine ⟨⟨axisSize, found, Nat.one_pos, several, ?_⟩, ⟨axisSize, found, ?_, ?_, ?_⟩⟩
    · simp only [size, found, Option.getD_some] at isProduct
      exact ⟨minorSize, by rw [isProduct, preSize, Nat.one_mul]⟩
    · rwa [preSize, Nat.one_mul]
    · rwa [quotient]
    · simp only [size, found, Option.getD_some] at isProduct
      have isWhole : 1 * majorSize * minorSize = axisSize := by
        rw [Nat.one_mul, ← isProduct]
      rw [quotient]
      exact ⟨1, ((Nat.mul_one _).trans isWhole).symm⟩
  | part axis preSize size =>
    obtain ⟨axisSize, found, started, -, whole⟩ := fits
    have isWhole : preSize * majorSize * minorSize = preSize * size := by
      rw [Nat.mul_assoc]
      exact congrArg (preSize * ·) isProduct.symm
    refine ⟨⟨axisSize, found, started, several, ?_⟩, ⟨axisSize, found, ?_, ?_, ?_⟩⟩
    · exact Nat.dvd_trans ⟨minorSize, isWhole.symm⟩ whole
    · exact Nat.mul_pos started positive
    · rwa [quotient]
    · rw [quotient, AxisRef.preSize, isWhole]
      exact whole

/-- The minor part starts where the major part ends. -/
theorem split_not_overlaps :
    ¬ (reference.split mesh majorSize).1.Overlaps (reference.split mesh majorSize).2 := by
  rintro ⟨-, -, before⟩
  exact Nat.lt_irrefl _ before

/-- What adjoins the major part, and that does not start the axis, adjoins the whole reference. -/
theorem adjoins_of_adjoins_split {other : AxisRef}
    (adjoins : other.Adjoins (reference.split mesh majorSize).1) (started : 1 < reference.preSize) :
    other.Adjoins reference := by
  cases reference with
  | whole axis => exact absurd started (Nat.lt_irrefl 1)
  | part axis preSize size =>
    cases other with
    | whole otherAxis => exact adjoins
    | part otherAxis otherPre otherSize => exact adjoins

/-- The minor part adjoins what the whole reference adjoins. -/
theorem adjoins_of_split_adjoins (divides : majorSize ∣ reference.size mesh) {other : AxisRef}
    (apart : ¬ reference.Overlaps other)
    (adjoins : (reference.split mesh majorSize).2.Adjoins other) : reference.Adjoins other := by
  cases other with
  | whole otherAxis => exact absurd adjoins id
  | part otherAxis otherPre otherSize =>
    cases reference with
    | whole axis => exact absurd adjoins.1 apart
    | part axis preSize size =>
      refine ⟨adjoins.1, Eq.trans ?_ adjoins.2⟩
      have isProduct : preSize * majorSize * (size / majorSize) = preSize * size := by
        rw [Nat.mul_assoc]
        exact congrArg (preSize * ·) (Nat.mul_div_cancel' divides)
      exact ((Nat.mod_mul_mod _ _ _).trans (congrArg (· % UInt64.size) isProduct)).symm

/-- What overlaps a part overlaps the whole reference. -/
theorem overlaps_of_overlaps_split (fits : reference.Fits mesh) (several : 1 < majorSize)
    (proper : majorSize < reference.size mesh) (divides : majorSize ∣ reference.size mesh)
    {other : AxisRef} (overlap : other.Overlaps (reference.split mesh majorSize).1 ∨
      other.Overlaps (reference.split mesh majorSize).2) : other.Overlaps reference := by
  have sameAxis : other.axis = reference.axis := by
    rcases overlap with overlap | overlap <;> exact overlap.axis_eq
  cases reference with
  | whole axis => exact overlaps_whole_iff.mpr sameAxis
  | part axis preSize size =>
    cases other with
    | whole otherAxis => exact sameAxis
    | part otherAxis otherPre otherSize =>
      have isMajor : wordMul preSize majorSize = preSize * majorSize :=
        fits.wordMul_preSize (Nat.le_of_lt proper)
      have isProduct : preSize * majorSize * (size / majorSize) = preSize * size := by
        rw [Nat.mul_assoc]
        exact congrArg (preSize * ·) (Nat.mul_div_cancel' divides)
      refine ⟨sameAxis, ?_⟩
      rw [fits.wordMul_eq]
      rcases overlap with ⟨-, ends, starts⟩ | ⟨-, ends, starts⟩
      · rw [AxisRef.preSize, isMajor] at ends
        have shorter := Nat.mul_le_mul_left preSize (Nat.le_of_lt proper)
        exact ⟨Nat.lt_of_lt_of_le ends shorter, starts⟩
      · rw [AxisRef.preSize, isMajor] at ends starts
        have later : preSize ≤ preSize * majorSize :=
          Nat.le_mul_of_pos_right _ (Nat.lt_of_succ_lt several)
        have bounded := Nat.lt_of_lt_of_le ends (Nat.mod_le _ _)
        exact ⟨Nat.lt_of_lt_of_eq bounded isProduct, Nat.lt_of_le_of_lt later starts⟩

end Split

/-! ## Joining two parts -/

section Join

variable {major minor other : AxisRef}

/-- Parts that adjoin, with the reference that covers them. -/
theorem join_cases (adjoins : major.Adjoins minor) (majorFits : major.Fits mesh)
    (minorFits : minor.Fits mesh) : ∃ axis preSize majorSize minorSize axisSize,
      major = .part axis preSize majorSize ∧
      minor = .part axis (preSize * majorSize) minorSize ∧
      mesh.axisSize? axis = some axisSize ∧
      0 < preSize ∧ 1 < majorSize ∧ 1 < minorSize ∧
      preSize * (majorSize * minorSize) ∣ axisSize ∧
      (major.join mesh minor = .part axis preSize (majorSize * minorSize) ∨
        (preSize = 1 ∧ axisSize = majorSize * minorSize ∧
          major.join mesh minor = .whole axis)) := by
  obtain ⟨axis, preSize, majorSize, minorSize, rfl, rfl⟩ := adjoins.exists_parts
  rw [majorFits.wordMul_eq] at minorFits ⊢
  obtain ⟨axisSize, found, started, several, -⟩ := majorFits
  obtain ⟨sameSize, minorFound, -, minorSeveral, divides⟩ := minorFits
  rw [found] at minorFound
  cases minorFound
  rw [Nat.mul_assoc] at divides
  -- the shards of both parts are no more than those of the axis
  have isSize : wordMul majorSize minorSize = majorSize * minorSize := by
    refine wordMul_eq (Nat.lt_of_le_of_lt ?_ (Mesh.axisSize?_lt found))
    exact Nat.le_of_dvd (Mesh.axisSize?_pos found)
      (Nat.dvd_trans (Nat.dvd_mul_left _ _) divides)
  refine ⟨axis, preSize, majorSize, minorSize, axisSize, rfl, rfl, found, started, several,
    minorSeveral, divides, ?_⟩
  by_cases covers : preSize = 1 ∧ axisSize = majorSize * minorSize
  · refine .inr ⟨covers.1, covers.2, ?_⟩
    simp [join, AxisRef.preSize, AxisRef.axis, size, found, isSize, covers]
  · left
    simp only [join, AxisRef.preSize, AxisRef.axis, size, found, isSize, Option.some.injEq]
    rw [if_neg covers]

theorem Fits.join (adjoins : major.Adjoins minor) (majorFits : major.Fits mesh)
    (minorFits : minor.Fits mesh) : (major.join mesh minor).Fits mesh := by
  obtain ⟨axis, preSize, majorSize, minorSize, axisSize, -, -, found, started, several,
    minorSeveral, divides, isPart | ⟨-, -, isWhole⟩⟩ := join_cases adjoins majorFits minorFits
  · rw [isPart]
    exact ⟨axisSize, found, started, Nat.one_lt_mul_iff.mpr ⟨by omega, by omega, .inl several⟩,
      divides⟩
  · rw [isWhole]
    exact ⟨axisSize, found⟩

/-- What overlaps the joined reference overlaps one of its two parts. -/
theorem overlaps_of_overlaps_join (adjoins : major.Adjoins minor) (majorFits : major.Fits mesh)
    (minorFits : minor.Fits mesh) (otherFits : other.Fits mesh)
    (overlap : other.Overlaps (major.join mesh minor)) :
    other.Overlaps major ∨ other.Overlaps minor := by
  have joinFits := majorFits.join adjoins minorFits
  obtain ⟨axis, preSize, majorSize, minorSize, axisSize, rfl, rfl, found, started, several,
    minorSeveral, divides, covers⟩ := join_cases adjoins majorFits minorFits
  have sameAxis : other.axis = axis := by
    rcases covers with isPart | ⟨-, -, isWhole⟩
    · rw [isPart] at overlap
      exact overlap.axis_eq
    · rw [isWhole] at overlap
      exact overlap.axis_eq
  rw [overlaps_iff_meets otherFits.endsInWord joinFits.endsInWord] at overlap
  rw [overlaps_iff_meets otherFits.endsInWord majorFits.endsInWord,
    overlaps_iff_meets otherFits.endsInWord minorFits.endsInWord]
  cases other with
  | whole otherAxis => exact .inl sameAxis
  | part otherAxis otherPre otherSize =>
    obtain ⟨sameSize, otherFound, otherStarted, otherSeveral, otherDivides⟩ := otherFits
    obtain rfl : otherAxis = axis := sameAxis
    rw [found] at otherFound
    cases otherFound
    have otherLonger : otherPre < otherPre * otherSize :=
      (Nat.lt_mul_iff_one_lt_right otherStarted).mpr otherSeveral
    -- the ranges of the other part and of the joined one meet, whichever form the latter has
    have meets : otherPre < preSize * (majorSize * minorSize) ∧ preSize < otherPre * otherSize := by
      rcases covers with isPart | ⟨rfl, covered, isWhole⟩
      · rw [isPart] at overlap
        exact overlap.2
      · have bounded := Nat.le_of_dvd (Mesh.axisSize?_pos found) otherDivides
        omega
    rw [← Nat.mul_assoc] at meets
    by_cases early : otherPre < preSize * majorSize
    · exact .inl ⟨rfl, early, meets.2⟩
    · exact .inr ⟨rfl, meets.1, Nat.lt_of_le_of_lt (Nat.le_of_not_lt early) otherLonger⟩

/-- What overlaps one of two parts overlaps the joined reference. -/
theorem overlaps_join (adjoins : major.Adjoins minor) (majorFits : major.Fits mesh)
    (minorFits : minor.Fits mesh) (overlap : other.Overlaps major ∨ other.Overlaps minor) :
    other.Overlaps (major.join mesh minor) := by
  have joinFits := majorFits.join adjoins minorFits
  obtain ⟨axis, preSize, majorSize, minorSize, axisSize, rfl, rfl, -, started, several,
    minorSeveral, -, covers⟩ := join_cases adjoins majorFits minorFits
  have sameAxis : other.axis = axis := by
    rcases overlap with overlap | overlap <;> exact overlap.axis_eq
  rcases covers with isPart | ⟨-, -, isWhole⟩
  · rw [isPart] at joinFits ⊢
    cases other with
    | whole otherAxis => exact sameAxis
    | part otherAxis otherPre otherSize =>
      rw [Overlaps, Overlaps, majorFits.wordMul_eq, minorFits.wordMul_eq] at overlap
      rw [Overlaps, joinFits.wordMul_eq]
      have shorter : preSize * majorSize ≤ preSize * (majorSize * minorSize) :=
        Nat.mul_le_mul_left _ (Nat.le_mul_of_pos_right _ (Nat.lt_of_succ_lt minorSeveral))
      rcases overlap with ⟨-, ends, starts⟩ | ⟨-, ends, starts⟩
      · exact ⟨sameAxis, Nat.lt_of_lt_of_le ends shorter, starts⟩
      · have later : preSize ≤ preSize * majorSize :=
          Nat.le_mul_of_pos_right _ (Nat.lt_of_succ_lt several)
        rw [Nat.mul_assoc] at ends
        exact ⟨sameAxis, ends, Nat.lt_of_le_of_lt later starts⟩
  · rw [isWhole]
    exact overlaps_whole_iff.mpr sameAxis

/-- What adjoins the joined reference adjoins the major part. -/
theorem adjoins_of_adjoins_join (adjoins : major.Adjoins minor)
    (joined : other.Adjoins (major.join mesh minor)) : other.Adjoins major := by
  obtain ⟨axis, preSize, majorSize, minorSize, rfl, rfl⟩ := adjoins.exists_parts
  obtain ⟨otherAxis, otherPre, otherSize, size, rfl, isPart⟩ := joined.exists_parts
  rw [join] at isPart
  split at isPart
  · cases isPart
  · cases isPart
    exact ⟨rfl, rfl⟩

/-! ## Cutting what was joined -/

theorem join_eq (mesh : Mesh) (major minor : AxisRef) : major.join mesh minor =
    if major.preSize = 1 ∧
        mesh.axisSize? major.axis = some (wordMul (major.size mesh) (minor.size mesh))
    then .whole major.axis
    else .part major.axis major.preSize (wordMul (major.size mesh) (minor.size mesh)) := rfl

theorem axis_join : (major.join mesh minor).axis = major.axis := by
  rw [join_eq]
  split <;> rfl

theorem preSize_join : (major.join mesh minor).preSize = major.preSize := by
  rw [join_eq]
  split
  · rename_i covers
    exact covers.1.symm
  · rfl

theorem size_join (adjoins : major.Adjoins minor) (majorFits : major.Fits mesh)
    (minorFits : minor.Fits mesh) :
    (major.join mesh minor).size mesh = major.size mesh * minor.size mesh := by
  obtain ⟨axis, preSize, majorSize, minorSize, axisSize, rfl, rfl, found, -, -, -, -,
    isPart | ⟨-, covered, isWhole⟩⟩ := join_cases adjoins majorFits minorFits
  · rw [isPart]
    rfl
  · rw [isWhole, size, found, covered]
    rfl

/-- Cutting the joined reference at the size of the major part gives the two parts again. -/
theorem split_join (adjoins : major.Adjoins minor) (majorFits : major.Fits mesh)
    (minorFits : minor.Fits mesh) :
    (major.join mesh minor).split mesh (major.size mesh) = (major, minor) := by
  rw [split, axis_join, preSize_join, size_join adjoins majorFits minorFits,
    Nat.mul_div_cancel_left _ majorFits.size_pos]
  obtain ⟨axis, preSize, majorSize, minorSize, rfl, rfl⟩ := adjoins.exists_parts
  rfl

/-- A part that adjoins another is followed by something. -/
theorem Fits.one_lt_preSize {first second : AxisRef} (fits : first.Fits mesh)
    (adjoins : first.Adjoins second) : 1 < second.preSize := by
  obtain ⟨axis, preSize, size, nextSize, rfl, rfl⟩ := adjoins.exists_parts
  rw [AxisRef.preSize, fits.wordMul_eq]
  obtain ⟨_, -, started, several, -⟩ := fits
  exact Nat.one_lt_mul_iff.mpr ⟨started, Nat.lt_of_succ_lt several, .inr several⟩

/-- What adjoins a reference is a part with several shards. -/
theorem Fits.one_lt_size {first second : AxisRef} (fits : second.Fits mesh)
    (adjoins : first.Adjoins second) : 1 < second.size mesh := by
  obtain ⟨axis, preSize, size, nextSize, rfl, rfl⟩ := adjoins.exists_parts
  obtain ⟨_, -, -, several, -⟩ := fits
  exact several

/-- The joined reference adjoins what the minor part adjoins. -/
theorem join_adjoins_iff (adjoins : major.Adjoins minor) (majorFits : major.Fits mesh)
    (minorFits : minor.Fits mesh) (otherFits : other.Fits mesh) :
    (major.join mesh minor).Adjoins other ↔ minor.Adjoins other := by
  obtain ⟨axis, preSize, majorSize, minorSize, axisSize, rfl, rfl, found, started, several,
    minorSeveral, -, covers⟩ := join_cases adjoins majorFits minorFits
  cases other with
  | whole otherAxis =>
    refine iff_of_false ?_ id
    cases (part axis preSize majorSize).join mesh (part axis (preSize * majorSize) minorSize) <;>
      exact id
  | part otherAxis otherPre otherSize =>
    rcases covers with isPart | ⟨rfl, covered, isWhole⟩
    · rw [isPart]
      simp only [Adjoins, wordMul, Nat.mul_assoc]
    · -- the two parts cover the axis, and nothing comes after it
      rw [isWhole]
      refine iff_of_false id ?_
      rintro ⟨rfl, ends⟩
      rw [minorFits.wordMul_eq] at ends
      obtain ⟨otherAxisSize, otherFound, otherStarted, otherSeveral, divides⟩ := otherFits
      rw [found] at otherFound
      cases otherFound
      have bounded := Nat.le_of_dvd (Mesh.axisSize?_pos found) divides
      have longer : otherPre < otherPre * otherSize :=
        (Nat.lt_mul_iff_one_lt_right otherStarted).mpr otherSeveral
      rw [Nat.one_mul, ← covered] at ends
      omega

/-- What adjoins the major part adjoins the joined reference. -/
theorem adjoins_join (fits : other.Fits mesh) (before : other.Adjoins major)
    (adjoins : major.Adjoins minor) : other.Adjoins (major.join mesh minor) := by
  have started := fits.one_lt_preSize before
  rw [join_eq, if_neg fun covers => Nat.ne_of_gt started covers.1]
  obtain ⟨axis, otherPre, otherSize, majorSize, rfl, rfl⟩ := before.exists_parts
  exact ⟨rfl, rfl⟩

/-- Three parts in a row are joined in either order. -/
theorem join_assoc {first second third : AxisRef} (firstFits : first.Fits mesh)
    (secondFits : second.Fits mesh) (thirdFits : third.Fits mesh)
    (adjoins : first.Adjoins second) (adjoinsNext : second.Adjoins third) :
    (first.join mesh second).join mesh third = first.join mesh (second.join mesh third) := by
  have sameSize : wordMul ((first.join mesh second).size mesh) (third.size mesh) =
      wordMul (first.size mesh) ((second.join mesh third).size mesh) := by
    rw [size_join adjoins firstFits secondFits, size_join adjoinsNext secondFits thirdFits,
      wordMul, wordMul, Nat.mul_assoc]
  rw [join_eq mesh (first.join mesh second), axis_join, preSize_join, sameSize, ← join_eq]

end Join

end AxisRef

end MeshSharding
