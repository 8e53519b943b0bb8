import MeshSharding.Projection.Factors
import MeshSharding.Proofs.Axis.Shards
import MeshSharding.Proofs.Sharding.Suits

/-!
# Handing out axes

Reading a sharding hands the axes of its dimensions out to factors. Nothing is
lost and nothing is added: what a factor takes, followed by what waits, is a
refinement of what there was (`takeShare_spec`), so the axes and the overflow of
all factors of a tensor suit the mesh together when the dimensions of the
sharding do, and reach no further (`tensorEntries_spec`).

Reading fails only at a reference without shards, and none of those that fit the
mesh is.
-/

set_option autoImplicit false

namespace MeshSharding

open AxisSequence (Suits Within Refines)

variable {mesh : Mesh}

/-! ## The share of one factor -/

/-- How a share of axes comes about: references are taken as long as their sizes divide what
remains, and the first that does not may be cut. -/
inductive Takes (mesh : Mesh) : Nat → AxisSequence → Share → Prop where
  | stop {remaining : Nat} {axes : AxisSequence}
    (stops : takeShare mesh remaining axes = .ok ⟨[], remaining, axes⟩) :
    Takes mesh remaining axes ⟨[], remaining, axes⟩
  | keep {remaining : Nat} {reference : AxisRef} {rest : AxisSequence} {later : Share}
    (unfilled : 1 < remaining) (positive : 0 < reference.size mesh)
    (divides : reference.size mesh ∣ remaining)
    (takes : Takes mesh (remaining / reference.size mesh) rest later) :
    Takes mesh remaining (reference :: rest) { later with taken := reference :: later.taken }
  | cut {remaining : Nat} {reference : AxisRef} {rest : AxisSequence} (unfilled : 1 < remaining)
    (positive : 0 < reference.size mesh) (indivisible : ¬ reference.size mesh ∣ remaining)
    (several : 1 < Nat.gcd remaining (reference.size mesh)) :
    Takes mesh remaining (reference :: rest)
      ⟨[(reference.split mesh (Nat.gcd remaining (reference.size mesh))).1],
        remaining / Nat.gcd remaining (reference.size mesh),
        (reference.split mesh (Nat.gcd remaining (reference.size mesh))).2 :: rest⟩

/-- A factor that is used up takes nothing. -/
theorem takeShare_full {remaining : Nat} (full : remaining ≤ 1) (axes : AxisSequence) :
    takeShare mesh remaining axes = .ok ⟨[], remaining, axes⟩ := by
  cases axes with
  | nil => rfl
  | cons reference rest => simp only [takeShare, full, if_true]

theorem takeShare_keep {remaining : Nat} {reference : AxisRef} {rest : AxisSequence} {later : Share}
    (unfilled : 1 < remaining) (positive : 0 < reference.size mesh)
    (divides : reference.size mesh ∣ remaining)
    (isOk : takeShare mesh (remaining / reference.size mesh) rest = .ok later) :
    takeShare mesh remaining (reference :: rest) =
      .ok { later with taken := reference :: later.taken } := by
  simp only [takeShare, Nat.not_le.mpr unfilled, Nat.ne_of_gt positive, divides, isOk, if_true,
    if_false, ok_bind]
  rfl

theorem takeShare_cut {remaining : Nat} {reference : AxisRef} (rest : AxisSequence)
    (unfilled : 1 < remaining) (positive : 0 < reference.size mesh)
    (indivisible : ¬ reference.size mesh ∣ remaining)
    (several : 1 < Nat.gcd remaining (reference.size mesh)) :
    takeShare mesh remaining (reference :: rest) =
      .ok ⟨[(reference.split mesh (Nat.gcd remaining (reference.size mesh))).1],
        remaining / Nat.gcd remaining (reference.size mesh),
        (reference.split mesh (Nat.gcd remaining (reference.size mesh))).2 :: rest⟩ := by
  simp only [takeShare, Nat.not_le.mpr unfilled, Nat.ne_of_gt positive, indivisible, several,
    if_true, if_false]

/-- The shares that are handed out are those that come about in this way. -/
theorem takes_iff {axes : AxisSequence} {remaining : Nat} {share : Share} :
    Takes mesh remaining axes share ↔ takeShare mesh remaining axes = .ok share := by
  constructor
  · intro takes
    induction takes with
    | stop stops => exact stops
    | keep unfilled positive divides takes ih =>
      exact takeShare_keep unfilled positive divides ih
    | cut unfilled positive indivisible several =>
      exact takeShare_cut _ unfilled positive indivisible several
  · intro isOk
    induction axes generalizing remaining share with
    | nil =>
      cases isOk
      exact .stop rfl
    | cons reference rest ih =>
      by_cases full : remaining ≤ 1
      · rw [takeShare_full full] at isOk
        cases isOk
        exact .stop (takeShare_full full _)
      · have unfilled : 1 < remaining := Nat.lt_of_not_le full
        by_cases zero : reference.size mesh = 0
        · simp only [takeShare, full, zero, if_true, if_false] at isOk
          cases isOk
        · have positive : 0 < reference.size mesh := Nat.pos_of_ne_zero zero
          by_cases divisible : reference.size mesh ∣ remaining
          · simp only [takeShare, full, zero, divisible, if_true, if_false] at isOk
            obtain ⟨later, laterOk, isShare⟩ := bind_eq_ok_iff.mp isOk
            cases isShare
            exact .keep unfilled positive divisible (ih laterOk)
          · by_cases several : 1 < Nat.gcd remaining (reference.size mesh)
            · rw [takeShare_cut rest unfilled positive divisible several] at isOk
              cases isOk
              exact .cut unfilled positive divisible several
            · have stops : takeShare mesh remaining (reference :: rest) =
                  .ok ⟨[], remaining, reference :: rest⟩ := by
                simp only [takeShare, full, zero, divisible, several, if_false]
              rw [stops] at isOk
              cases isOk
              exact .stop stops

/-- A factor that takes all of a sequence takes its head and all of the rest. -/
theorem takeShare_cons_whole {size left : Nat} {reference : AxisRef} {others : AxisSequence}
    (taken : takeShare mesh size (reference :: others) = .ok ⟨reference :: others, left, []⟩) :
    1 < size ∧ 0 < reference.size mesh ∧ reference.size mesh ∣ size ∧
      takeShare mesh (size / reference.size mesh) others = .ok ⟨others, left, []⟩ := by
  generalize isShare : (⟨reference :: others, left, []⟩ : Share) = share at taken
  cases takes_iff.mpr taken with
  | stop stops => cases isShare
  | @keep _ _ _ later unfilled positive divides takes =>
    cases later
    cases isShare
    exact ⟨unfilled, positive, divides, takes_iff.mp takes⟩
  | cut unfilled positive indivisible several =>
    exact absurd (congrArg Share.pending isShare).symm (List.cons_ne_nil _ _)

/-- References with shards can be handed out. -/
theorem exists_share {axes : AxisSequence} (positive : ∀ reference ∈ axes, 0 < reference.size mesh)
    (remaining : Nat) : ∃ share, takeShare mesh remaining axes = .ok share := by
  induction axes generalizing remaining with
  | nil => exact ⟨_, rfl⟩
  | cons reference rest ih =>
    obtain ⟨headPositive, restPositive⟩ := List.forall_mem_cons.mp positive
    by_cases full : remaining ≤ 1
    · exact ⟨_, takeShare_full full _⟩
    · have unfilled : 1 < remaining := Nat.lt_of_not_le full
      by_cases divisible : reference.size mesh ∣ remaining
      · obtain ⟨later, laterOk⟩ := ih restPositive (remaining / reference.size mesh)
        exact ⟨_, takeShare_keep unfilled headPositive divisible laterOk⟩
      · by_cases several : 1 < Nat.gcd remaining (reference.size mesh)
        · exact ⟨_, takeShare_cut rest unfilled headPositive divisible several⟩
        · simp only [takeShare, full, Nat.ne_of_gt headPositive, divisible, several, if_false]
          exact ⟨_, rfl⟩

/-- What is taken, followed by a refinement of what waits, refines the axes handed out, and if
nothing waits all of them are taken. -/
structure Share.PartOf (mesh : Mesh) (axes : AxisSequence) (share : Share) : Prop where
  refines : ∀ {fine : AxisSequence}, Refines mesh share.pending fine →
    Refines mesh axes (share.taken ++ fine)
  taken_eq : share.pending = [] → share.taken = axes

/-- A part of a reference that neither divides what remains nor is coprime to it. -/
theorem gcd_properly_divides {remaining size : Nat} (positive : 0 < size)
    (indivisible : ¬ size ∣ remaining) :
    Nat.gcd remaining size < size ∧ Nat.gcd remaining size ∣ size := by
  have divides := Nat.gcd_dvd_right remaining size
  refine ⟨Nat.lt_of_le_of_ne (Nat.le_of_dvd positive divides) fun same => indivisible ?_, divides⟩
  rw [← same]
  exact Nat.gcd_dvd_left remaining size

/-- A factor takes axes only if more than one remains of its size. -/
theorem Takes.one_lt {axes : AxisSequence} {remaining : Nat} {share : Share}
    (takes : Takes mesh remaining axes share) (some : share.taken ≠ []) : 1 < remaining := by
  cases takes with
  | stop stops => exact absurd rfl some
  | keep unfilled positive divides takes => exact unfilled
  | cut unfilled positive indivisible several => exact unfilled

theorem Takes.partOf {axes : AxisSequence} {remaining : Nat} {share : Share}
    (takes : Takes mesh remaining axes share) : share.PartOf mesh axes := by
  induction takes with
  | stop stops => exact ⟨fun refines => refines, fun nothing => nothing.symm⟩
  | @keep remaining reference rest later unfilled positive divides takes ih =>
    exact ⟨fun refines => .keep reference (ih.refines refines),
      fun nothing => congrArg (reference :: ·) (ih.taken_eq nothing)⟩
  | @cut remaining reference rest unfilled positive indivisible several =>
    obtain ⟨proper, divides⟩ := gcd_properly_divides positive indivisible
    exact ⟨fun refines => .cut reference _ several proper divides refines,
      fun nothing => absurd nothing (List.cons_ne_nil _ _)⟩

theorem takeShare_spec {axes : AxisSequence}
    (positive : ∀ reference ∈ axes, 0 < reference.size mesh) (remaining : Nat) :
    ∃ share, takeShare mesh remaining axes = .ok share ∧ share.PartOf mesh axes := by
  obtain ⟨share, isOk⟩ := exists_share positive remaining
  exact ⟨share, isOk, (takes_iff.mpr isOk).partOf⟩

/-- A factor that takes all of a sequence takes all of what begins it. -/
theorem takeShare_prefix {axes shorter : AxisSequence} {remaining : Nat} {share : Share}
    (isOk : takeShare mesh remaining axes = .ok share) (nothing : share.pending = [])
    (begins : shorter <+: axes) :
    ∃ left, takeShare mesh remaining shorter = .ok ⟨shorter, left, []⟩ := by
  have takes := takes_iff.mpr isOk
  clear isOk
  induction takes generalizing shorter with
  | @stop remaining axes stops =>
    cases nothing
    rw [List.prefix_nil.mp begins]
    exact ⟨remaining, rfl⟩
  | @keep remaining reference rest later unfilled positive divides takes ih =>
    cases shorter with
    | nil => exact ⟨remaining, rfl⟩
    | cons first others =>
      obtain ⟨rfl, othersBegin⟩ := List.cons_prefix_cons.mp begins
      obtain ⟨left, taken⟩ := ih nothing othersBegin
      exact ⟨left, takeShare_keep unfilled positive divides taken⟩
  | cut unfilled positive indivisible several => cases nothing

/-! ## The factors of a dimension -/

/-- The axes and the overflow of a factor. -/
def FactorSharding.allAxes (sharding : FactorSharding) : AxisSequence :=
  sharding.axes ++ sharding.overflow

/-- The references of sequences that suit the mesh have shards. -/
theorem Suits.size_pos {axes : AxisSequence} (suits : Suits mesh axes) :
    ∀ reference ∈ axes, 0 < reference.size mesh :=
  fun reference member => (suits.fits reference member).size_pos

variable {sizes : List Nat}

/-- The first factor of a dimension has a size and takes its share, and the others go on with what
then waits. A factor that is the last one or has room left keeps the waiting axes, and leaves nothing
to go on with. -/
theorem dimEntries_cons_eq_ok {factor : Nat} {rest : DimMapping} {pending : AxisSequence}
    {isClosed : Bool} {entries : List (Nat × FactorSharding)}
    (isOk : dimEntries mesh sizes isClosed pending (factor :: rest) = .ok entries) :
    ∃ size share later, sizes[factor]? = some size ∧ takeShare mesh size pending = .ok share ∧
      dimEntries mesh sizes isClosed
        (if rest.isEmpty || decide (1 < share.remaining) then [] else share.pending) rest =
          .ok later ∧
      entries = (factor, ⟨share.taken,
        if rest.isEmpty || decide (1 < share.remaining) then share.pending else [],
        isClosed, rest.isEmpty⟩) :: later := by
  rw [dimEntries] at isOk
  split at isOk
  · cases isOk
  · rename_i size isSize
    obtain ⟨share, taken, chain⟩ := bind_eq_ok_iff.mp isOk
    obtain ⟨later, laterOk, isEntries⟩ := bind_eq_ok_iff.mp chain
    cases isEntries
    exact ⟨size, share, later, isSize, taken, laterOk, rfl⟩

/-- There is one entry for each factor of a dimension, in order. -/
theorem factors_of_dimEntries {mapping : DimMapping} {pending : AxisSequence} {isClosed : Bool}
    {entries : List (Nat × FactorSharding)}
    (isOk : dimEntries mesh sizes isClosed pending mapping = .ok entries) :
    entries.map Prod.fst = mapping := by
  induction mapping generalizing pending entries with
  | nil =>
    cases isOk
    rfl
  | cons factor rest ih =>
    obtain ⟨size, share, later, -, -, laterOk, rfl⟩ := dimEntries_cons_eq_ok isOk
    rw [List.map_cons, ih laterOk]

/-- Every factor of a dimension has the axes that it takes from some. -/
theorem takes_of_dimEntries {mapping : DimMapping} {pending : AxisSequence} {isClosed : Bool}
    {entries : List (Nat × FactorSharding)}
    (isOk : dimEntries mesh sizes isClosed pending mapping = .ok entries) :
    ∀ entry ∈ entries, ∃ size axes share, sizes[entry.1]? = some size ∧
      Takes mesh size axes share ∧ entry.2.axes = share.taken := by
  induction mapping generalizing pending entries with
  | nil =>
    cases isOk
    exact fun _ member => absurd member List.not_mem_nil
  | cons factor rest ih =>
    obtain ⟨size, share, later, isSize, taken, laterOk, rfl⟩ := dimEntries_cons_eq_ok isOk
    exact List.forall_mem_cons.mpr
      ⟨⟨size, pending, share, isSize, takes_iff.mpr taken, rfl⟩, ih laterOk⟩

/-- The factors of a dimension that has some get refinements of its axes. -/
theorem dimEntries_spec {mapping : DimMapping} {pending : AxisSequence} (isClosed : Bool)
    (suits : Suits mesh pending) (declared : ∀ factor ∈ mapping, factor < sizes.length) :
    ∃ entries, dimEntries mesh sizes isClosed pending mapping = .ok entries ∧
      (mapping ≠ [] → Refines mesh pending (entries.flatMap fun entry => entry.2.allAxes)) := by
  induction mapping generalizing pending with
  | nil => exact ⟨[], rfl, fun someFactor => absurd rfl someFactor⟩
  | cons factor rest ih =>
    obtain ⟨below, restBelow⟩ := List.forall_mem_cons.mp declared
    obtain ⟨share, taken, part⟩ := takeShare_spec (Suits.size_pos suits) sizes[factor]
    have pendingSuits : Suits mesh share.pending :=
      (AxisSequence.suits_append_iff.mp (suits.of_refines (part.refines (.refl _))).1).2.1
    rw [dimEntries, List.getElem?_eq_getElem below]
    simp only [taken, ok_bind]
    by_cases keeps : (rest.isEmpty || decide (1 < share.remaining)) = true
    · obtain ⟨later, laterOk, laterRefines⟩ := ih AxisSequence.suits_nil restBelow
      have laterNothing : (later.flatMap fun entry => entry.2.allAxes) = [] := by
        by_cases last : rest = []
        · have laterFactors := factors_of_dimEntries laterOk
          rw [last] at laterFactors
          rw [List.map_eq_nil_iff.mp laterFactors, List.flatMap_nil]
        · generalize later.flatMap (fun entry => entry.2.allAxes) = nothing at laterRefines
          cases laterRefines last
          rfl
      refine ⟨_, by simp only [keeps, if_true, laterOk, ok_bind]; rfl, ?_⟩
      intro _
      rw [List.flatMap_cons, laterNothing, List.append_nil]
      exact part.refines (.refl _)
    · obtain ⟨later, laterOk, laterRefines⟩ := ih pendingSuits restBelow
      have someFactor : rest ≠ [] := by
        rintro rfl
        exact keeps rfl
      refine ⟨_, by simp only [keeps, if_false, Bool.false_eq_true, laterOk, ok_bind]; rfl, ?_⟩
      intro _
      rw [List.flatMap_cons, FactorSharding.allAxes, List.append_nil]
      exact part.refines (laterRefines someFactor)

/-- Factors of a dimension without axes get none. -/
theorem dimEntries_nil {isClosed : Bool} {mapping : DimMapping}
    {entries : List (Nat × FactorSharding)}
    (isOk : dimEntries mesh sizes isClosed [] mapping = .ok entries) :
    ∀ entry ∈ entries, entry.2.axes = [] ∧ entry.2.overflow = [] := by
  induction mapping generalizing entries with
  | nil =>
    cases isOk
    exact fun _ member => absurd member List.not_mem_nil
  | cons factor rest ih =>
    obtain ⟨size, share, later, -, taken, laterOk, rfl⟩ := dimEntries_cons_eq_ok isOk
    cases taken
    simp only [ite_self] at laterOk
    refine List.forall_mem_cons.mpr ⟨⟨rfl, ?_⟩, ih laterOk⟩
    simp only [ite_self]

/-! ## The factors of a tensor -/

/-- There is one entry for each factor of a mapping, in order. -/
theorem factors_of_tensorEntries {mapping : TensorMapping} {dims : List DimSharding}
    {entries : List (Nat × FactorSharding)}
    (isOk : tensorEntries mesh sizes dims mapping = .ok entries) :
    entries.map Prod.fst = mapping.factors := by
  induction mapping generalizing dims entries with
  | nil =>
    cases isOk
    rfl
  | cons factors rest ih =>
    obtain ⟨first, firstOk, chain⟩ := bind_eq_ok_iff.mp isOk
    obtain ⟨later, laterOk, isEntries⟩ := bind_eq_ok_iff.mp chain
    cases isEntries
    rw [List.map_append, factors_of_dimEntries firstOk, ih laterOk]
    rfl

/-- The dimensions of a tensor are read one by one. -/
theorem dimEntries_of_tensorEntries {mapping : TensorMapping} {dims : List DimSharding}
    {entries : List (Nat × FactorSharding)}
    (isOk : tensorEntries mesh sizes dims mapping = .ok entries) {index : Nat} {dim : DimMapping}
    (isDim : mapping[index]? = some dim) :
    ∃ own, dimEntries mesh sizes (dims[index]?.getD .openEmpty).isClosed
        (dims[index]?.getD .openEmpty).axes dim = .ok own ∧ own ⊆ entries := by
  induction mapping generalizing dims entries index with
  | nil => cases isDim
  | cons factors rest ih =>
    obtain ⟨first, firstOk, chain⟩ := bind_eq_ok_iff.mp isOk
    obtain ⟨later, laterOk, isEntries⟩ := bind_eq_ok_iff.mp chain
    cases isEntries
    cases index with
    | zero =>
      cases isDim
      rw [List.head?_eq_getElem?] at firstOk
      exact ⟨first, firstOk, List.subset_append_left _ _⟩
    | succ index =>
      obtain ⟨own, ownOk, within⟩ := ih laterOk isDim
      rw [List.getElem?_tail] at ownOk
      exact ⟨own, ownOk, List.subset_append_of_subset_right _ within⟩

/-- An entry of a tensor comes from one of its dimensions. -/
theorem mem_tensorEntries {mapping : TensorMapping} {dims : List DimSharding}
    {entries : List (Nat × FactorSharding)}
    (isOk : tensorEntries mesh sizes dims mapping = .ok entries) {entry : Nat × FactorSharding}
    (member : entry ∈ entries) :
    ∃ (index : Nat) (dim : DimMapping) (own : List (Nat × FactorSharding)),
      mapping[index]? = some dim ∧ dimEntries mesh sizes (dims[index]?.getD .openEmpty).isClosed
        (dims[index]?.getD .openEmpty).axes dim = .ok own ∧ entry ∈ own := by
  induction mapping generalizing dims entries with
  | nil =>
    cases isOk
    exact absurd member List.not_mem_nil
  | cons factors rest ih =>
    obtain ⟨first, firstOk, chain⟩ := bind_eq_ok_iff.mp isOk
    obtain ⟨later, laterOk, isEntries⟩ := bind_eq_ok_iff.mp chain
    cases isEntries
    rcases List.mem_append.mp member with inFirst | inLater
    · rw [List.head?_eq_getElem?] at firstOk
      exact ⟨0, factors, first, rfl, firstOk, inFirst⟩
    · obtain ⟨index, dim, own, isDim, ownOk, inOwn⟩ := ih laterOk inLater
      rw [List.getElem?_tail] at ownOk
      exact ⟨index + 1, dim, own, isDim, ownOk, inOwn⟩

/-- **What is read off a tensor reaches no further than its sharding.** Dimensions that the sharding
does not have, and those that the mapping does not have, play no part. -/
theorem tensorEntries_spec {mapping : TensorMapping} {dims : List DimSharding}
    (suits : Suits mesh (dims.flatMap DimSharding.axes))
    (declared : ∀ factor ∈ mapping.factors, factor < sizes.length) :
    ∃ entries, tensorEntries mesh sizes dims mapping = .ok entries ∧
      Suits mesh (entries.flatMap fun entry => entry.2.allAxes) ∧
      Within mesh (entries.flatMap fun entry => entry.2.allAxes)
        (dims.flatMap DimSharding.axes) := by
  induction mapping generalizing dims with
  | nil =>
    refine ⟨[], rfl, AxisSequence.suits_nil, ?_⟩
    rintro reference - ⟨own, member, -⟩
    exact absurd member List.not_mem_nil
  | cons factors rest ih =>
    -- a missing dimension reads as one without axes
    have first : dims.flatMap DimSharding.axes =
        (dims.head?.getD .openEmpty).axes ++ dims.tail.flatMap DimSharding.axes := by
      cases dims <;> rfl
    rw [first] at suits ⊢
    obtain ⟨dimSuits, restSuits, -⟩ := AxisSequence.suits_append_iff.mp suits
    have both : ∀ factor ∈ factors ++ TensorMapping.factors rest, factor < sizes.length := declared
    obtain ⟨dimDeclared, restDeclared⟩ := List.forall_mem_append.mp both
    obtain ⟨entries, entriesOk, refines⟩ :=
      dimEntries_spec (dims.head?.getD .openEmpty).isClosed dimSuits dimDeclared
    obtain ⟨later, laterOk, laterSuits, laterWithin⟩ := ih restSuits restDeclared
    have entriesSuit : Suits mesh (entries.flatMap fun entry => entry.2.allAxes) ∧
        Within mesh (entries.flatMap fun entry => entry.2.allAxes)
          (dims.head?.getD .openEmpty).axes := by
      by_cases none : factors = []
      · have entriesFactors := factors_of_dimEntries entriesOk
        rw [none] at entriesFactors
        rw [List.map_eq_nil_iff.mp entriesFactors]
        refine ⟨AxisSequence.suits_nil, ?_⟩
        rintro reference - ⟨own, member, -⟩
        exact absurd member List.not_mem_nil
      · exact dimSuits.of_refines (refines none)
    refine ⟨entries ++ later, ?_, ?_, ?_⟩
    · simp only [tensorEntries, entriesOk, laterOk]
      rfl
    · rw [List.flatMap_append]
      exact (suits.replace_front entriesSuit.1 entriesSuit.2).replace_back laterSuits laterWithin
    · rw [List.flatMap_append]
      exact entriesSuit.2.append laterWithin

/-! ## Slots -/

theorem length_filledSlots (count : Nat) (entries : List (Nat × FactorSharding)) :
    (filledSlots count entries).length = count := by
  have keeps : ∀ slots : List (Option FactorSharding),
      (entries.foldl (fun slots entry => slots.set entry.1 (some entry.2)) slots).length =
        slots.length := by
    induction entries with
    | nil => exact fun _ => rfl
    | cons entry rest ih => exact fun slots => (ih _).trans (List.length_set ..)
  rw [filledSlots, keeps, List.length_replicate]

/-- If no factor has two entries, the slot of a factor holds its entry. -/
theorem filledSlots_eq_some_iff {count : Nat} {entries : List (Nat × FactorSharding)}
    (distinct : (entries.map Prod.fst).Nodup) (below : ∀ entry ∈ entries, entry.1 < count)
    {factor : Nat} {sharding : FactorSharding} :
    (filledSlots count entries)[factor]?.join = some sharding ↔ (factor, sharding) ∈ entries := by
  -- generalized to slots that some earlier entries have filled
  have fill : ∀ slots : List (Option FactorSharding), slots.length = count →
      ((entries.foldl (fun slots entry => slots.set entry.1 (some entry.2)) slots)[factor]?.join =
          some sharding ↔
        (factor, sharding) ∈ entries ∨
          factor ∉ entries.map Prod.fst ∧ slots[factor]?.join = some sharding) := by
    induction entries with
    | nil => simp
    | cons entry rest ih =>
      intro slots length
      obtain ⟨absent, restDistinct⟩ := List.nodup_cons.mp distinct
      obtain ⟨entryBelow, restBelow⟩ := List.forall_mem_cons.mp below
      rw [List.foldl_cons, ih restDistinct restBelow _ (by rw [List.length_set, length])]
      obtain ⟨own, ownSharding⟩ := entry
      by_cases same : own = factor
      · subst same
        have notLater : (own, sharding) ∉ rest := fun later =>
          absent (List.mem_map.mpr ⟨_, later, rfl⟩)
        have isSet : (slots.set own (some ownSharding))[own]?.join = some ownSharding := by
          rw [List.getElem?_set_self (by rw [length]; exact entryBelow)]
          rfl
        simp [isSet, notLater, absent, eq_comm]
      · have differ : factor ≠ own := fun equal => same equal.symm
        rw [List.getElem?_set_ne same]
        simp [differ]
  rw [filledSlots, fill _ List.length_replicate]
  refine or_iff_left ?_
  rintro ⟨-, found⟩
  rw [List.getElem?_replicate] at found
  split at found <;> simp at found

/-- What the slot of a factor holds is one of its entries. -/
theorem mem_of_filledSlots {count : Nat} {entries : List (Nat × FactorSharding)} {factor : Nat}
    {sharding : FactorSharding}
    (found : (filledSlots count entries)[factor]?.join = some sharding) :
    (factor, sharding) ∈ entries := by
  have fill : ∀ slots : List (Option FactorSharding),
      (entries.foldl (fun slots entry => slots.set entry.1 (some entry.2)) slots)[factor]?.join =
          some sharding →
        (factor, sharding) ∈ entries ∨ slots[factor]?.join = some sharding := by
    clear found
    induction entries with
    | nil => exact fun _ found => .inr found
    | cons entry rest ih =>
      intro slots found
      rcases ih _ found with later | before
      · exact .inl (List.mem_cons_of_mem _ later)
      · rw [List.getElem?_set] at before
        by_cases same : entry.1 = factor
        · rw [if_pos same] at before
          split at before
          · cases before
            subst same
            exact .inl List.mem_cons_self
          · cases before
        · rw [if_neg same] at before
          exact .inr before
  refine (fill _ found).resolve_right ?_
  rw [List.getElem?_replicate]
  split <;> simp

/-! ## Tensors -/

namespace TensorProjection

/-- The tensor has a slot for every factor, those of a mapping are filled, and the axes and the
overflow of each suit the mesh. -/
structure Along (mesh : Mesh) (factorCount : Nat) (mapping : TensorMapping)
    (tensor : TensorProjection) : Prop where
  count : tensor.slots.length = factorCount
  isSome_iff : ∀ factor, (tensor.factor? factor).isSome ↔ factor ∈ mapping.factors
  suits : ∀ factor sharding, tensor.factor? factor = some sharding → Suits mesh sharding.allAxes

/-- What is read off a sharding is what its entries say. -/
theorem ofSharding_eq_ok_iff {mapping : TensorMapping} {sharding : Option TensorSharding}
    {tensor : TensorProjection} :
    TensorProjection.ofSharding mesh sizes mapping sharding = .ok tensor ↔
      ∃ entries, tensorEntries mesh sizes ((sharding.map TensorSharding.dims).getD []) mapping =
          .ok entries ∧
        tensor = ⟨filledSlots sizes.length entries,
          (sharding.map TensorSharding.replicated).getD []⟩ := by
  rw [ofSharding, bind_eq_ok_iff]
  constructor
  · rintro ⟨entries, entriesOk, isOk⟩
    cases isOk
    exact ⟨entries, entriesOk, rfl⟩
  · rintro ⟨entries, entriesOk, rfl⟩
    exact ⟨entries, entriesOk, rfl⟩

/-- Along a mapping that uses no factor twice, a factor is found exactly where it has an entry. -/
theorem factor?_eq_some_iff {mapping : TensorMapping} {dims : List DimSharding}
    {entries : List (Nat × FactorSharding)} {replicated : AxisSequence}
    (isOk : tensorEntries mesh sizes dims mapping = .ok entries)
    (declared : ∀ factor ∈ mapping.factors, factor < sizes.length)
    (distinct : mapping.factors.Nodup) {factor : Nat} {sharding : FactorSharding} :
    TensorProjection.factor? ⟨filledSlots sizes.length entries, replicated⟩ factor =
      some sharding ↔ (factor, sharding) ∈ entries := by
  rw [← factors_of_tensorEntries isOk] at declared distinct
  exact filledSlots_eq_some_iff distinct (List.forall_mem_map.mp declared)

/-- What is found for a factor is its entry. -/
def HasEntries (tensor : TensorProjection) (entries : List (Nat × FactorSharding)) : Prop :=
  ∀ entry : Nat × FactorSharding, tensor.factor? entry.1 = some entry.2 ↔ entry ∈ entries

theorem hasEntries_filledSlots {mapping : TensorMapping} {dims : List DimSharding}
    {entries : List (Nat × FactorSharding)} (replicated : AxisSequence)
    (isOk : tensorEntries mesh sizes dims mapping = .ok entries)
    (declared : ∀ factor ∈ mapping.factors, factor < sizes.length)
    (distinct : mapping.factors.Nodup) :
    HasEntries ⟨filledSlots sizes.length entries, replicated⟩ entries :=
  fun _ => factor?_eq_some_iff isOk declared distinct

/-- The factors that the tensor maps are those of the entries. -/
theorem HasEntries.isSome_iff {tensor : TensorProjection} {entries : List (Nat × FactorSharding)}
    (has : tensor.HasEntries entries) {factor : Nat} :
    (tensor.factor? factor).isSome ↔ factor ∈ entries.map Prod.fst := by
  rw [Option.isSome_iff_exists, List.mem_map]
  constructor
  · rintro ⟨sharding, found⟩
    exact ⟨(factor, sharding), (has (factor, sharding)).mp found, rfl⟩
  · rintro ⟨entry, member, rfl⟩
    exact ⟨entry.2, (has entry).mpr member⟩

/-- A tensor that suits the mesh can be read along any mapping. -/
theorem exists_ofSharding {mapping : TensorMapping} {sharding : Option TensorSharding}
    (suits : Suits mesh (((sharding.map TensorSharding.dims).getD []).flatMap DimSharding.axes))
    (declared : ∀ factor ∈ mapping.factors, factor < sizes.length) :
    ∃ tensor, TensorProjection.ofSharding mesh sizes mapping sharding = .ok tensor := by
  obtain ⟨entries, entriesOk, -⟩ := tensorEntries_spec suits declared
  exact ⟨_, ofSharding_eq_ok_iff.mpr ⟨entries, entriesOk, rfl⟩⟩

/-- Along a mapping that uses no factor twice, exactly the factors of the mapping are read off a
tensor that suits the mesh. -/
theorem ofSharding_spec {mapping : TensorMapping} {sharding : Option TensorSharding}
    (suits : Suits mesh (((sharding.map TensorSharding.dims).getD []).flatMap DimSharding.axes))
    (declared : ∀ factor ∈ mapping.factors, factor < sizes.length)
    (distinct : mapping.factors.Nodup) :
    ∃ tensor, TensorProjection.ofSharding mesh sizes mapping sharding = .ok tensor ∧
      tensor.Along mesh sizes.length mapping := by
  obtain ⟨entries, entriesOk, entriesSuit, -⟩ := tensorEntries_spec suits declared
  have has := hasEntries_filledSlots ((sharding.map TensorSharding.replicated).getD []) entriesOk
    declared distinct
  refine ⟨_, ofSharding_eq_ok_iff.mpr ⟨entries, entriesOk, rfl⟩, length_filledSlots _ _, ?_,
    ?_⟩
  · intro factor
    rw [has.isSome_iff, factors_of_tensorEntries entriesOk]
  · intro factor factorSharding found
    have member := (has (factor, factorSharding)).mp found
    exact (AxisSequence.suits_flatMap_iff.mp entriesSuit).1 _ member

end TensorProjection

end MeshSharding
