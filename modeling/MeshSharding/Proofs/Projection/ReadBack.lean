import MeshSharding.Proofs.Axis.Rejoined
import MeshSharding.Proofs.Projection.Shares

/-!
# Reading back what was written

A dimension is written as the axes of its factors, one after the other and with
adjoining parts joined, and it is read by handing axes out from the front. What a
factor has taken from some dimension is merged, and the factor takes all of it
when it is offered it again (`takenWhole_of_tensorEntries`). With other axes
behind it, the factor stops at the border if it is used up there: then it cuts
off its own part even where that has been joined with the next
(`takeShare_joined`).

So a written dimension is read back with the axes it was written from exactly
when every factor in front of one with axes is used up by its own axes
(`dimEntries_of_filled`, `filled_of_dimEntries`).
-/

set_option autoImplicit false

namespace MeshSharding

open AxisSequence (Suits Merged joined joinedAfter)

variable {mesh : Mesh}

/-! ## What a factor has taken -/

/-- The axes are merged, and a factor of the given size takes all of them. -/
structure TakenWhole (mesh : Mesh) (size : Nat) (axes : AxisSequence) : Prop where
  merged : Merged axes
  all : ∃ left, takeShare mesh size axes = .ok ⟨axes, left, []⟩

theorem takenWhole_nil (mesh : Mesh) (size : Nat) : TakenWhole mesh size [] :=
  ⟨.nil, size, rfl⟩

theorem TakenWhole.of_begins {size : Nat} {axes shorter : AxisSequence}
    (whole : TakenWhole mesh size axes) (begins : shorter <+: axes) :
    TakenWhole mesh size shorter := by
  obtain ⟨merged, left, taken⟩ := whole
  exact ⟨merged.of_isPrefix begins, takeShare_prefix taken rfl begins⟩

namespace Takes

variable {remaining : Nat} {axes : AxisSequence} {share : Share}

/-- A factor takes what it has taken. -/
theorem again (takes : Takes mesh remaining axes share) :
    takeShare mesh remaining share.taken = .ok ⟨share.taken, share.remaining, []⟩ := by
  induction takes with
  | stop stops => rfl
  | keep unfilled positive divides takes ih => exact takeShare_keep unfilled positive divides ih
  | @cut remaining reference rest unfilled positive indivisible several =>
    have partPositive : 0 <
        (reference.split mesh (Nat.gcd remaining (reference.size mesh))).1.size mesh :=
      Nat.lt_of_succ_lt several
    have atEnd (size : Nat) : takeShare mesh size [] = .ok ⟨[], size, []⟩ := rfl
    exact takeShare_keep unfilled partPositive (Nat.gcd_dvd_left _ _) (atEnd _)

/-- What remains of the size of a factor is what its axes leave. -/
theorem remaining_mul_shards (takes : Takes mesh remaining axes share) :
    share.remaining * AxisSequence.shards mesh share.taken = remaining := by
  induction takes with
  | stop stops => exact Nat.mul_one _
  | @keep remaining reference rest later unfilled positive divides takes ih =>
    calc later.remaining * (reference.size mesh * AxisSequence.shards mesh later.taken)
        = reference.size mesh * (later.remaining * AxisSequence.shards mesh later.taken) :=
          Nat.mul_left_comm _ _ _
      _ = reference.size mesh * (remaining / reference.size mesh) := by rw [ih]
      _ = remaining := Nat.mul_div_cancel' divides
  | cut unfilled positive indivisible several =>
    exact (congrArg (_ * ·) (Nat.mul_one _)).trans (Nat.div_mul_cancel (Nat.gcd_dvd_left _ _))

/-- The shards of what is taken divide the size of the factor. -/
theorem shards_taken_dvd (takes : Takes mesh remaining axes share) :
    AxisSequence.shards mesh share.taken ∣ remaining :=
  ⟨share.remaining, by rw [Nat.mul_comm, takes.remaining_mul_shards]⟩

/-- What precedes the axes without adjoining them does not adjoin what is taken. -/
theorem merged_cons_taken (takes : Takes mesh remaining axes share) {previous : AxisRef}
    (fits : ∀ reference ∈ axes, reference.Fits mesh)
    (started : ∀ reference, previous.Adjoins reference → 1 < reference.preSize)
    (merged : Merged (previous :: axes)) : Merged (previous :: share.taken) := by
  induction takes generalizing previous with
  | stop stops => exact .singleton _
  | keep unfilled positive divides takes ih =>
    obtain ⟨apart, later⟩ := List.isChain_cons_cons.mp merged
    obtain ⟨headFits, restFits⟩ := List.forall_mem_cons.mp fits
    exact .cons_cons apart (ih restFits (fun _ adjoins => headFits.one_lt_preSize adjoins) later)
  | cut unfilled positive indivisible several =>
    obtain ⟨apart, -⟩ := List.isChain_cons_cons.mp merged
    -- the part that is cut off starts where the reference starts
    exact .cons_cons
      (fun adjoins => apart (AxisRef.adjoins_of_adjoins_split adjoins (started _ adjoins :)))
      (.singleton _)

theorem merged_taken (takes : Takes mesh remaining axes share) (suits : Suits mesh axes)
    (merged : Merged axes) : Merged share.taken := by
  -- a whole axis adjoins nothing, so it may stand in front
  have nothing (reference : AxisRef) : ¬ (AxisRef.whole "").Adjoins reference := by
    cases reference <;> exact id
  have inFront : Merged (.whole "" :: axes) := by
    cases axes with
    | nil => exact .singleton _
    | cons reference rest => exact .cons_cons (nothing reference) merged
  exact (takes.merged_cons_taken suits.fits
    (fun reference adjoins => absurd adjoins (nothing reference)) inFront).tail

/-- What waits is merged as well. -/
theorem merged_pending (takes : Takes mesh remaining axes share) (suits : Suits mesh axes)
    (merged : Merged axes) : Merged share.pending := by
  induction takes with
  | stop stops => exact merged
  | keep unfilled positive divides takes ih =>
    exact ih (suits.sublist (List.sublist_cons_self _ _)) merged.tail
  | cut unfilled positive indivisible several =>
    exact merged.behind_cut suits (Nat.gcd_dvd_right _ _)

theorem suits_pending (takes : Takes mesh remaining axes share) (suits : Suits mesh axes) :
    Suits mesh share.pending := by
  have fine := (suits.of_refines (takes.partOf.refines (.refl _))).1
  exact (AxisSequence.suits_append_iff.mp fine).2.1

end Takes

section Entries

variable {sizes : List Nat} {factor : Nat} {sharding : FactorSharding}
  {entries : List (Nat × FactorSharding)}

/-- The factors of a merged dimension take their axes whole. -/
theorem takenWhole_of_dimEntries {mapping : DimMapping} {pending : AxisSequence} {isClosed : Bool}
    (isOk : dimEntries mesh sizes isClosed pending mapping = .ok entries)
    (suits : Suits mesh pending) (merged : Merged pending) (member : (factor, sharding) ∈ entries) :
    ∃ size, sizes[factor]? = some size ∧ TakenWhole mesh size sharding.axes := by
  induction mapping generalizing pending entries with
  | nil =>
    cases isOk
    exact absurd member List.not_mem_nil
  | cons own rest ih =>
    obtain ⟨size, share, later, isSize, taken, laterOk, rfl⟩ := dimEntries_cons_eq_ok isOk
    have takes := takes_iff.mpr taken
    rcases List.mem_cons.mp member with isFirst | isLater
    · cases isFirst
      exact ⟨size, isSize, takes.merged_taken suits merged, share.remaining, takes.again⟩
    · refine ih laterOk ?_ ?_ isLater
      · split
        · exact AxisSequence.suits_nil
        · exact takes.suits_pending suits
      · split
        · exact .nil
        · exact takes.merged_pending suits merged

/-- The factors of a tensor take their axes whole. -/
theorem takenWhole_of_tensorEntries {mapping : TensorMapping} {dims : List DimSharding}
    (isOk : tensorEntries mesh sizes dims mapping = .ok entries)
    (suits : ∀ dim ∈ dims, Suits mesh dim.axes ∧ Merged dim.axes)
    (member : (factor, sharding) ∈ entries) :
    ∃ size, sizes[factor]? = some size ∧ TakenWhole mesh size sharding.axes := by
  obtain ⟨index, dim, own, -, ownOk, isOwn⟩ := mem_tensorEntries isOk member
  cases isDim : dims[index]? with
  | none =>
    rw [isDim] at ownOk
    exact takenWhole_of_dimEntries ownOk AxisSequence.suits_nil .nil isOwn
  | some found =>
    rw [isDim] at ownOk
    obtain ⟨dimSuits, dimMerged⟩ := suits found (List.mem_of_getElem? isDim)
    exact takenWhole_of_dimEntries ownOk dimSuits dimMerged isOwn

end Entries

/-! ## Reading a joined dimension -/

/-- A factor that is used up by a part cuts it off again where it has been joined with the next. -/
theorem takeShare_join {reference next : AxisRef} (adjoins : reference.Adjoins next)
    (fits : reference.Fits mesh) (nextFits : next.Fits mesh)
    (unfilled : 1 < reference.size mesh) (rest : AxisSequence) :
    takeShare mesh (reference.size mesh) (reference.join mesh next :: rest) =
      .ok ⟨[reference], 1, next :: rest⟩ := by
  have positive := fits.size_pos
  have joinPositive := (fits.join adjoins nextFits).size_pos
  have joinSize := AxisRef.size_join adjoins fits nextFits
  have isGcd : Nat.gcd (reference.size mesh) ((reference.join mesh next).size mesh) =
      reference.size mesh := by
    rw [joinSize, Nat.gcd_mul_right_right]
  have indivisible : ¬ (reference.join mesh next).size mesh ∣ reference.size mesh := by
    intro divides
    have bounded := Nat.le_of_dvd positive divides
    have longer := (Nat.lt_mul_iff_one_lt_right positive).mpr (nextFits.one_lt_size adjoins)
    omega
  rw [takeShare_cut rest unfilled joinPositive indivisible (by rwa [isGcd]), isGcd,
    AxisRef.split_join adjoins fits nextFits, Nat.div_self positive]

/-- A factor that is used up by its axes takes exactly these off a joined sequence that starts with
them. -/
theorem takeShare_joined {size left : Nat} {axes rest : AxisSequence}
    (fits : ∀ reference ∈ axes ++ rest, reference.Fits mesh) (merged : Merged axes)
    (taken : takeShare mesh size axes = .ok ⟨axes, left, []⟩) (full : left ≤ 1) :
    takeShare mesh size (joined mesh (axes ++ rest)) = .ok ⟨axes, left, joined mesh rest⟩ := by
  induction axes generalizing size with
  | nil =>
    cases taken
    exact takeShare_full full _
  | cons reference others ih =>
    obtain ⟨unfilled, positive, divides, takenOthers⟩ := takeShare_cons_whole taken
    obtain ⟨headFits, laterFits⟩ := List.forall_mem_cons.mp fits
    cases others with
    | cons next others =>
      -- the axes of the factor itself are merged already
      have isJoined : joined mesh (reference :: next :: others ++ rest) =
          reference :: joined mesh (next :: others ++ rest) :=
        if_neg (List.isChain_cons_cons.mp merged).1
      rw [isJoined]
      exact takeShare_keep unfilled positive divides (ih laterFits merged.tail takenOthers)
    | nil =>
      have isLeft : size / reference.size mesh = left := by
        cases takenOthers
        rfl
      cases rest with
      | nil => exact taken
      | cons first rest =>
        by_cases adjoins : reference.Adjoins first
        · obtain ⟨head, tail, isJoined, adjoinsHead, nextFits, isJoinedFirst⟩ :=
            AxisSequence.joinedAfter_join fits adjoins
          have together : joined mesh ([reference] ++ first :: rest) =
              reference.join mesh head :: tail := (if_pos adjoins).trans isJoinedFirst
          have behind : joined mesh (first :: rest) = head :: tail := isJoined
          -- the one axis uses the factor up
          obtain rfl : left = 1 := by
            have someLeft := Nat.div_pos (Nat.le_of_dvd (Nat.lt_of_succ_lt unfilled) divides)
              positive
            omega
          obtain rfl : size = reference.size mesh := by
            rw [← Nat.div_mul_cancel divides, isLeft, Nat.one_mul]
          rw [together, behind]
          exact takeShare_join adjoinsHead headFits nextFits unfilled tail
        · have together : joined mesh ([reference] ++ first :: rest) =
              reference :: joined mesh (first :: rest) := if_neg adjoins
          rw [together]
          exact takeShare_keep unfilled positive divides
            ((takeShare_full (isLeft.trans_le full) _).trans (by rw [isLeft]))

/-! ## Reading all factors of a dimension -/

/-- A factor that stands before one with axes is used up by its own axes. -/
def DimMapping.FilledBy (mesh : Mesh) (sizes : List Nat) (axesFor : Nat → AxisSequence)
    (dim : DimMapping) : Prop :=
  dim.Pairwise fun major minor => axesFor minor ≠ [] → ∀ size ∈ sizes[major]?,
    size ≤ AxisSequence.shards mesh (axesFor major)

instance (mesh : Mesh) (sizes : List Nat) (axesFor : Nat → AxisSequence) (dim : DimMapping) :
    Decidable (dim.FilledBy mesh sizes axesFor) :=
  inferInstanceAs (Decidable (dim.Pairwise fun major minor => axesFor minor ≠ [] →
    ∀ size ∈ sizes[major]?, size ≤ AxisSequence.shards mesh (axesFor major)))

variable {sizes : List Nat} {axesFor : Nat → AxisSequence} {dim : DimMapping} {isClosed : Bool}
  {entries : List (Nat × FactorSharding)}

/-- A dimension with one factor has nothing to be used up. -/
theorem DimMapping.filledBy_of_length_le (single : dim.length ≤ 1) :
    dim.FilledBy mesh sizes axesFor := by
  cases dim with
  | nil => exact .nil
  | cons factor rest =>
    rw [List.eq_nil_of_length_eq_zero (Nat.le_zero.mp (Nat.le_of_succ_le_succ single))]
    exact List.pairwise_singleton _ _

/-- **If every factor before one with axes is used up, a written dimension is read back with the
axes it was written from.** -/
theorem dimEntries_of_filled (suits : Suits mesh (dim.flatMap axesFor))
    (whole : ∀ factor ∈ dim, ∀ size, sizes[factor]? = some size →
      TakenWhole mesh size (axesFor factor))
    (filled : dim.FilledBy mesh sizes axesFor)
    (isOk : dimEntries mesh sizes isClosed (joined mesh (dim.flatMap axesFor)) dim =
      .ok entries) :
    ∀ entry ∈ entries, entry.2.axes = axesFor entry.1 ∧ entry.2.overflow = [] := by
  induction dim generalizing entries with
  | nil =>
    cases isOk
    exact fun _ member => absurd member List.not_mem_nil
  | cons factor rest ih =>
    obtain ⟨fillsFactor, restFilled⟩ := List.pairwise_cons.mp filled
    obtain ⟨wholeFactor, wholeRest⟩ := List.forall_mem_cons.mp whole
    rw [List.flatMap_cons] at suits isOk
    obtain ⟨size, share, later, isSize, taken, laterOk, rfl⟩ := dimEntries_cons_eq_ok isOk
    obtain ⟨merged, left, takenWhole⟩ := wholeFactor size isSize
    by_cases unsharded : rest.flatMap axesFor = []
    · -- the factor takes everything, and the factors behind it have no axes
      rw [unsharded, List.append_nil, AxisSequence.joined_eq_self merged, takenWhole] at taken
      cases taken
      simp only [ite_self] at laterOk ⊢
      refine List.forall_mem_cons.mpr ⟨⟨rfl, rfl⟩, fun entry isLater => ?_⟩
      obtain ⟨noAxes, noOverflow⟩ := dimEntries_nil laterOk entry isLater
      have inRest : entry.1 ∈ rest := by
        rw [← factors_of_dimEntries laterOk]
        exact List.mem_map_of_mem isLater
      exact ⟨noAxes.trans (List.flatMap_eq_nil_iff.mp unsharded entry.1 inRest).symm, noOverflow⟩
    · obtain ⟨minor, inRest, hasAxes⟩ : ∃ minor ∈ rest, axesFor minor ≠ [] := by
        simpa only [ne_eq, List.flatMap_eq_nil_iff, not_forall, exists_prop] using unsharded
      have isProduct := (takes_iff.mpr takenWhole).remaining_mul_shards
      have bounded := fillsFactor minor inRest hasAxes size isSize
      have positive : 0 < AxisSequence.shards mesh (axesFor factor) :=
        AxisSequence.shards_pos_of_fits (List.forall_mem_append.mp suits.fits).1
      have full : left ≤ 1 := by
        rw [← isProduct] at bounded
        exact Nat.le_of_mul_le_mul_right (by rwa [Nat.one_mul]) positive
      rw [takeShare_joined suits.fits merged takenWhole full] at taken
      cases taken
      have keeps : (rest.isEmpty || decide (1 < left)) = false := by
        rw [decide_eq_false (Nat.not_lt.mpr full), Bool.or_false, List.isEmpty_eq_false_iff]
        exact List.ne_nil_of_mem inRest
      simp only [keeps, if_false, Bool.false_eq_true] at laterOk ⊢
      exact List.forall_mem_cons.mpr ⟨⟨rfl, rfl⟩,
        ih (AxisSequence.suits_append_iff.mp suits).2.1 wholeRest restFilled laterOk⟩

/-- A factor before one that has got axes, its own or beyond it, is used up. -/
theorem used_up_of_dimEntries {pending : AxisSequence}
    (isOk : dimEntries mesh sizes isClosed pending dim = .ok entries) :
    entries.Pairwise fun major minor => minor.2.allAxes ≠ [] → ∀ size ∈ sizes[major.1]?,
      size ≤ AxisSequence.shards mesh major.2.axes := by
  induction dim generalizing pending entries with
  | nil =>
    cases isOk
    exact .nil
  | cons factor rest ih =>
    obtain ⟨size, share, later, isSize, taken, laterOk, rfl⟩ := dimEntries_cons_eq_ok isOk
    refine List.pairwise_cons.mpr ⟨?_, ih laterOk⟩
    intro entry isLater hasAxes own isOwn
    cases isSize.symm.trans isOwn
    by_cases full : share.remaining ≤ 1
    · have isProduct := (takes_iff.mpr taken).remaining_mul_shards
      rw [← isProduct]
      exact (Nat.mul_le_mul_right _ full).trans_eq (Nat.one_mul _)
    · -- what is left of the factor keeps all axes from the factors behind it
      have keeps : (rest.isEmpty || decide (1 < share.remaining)) = true := by
        rw [decide_eq_true (Nat.lt_of_not_le full), Bool.or_true]
      simp only [keeps, if_true] at laterOk
      obtain ⟨noAxes, noOverflow⟩ := dimEntries_nil laterOk entry isLater
      exact absurd (List.append_eq_nil_iff.mpr ⟨noAxes, noOverflow⟩) hasAxes

/-- **If a dimension is read with given axes, every factor before one with axes is used up.** -/
theorem filled_of_dimEntries {pending : AxisSequence}
    (isOk : dimEntries mesh sizes isClosed pending dim = .ok entries)
    (given : ∀ entry ∈ entries, entry.2.axes = axesFor entry.1) :
    dim.FilledBy mesh sizes axesFor := by
  rw [DimMapping.FilledBy, ← factors_of_dimEntries isOk, List.pairwise_map]
  refine (used_up_of_dimEntries isOk).imp_of_mem fun isMajor isMinor usedUp hasAxes => ?_
  rw [← given _ isMajor]
  rw [← given _ isMinor] at hasAxes
  exact usedUp (List.append_ne_nil_of_left_ne_nil hasAxes _)

/-! ## Reading all factors of a tensor -/

/-- The factors of the tensor have the given axes, and none has axes beyond it. -/
def TensorProjection.ShardedAlong (axesFor : Nat → AxisSequence) (tensor : TensorProjection) :
    Prop :=
  ∀ entry ∈ tensor.entries, entry.2.axes = axesFor entry.1 ∧ entry.2.overflow = []

instance (axesFor : Nat → AxisSequence) (tensor : TensorProjection) :
    Decidable (tensor.ShardedAlong axesFor) :=
  inferInstanceAs (Decidable (∀ entry ∈ tensor.entries,
    entry.2.axes = axesFor entry.1 ∧ entry.2.overflow = []))

namespace TensorProjection

variable {mapping : TensorMapping} {sharding : Option TensorSharding} {tensor : TensorProjection}
  (isRead : TensorProjection.ofSharding mesh sizes mapping sharding = .ok tensor)
include isRead

/-- A tensor of which all dimensions are filled is read with the axes it was written from. -/
theorem shardedAlong_of_filled
    (written : ∀ (index : Nat) (dim : DimMapping), mapping[index]? = some dim →
      (((sharding.map TensorSharding.dims).getD [])[index]?.getD .openEmpty).axes =
        joined mesh (dim.flatMap axesFor))
    (suits : ∀ dim ∈ mapping, Suits mesh (dim.flatMap axesFor))
    (whole : ∀ factor size, sizes[factor]? = some size → TakenWhole mesh size (axesFor factor))
    (filled : ∀ dim ∈ mapping, dim.FilledBy mesh sizes axesFor) : tensor.ShardedAlong axesFor := by
  obtain ⟨entries, entriesOk, rfl⟩ := ofSharding_eq_ok_iff.mp isRead
  intro entry isEntry
  obtain ⟨index, dim, own, isDim, ownOk, isOwn⟩ :=
    mem_tensorEntries entriesOk (mem_of_filledSlots (mem_entries_iff.mp isEntry))
  have inMapping := List.mem_of_getElem? isDim
  rw [written index dim isDim] at ownOk
  exact dimEntries_of_filled (suits dim inMapping) (fun factor _ => whole factor)
    (filled dim inMapping) ownOk entry isOwn

/-- All dimensions of a tensor are filled by the axes it is read with. -/
theorem filled_of_shardedAlong (declared : ∀ factor ∈ mapping.factors, factor < sizes.length)
    (distinct : mapping.factors.Nodup) (along : tensor.ShardedAlong axesFor) :
    ∀ dim ∈ mapping, dim.FilledBy mesh sizes axesFor := by
  obtain ⟨entries, entriesOk, rfl⟩ := ofSharding_eq_ok_iff.mp isRead
  intro dim isDim
  obtain ⟨index, found⟩ := List.mem_iff_getElem?.mp isDim
  obtain ⟨own, ownOk, within⟩ := dimEntries_of_tensorEntries entriesOk found
  refine filled_of_dimEntries ownOk fun entry isOwn => ?_
  exact (along entry (mem_entries_iff.mpr
    ((factor?_eq_some_iff entriesOk declared distinct).mpr (within isOwn)))).1

end TensorProjection

end MeshSharding
