import MeshSharding.Proofs.Axis.Rejoined
import MeshSharding.Proofs.Axis.StrictPrefix

/-!
# Numbers of shards

The number of shards along a sequence is the product of those along its
references. Computed in machine words, it is what a word holds of that product
(`AxisSequence.size_eq_mod`), so it is the number of shards if that fits into a
word (`AxisSequence.CountsInWord.size_eq`).

The number of shards is a multiple of the number along each strict prefix. On a
mesh whose axes all have several devices it is also greater, with one exception.

A part may have all shards of its axis. It then is a strict prefix of the whole
axis and has as many shards, and so does every sequence that ends in the part,
compared with the sequence that ends in the whole axis instead: these are two
spellings of the same axes of which one is a strict prefix of the other. No other
strict prefix has as many shards as the sequence that it is a prefix of, and where
the shards fit into a word the computed sizes show the same
(`AxisSequence.shards_of_isStrictPrefixOf`).
-/

set_option autoImplicit false

namespace MeshSharding

variable {mesh : Mesh}

/-- Every axis of the mesh has several devices. -/
def Mesh.HasSeveral (mesh : Mesh) : Prop :=
  ∀ axis ∈ mesh.axes, 1 < axis.size

instance (mesh : Mesh) : Decidable mesh.HasSeveral :=
  inferInstanceAs (Decidable (∀ axis ∈ mesh.axes, 1 < axis.size))

/-! ## References -/

namespace AxisRef

variable {first second reference : AxisRef}

/-- The reference, as the whole axis if it is a part that has all shards of it. -/
def respelled (mesh : Mesh) (reference : AxisRef) : AxisRef :=
  if reference.SpellsWhole mesh then .whole reference.axis else reference

theorem respelled_whole (mesh : Mesh) (name : String) :
    (whole name).respelled mesh = .whole name :=
  if_neg id

/-- Another reference is respelled to a part only if it is that part. -/
theorem eq_part_of_respelled_eq {name : String} {preSize partSize : Nat}
    (same : reference.respelled mesh = .part name preSize partSize) :
    reference = .part name preSize partSize := by
  unfold respelled at same
  split at same
  · cases same
  · exact same

/-- On a mesh whose axes have several devices every reference has several shards. -/
theorem Fits.several (fits : reference.Fits mesh) (several : mesh.HasSeveral) :
    1 < reference.size mesh := by
  cases reference with
  | whole name =>
    obtain ⟨axisSize, found⟩ := fits
    obtain ⟨meshAxis, isFound, isSize⟩ := Option.map_eq_some_iff.mp found
    rw [size, found, Option.getD_some, ← isSize]
    exact several meshAxis (List.mem_of_find?_eq_some isFound)
  | part name preSize partSize =>
    obtain ⟨-, -, -, more, -⟩ := fits
    exact more

/-- A part with all shards of its axis has as many as the whole axis. -/
theorem SpellsWhole.size_eq (spells : reference.SpellsWhole mesh) :
    (whole reference.axis).size mesh = reference.size mesh := by
  cases reference with
  | whole name => exact absurd spells id
  | part name preSize partSize =>
    have found : mesh.axisSize? name = some partSize := spells.2
    rw [size, axis, found, Option.getD_some, size]

/-- The shards of a prefix divide those of the reference. -/
theorem IsPrefixOf.size_dvd (isPrefix : first.IsPrefixOf second) (fits : first.Fits mesh) :
    first.size mesh ∣ second.size mesh := by
  cases first with
  | whole name =>
    cases isPrefix
    exact Nat.dvd_refl _
  | part name preSize partSize =>
    cases second with
    | whole name' =>
      obtain ⟨rfl, rfl⟩ := isPrefix
      obtain ⟨axisSize, found, -, -, divides⟩ := fits
      rw [Nat.one_mul] at divides
      rwa [size, size, found, Option.getD_some]
    | part name' preSize' partSize' =>
      obtain ⟨-, -, rfl | ⟨-, divides⟩⟩ := isPrefix
      · exact Nat.dvd_refl _
      · exact divides

/-- A prefix is the reference itself, or a part that has all shards of the axis which is the
reference, or else it has fewer shards and is no other spelling of the reference. -/
theorem IsPrefixOf.eq_or_spellsWhole_or_lt (isPrefix : first.IsPrefixOf second)
    (fits : first.Fits mesh) (widerFits : second.Fits mesh) :
    first = second ∨ (first.SpellsWhole mesh ∧ second = .whole first.axis) ∨
      (first.size mesh < second.size mesh ∧ first.respelled mesh ≠ second.respelled mesh) := by
  cases first with
  | whole name => exact .inl (Eq.symm isPrefix)
  | part name preSize partSize =>
    cases second with
    | whole name' =>
      have divides := isPrefix.size_dvd fits
      have positive := widerFits.size_pos
      obtain ⟨rfl, rfl⟩ := isPrefix
      by_cases spells : (part name 1 partSize).SpellsWhole mesh
      · exact .inr (.inl ⟨spells, rfl⟩)
      · obtain ⟨axisSize, found⟩ := widerFits
        refine .inr (.inr ⟨Nat.lt_of_le_of_ne (Nat.le_of_dvd positive divides) ?_, ?_⟩)
        · intro same
          rw [size, size, found, Option.getD_some] at same
          exact spells ⟨rfl, same ▸ found⟩
        · rw [respelled_whole, respelled, if_neg spells]
          intro same
          cases same
    | part name' preSize' partSize' =>
      obtain ⟨rfl, rfl, rfl | ⟨less, -⟩⟩ := isPrefix
      · exact .inl rfl
      · refine .inr (.inr ⟨less, ?_⟩)
        -- the axis has room for the longer part, so the shorter one does not have all shards of it
        have notWhole : ¬ (part name preSize partSize).SpellsWhole mesh := by
          rintro ⟨rfl, found⟩
          obtain ⟨axisSize, isSize, -, several, divides⟩ := widerFits
          cases Option.some.inj (found.symm.trans isSize)
          rw [Nat.one_mul] at divides
          exact Nat.not_le_of_gt less (Nat.le_of_dvd fits.size_pos divides)
        rw [respelled, if_neg notWhole]
        intro same
        cases eq_part_of_respelled_eq same.symm
        exact Nat.lt_irrefl _ less

end AxisRef

/-! ## Sequences -/

namespace AxisSequence

variable {shorter axes : AxisSequence}

/-- The number of shards along all references together, whatever a machine word holds of it. -/
def shards (mesh : Mesh) : AxisSequence → Nat
  | [] => 1
  | reference :: rest => reference.size mesh * shards mesh rest

/-- The number of shards fits into a machine word. -/
def CountsInWord (mesh : Mesh) (axes : AxisSequence) : Prop :=
  shards mesh axes < UInt64.size

instance (axes : AxisSequence) : Decidable (CountsInWord mesh axes) :=
  inferInstanceAs (Decidable (_ < _))

theorem countsInWord_nil (mesh : Mesh) : CountsInWord mesh [] := by
  change 1 < UInt64.size
  decide

/-- The computed size is what a word holds of the number of shards. -/
theorem size_eq_mod (mesh : Mesh) (axes : AxisSequence) :
    size mesh axes = shards mesh axes % UInt64.size := by
  induction axes with
  | nil => rfl
  | cons reference rest ih => rw [size, shards, ih, wordMul, Nat.mul_mod_mod]

theorem CountsInWord.size_eq (counted : CountsInWord mesh axes) :
    size mesh axes = shards mesh axes := by
  rw [size_eq_mod, Nat.mod_eq_of_lt counted]

/-- What has a divisor of the shards, and shards at all, counts in a word as well. -/
theorem CountsInWord.of_dvd (counted : CountsInWord mesh axes) (positive : 0 < shards mesh axes)
    (divides : shards mesh shorter ∣ shards mesh axes) : CountsInWord mesh shorter :=
  Nat.lt_of_le_of_lt (Nat.le_of_dvd positive divides) counted

theorem shards_pos (hasShards : ∀ reference ∈ axes, reference.HasShards) :
    0 < shards mesh axes := by
  induction axes with
  | nil => exact Nat.one_pos
  | cons reference rest ih =>
    exact Nat.mul_pos (hasShards reference List.mem_cons_self).size_pos
      (ih fun other member => hasShards other (List.mem_cons_of_mem _ member))

theorem shards_append (first second : AxisSequence) :
    shards mesh (first ++ second) = shards mesh first * shards mesh second := by
  induction first with
  | nil => exact (Nat.one_mul _).symm
  | cons reference rest ih => rw [List.cons_append, shards, shards, ih, Nat.mul_assoc]

theorem shards_perm {first second : AxisSequence} (isPerm : first.Perm second) :
    shards mesh first = shards mesh second := by
  induction isPerm with
  | nil => rfl
  | cons reference rest ih => rw [shards, shards, ih]
  | swap reference other rest => simp only [shards, Nat.mul_left_comm]
  | trans first second ih ih' => rw [ih, ih']

theorem shards_pos_of_fits (fits : ∀ reference ∈ axes, reference.Fits mesh) :
    0 < shards mesh axes :=
  shards_pos fun reference member => (fits reference member).hasShards

/-- Cutting references loses no shards. -/
theorem Refines.shards_eq {coarse fine : AxisSequence} (refines : Refines mesh coarse fine) :
    shards mesh fine = shards mesh coarse := by
  induction refines with
  | nil => rfl
  | keep reference rest ih => rw [shards, shards, ih]
  | cut reference majorSize several proper divides rest ih =>
    rw [shards, ih, shards, shards, ← Nat.mul_assoc, AxisRef.size_split divides]

theorem one_lt_shards_of_ne_nil (several : mesh.HasSeveral)
    (fits : ∀ reference ∈ axes, reference.Fits mesh) (nonempty : axes ≠ []) :
    1 < shards mesh axes := by
  cases axes with
  | nil => exact absurd rfl nonempty
  | cons reference rest =>
    obtain ⟨headFits, restFits⟩ := List.forall_mem_cons.mp fits
    have more := headFits.several several
    have positive := shards_pos_of_fits restFits
    exact Nat.lt_of_lt_of_le more (Nat.le_mul_of_pos_right _ positive)

/-- The two sequences are spellings of the same axes: they agree once all parts that have all shards
of their axes are written as whole axes. -/
def SpellSame (mesh : Mesh) (first second : AxisSequence) : Prop :=
  first.map (AxisRef.respelled mesh) = second.map (AxisRef.respelled mesh)

instance (first second : AxisSequence) : Decidable (SpellSame mesh first second) :=
  inferInstanceAs (Decidable (first.map (AxisRef.respelled mesh) =
    second.map (AxisRef.respelled mesh)))

/-- The shards of a strict prefix divide those of the sequence. -/
theorem IsStrictPrefixOf.shards_dvd (isStrict : IsStrictPrefixOf shorter axes)
    (fits : ∀ reference ∈ shorter, reference.Fits mesh) :
    shards mesh shorter ∣ shards mesh axes := by
  by_cases nonempty : shorter = []
  · rw [nonempty]
    exact Nat.one_dvd _
  · obtain ⟨front, last, wider, others, rfl, rfl, covers, -⟩ := isStrict.exists_last nonempty
    have lastFits : last.Fits mesh := fits last (List.mem_append_right _ (List.mem_singleton_self _))
    rw [shards_append, shards_append, shards, shards, shards, Nat.mul_one]
    exact Nat.mul_dvd_mul_left _ (Nat.dvd_mul_right_of_dvd (covers.size_dvd lastFits) _)

/-- A strict prefix has fewer shards and spells other axes, or it is the sequence with a part that
has all shards of its axis in the place of the whole axis at the end. -/
theorem IsStrictPrefixOf.lt_or_spellsWhole (several : mesh.HasSeveral)
    (isStrict : IsStrictPrefixOf shorter axes)
    (fits : ∀ reference ∈ shorter, reference.Fits mesh)
    (widerFits : ∀ reference ∈ axes, reference.Fits mesh) :
    (shards mesh shorter < shards mesh axes ∧ ¬ SpellSame mesh shorter axes) ∨
      ∃ front last, last.SpellsWhole mesh ∧ shorter = front ++ [last] ∧
        axes = front ++ [.whole last.axis] := by
  by_cases nonempty : shorter = []
  · subst nonempty
    refine .inl ⟨one_lt_shards_of_ne_nil several widerFits isStrict.ne_nil, fun same => ?_⟩
    exact isStrict.ne_nil (List.map_eq_nil_iff.mp same.symm)
  · obtain ⟨front, last, wider, others, rfl, rfl, covers, ends⟩ := isStrict.exists_last nonempty
    obtain ⟨frontFits, lastFits⟩ := List.forall_mem_append.mp fits
    have lastFits : last.Fits mesh := lastFits last (List.mem_singleton_self _)
    obtain ⟨-, behindFits⟩ := List.forall_mem_append.mp widerFits
    obtain ⟨coverFits, othersFit⟩ := List.forall_mem_cons.mp behindFits
    have frontPos : 0 < shards mesh front := shards_pos_of_fits frontFits
    have bounded : last.size mesh ≤ wider.size mesh :=
      Nat.le_of_dvd coverFits.size_pos (covers.size_dvd lastFits)
    rw [shards_append, shards_append, shards, shards, shards, Nat.mul_one,
      Nat.mul_lt_mul_left frontPos]
    cases others with
    | nil =>
      rw [shards, Nat.mul_one, SpellSame, List.map_append, List.map_append,
        List.append_cancel_left_eq, List.map_singleton, List.map_singleton, List.singleton_inj]
      rcases covers.eq_or_spellsWhole_or_lt lastFits coverFits with same | ⟨spells, rfl⟩ | fewer
      · exact absurd same (ends rfl)
      · exact .inr ⟨front, last, spells, rfl, rfl⟩
      · exact .inl fewer
    | cons next behind =>
      -- the sequence goes on behind the place where the strict prefix ends
      have more := one_lt_shards_of_ne_nil several othersFit (List.cons_ne_nil _ _)
      refine .inl ⟨Nat.lt_of_le_of_lt bounded ?_, fun same => ?_⟩
      · exact (Nat.lt_mul_iff_one_lt_right coverFits.size_pos).mpr more
      · have counts := congrArg List.length same
        simp only [List.length_map, List.length_append, List.length_cons, List.length_nil] at counts
        omega

/-- **A strict prefix has a divisor of the shards of the sequence, and fewer of them unless the two
are spellings of the same axes.** Then they agree but for their last references, a part that has
all shards of its axis and the whole axis. If the shards of the sequence fit into a word, so it is
with the computed sizes, and the size beyond the strict prefix is more than one unless the two are
spellings of the same axes. The axes of the mesh are to have several devices. -/
theorem shards_of_isStrictPrefixOf (mesh : Mesh) (several : mesh.HasSeveral)
    (shorter axes : AxisSequence)
    (accepted : ∀ reference ∈ shorter ++ axes, reference.check mesh = .ok ())
    (isStrict : IsStrictPrefixOf shorter axes) :
    shards mesh shorter ∣ shards mesh axes ∧
      (shards mesh shorter < shards mesh axes ↔ ¬ SpellSame mesh shorter axes) ∧
      (SpellSame mesh shorter axes ↔ ∃ front last, last.SpellsWhole mesh ∧
        shorter = front ++ [last] ∧ axes = front ++ [.whole last.axis]) ∧
      (CountsInWord mesh axes →
        size mesh shorter ∣ size mesh axes ∧
          (size mesh shorter < size mesh axes ↔ ¬ SpellSame mesh shorter axes) ∧
          (1 < sizeBeyond mesh axes shorter ↔ ¬ SpellSame mesh shorter axes)) := by
  obtain ⟨fits, widerFits⟩ := List.forall_mem_append.mp fun reference member =>
    AxisRef.check_eq_ok_iff.mp (accepted reference member)
  have divides := isStrict.shards_dvd fits
  have positive := shards_pos_of_fits fits
  have spelled : ∀ front last, last.SpellsWhole mesh → shorter = front ++ [last] →
      axes = front ++ [.whole last.axis] →
        shards mesh shorter = shards mesh axes ∧ SpellSame mesh shorter axes := by
    rintro front last spells rfl rfl
    refine ⟨?_, ?_⟩
    · rw [shards_append, shards_append, shards, shards, shards, shards, spells.size_eq]
    · rw [SpellSame, List.map_append, List.map_append, List.map_singleton, List.map_singleton,
        AxisRef.respelled_whole, AxisRef.respelled, if_pos spells]
  have fewer_iff : shards mesh shorter < shards mesh axes ↔ ¬ SpellSame mesh shorter axes := by
    rcases isStrict.lt_or_spellsWhole several fits widerFits with
      ⟨fewer, differ⟩ | ⟨front, last, spells, isShorter, isAxes⟩
    · exact iff_of_true fewer differ
    · obtain ⟨sameSize, same⟩ := spelled front last spells isShorter isAxes
      exact iff_of_false (Nat.not_lt_of_ge sameSize.ge) (not_not_intro same)
  refine ⟨divides, fewer_iff, ⟨fun same => ?_, ?_⟩, fun counted => ?_⟩
  · rcases isStrict.lt_or_spellsWhole several fits widerFits with ⟨-, differ⟩ | inPlace
    · exact absurd same differ
    · exact inPlace
  · rintro ⟨front, last, spells, isShorter, isAxes⟩
    exact (spelled front last spells isShorter isAxes).2
  · have isSize : size mesh shorter = shards mesh shorter :=
      (counted.of_dvd (shards_pos_of_fits widerFits) divides).size_eq
    have beyond : 1 < sizeBeyond mesh axes shorter ↔
        shards mesh shorter < shards mesh axes := by
      rw [sizeBeyond, counted.size_eq, isSize]
      obtain ⟨factor, isProduct⟩ := divides
      rw [isProduct, Nat.mul_div_cancel_left _ positive]
      exact (Nat.lt_mul_iff_one_lt_right positive).symm
    rw [counted.size_eq, isSize]
    exact ⟨divides, fewer_iff, beyond.trans fewer_iff⟩

/-- Ten devices in a loop and seven layers. -/
def loopMesh : Mesh where
  axes := [⟨"loop", 10, by decide, by decide, by decide⟩,
    ⟨"layer", 7, by decide, by decide, by decide⟩]
  names_nodup := by decide

/-- The layers and half of the loop, compared with the layers and all of the loop. -/
theorem half_loop_shards :
    IsStrictPrefixOf [.whole "layer", .part "loop" 1 5] [.whole "layer", .whole "loop"] ∧
      size loopMesh [.whole "layer", .part "loop" 1 5] <
        size loopMesh [.whole "layer", .whole "loop"] := by
  have isStrict : IsStrictPrefixOf [.whole "layer", .part "loop" 1 5]
      [.whole "layer", .whole "loop"] := by decide
  obtain ⟨-, -, -, computed⟩ :=
    shards_of_isStrictPrefixOf loopMesh (by decide) _ _ (by decide) isStrict
  obtain ⟨-, fewer, -⟩ := computed (by decide)
  exact ⟨isStrict, fewer.mpr (by decide)⟩

/-- A part that has the whole loop is accepted. It is a strict prefix of the loop and has all of its
shards, so nothing is left beyond it. -/
theorem loop_spelled_twice :
    loopMesh.HasSeveral ∧ (AxisRef.part "loop" 1 10).check loopMesh = .ok () ∧
      (AxisRef.whole "loop").check loopMesh = .ok () ∧
      IsStrictPrefixOf [.part "loop" 1 10] [.whole "loop"] ∧
      size loopMesh [.part "loop" 1 10] = size loopMesh [.whole "loop"] ∧
      sizeBeyond loopMesh [.whole "loop"] [.part "loop" 1 10] = 1 := by decide

end AxisSequence

end MeshSharding
