import MeshSharding.Proofs.Axis.Shards

/-!
# Continuing a sequence

A sequence is continued by appending references to it and joining adjoining
neighbours from left to right. Then one of two things happens to its last
reference. It stays as it is and others come behind it, or references that
adjoin it are joined to it, one after the other, and possibly make up its whole
axis. In both cases the sequence is a strict prefix of what comes out
(`AxisSequence.isStrictPrefixOf_joinedAfter`).

A strict prefix in turn lacks nothing that cannot be appended: first the part
beyond its last reference of the reference in the same place, if there is such a
part (`AxisRef.IsPrefixOf.exists_behind`), and then what comes behind that. So
strict prefixes are the sequences that can be continued
(`AxisSequence.isStrictPrefixOf_iff_continued`). Joining loses no shards, so a
sequence has the shards of its strict prefix times those of what is appended. The
quotient of the computed sizes is the number of the latter if the shards of the
sequence fit into a word, and may be another number if they do not
(`AxisSequence.east_lost_beyond_north`).

Cutting undoes joining. A reference consists of two parts when they adjoin and
joining them gives the reference, and everything that is asked about the
reference can be asked about the parts: they have its shards together, and what
overlaps it overlaps one of them (`AxisRef.ConsistsOf`). Two adjoining parts that
fit a mesh make up what they are joined to (`AxisRef.consistsOf_join`). There is
one way for a reference to consist of two parts of which the first has a given
number of shards: cutting the reference gives these parts and no others
(`AxisRef.split_eq_iff_consistsOf`). A part that has all shards of its axis is
left out, since what it is cut into is joined to the whole axis.
-/

set_option autoImplicit false

namespace MeshSharding

variable {mesh : Mesh}

/-! ## References -/

namespace AxisRef

variable {first second major minor : AxisRef}

/-- A part is a strict prefix of what joining another one to it makes. -/
theorem isStrictPrefixOf_join (adjoins : major.Adjoins minor) (majorFits : major.Fits mesh)
    (minorFits : minor.Fits mesh) : major.IsStrictPrefixOf (major.join mesh minor) := by
  obtain ⟨axis, preSize, majorSize, minorSize, axisSize, rfl, rfl, -, -, several, minorSeveral, -,
    isPart | ⟨rfl, -, isWhole⟩⟩ := join_cases adjoins majorFits minorFits
  · have longer : majorSize < majorSize * minorSize :=
      (Nat.lt_mul_iff_one_lt_right (Nat.lt_of_succ_lt several)).mpr minorSeveral
    rw [isPart]
    refine ⟨fun same => ?_, rfl, rfl, .inr ⟨longer, Nat.dvd_mul_right _ _⟩⟩
    exact Nat.ne_of_lt longer (part.inj same).2.2
  · rw [isWhole]
    exact ⟨AxisRef.noConfusion, rfl, rfl⟩

/-- What a reference has beyond a prefix of it is a part that adjoins the prefix. -/
theorem IsPrefixOf.exists_behind (isPrefix : first.IsPrefixOf second) (differ : first ≠ second)
    (fits : first.Fits mesh) (widerFits : second.Fits mesh) (spelled : ¬ first.SpellsWhole mesh)
    (widerSpelled : ¬ second.SpellsWhole mesh) :
    ∃ behind, behind.Fits mesh ∧ first.Adjoins behind ∧ first.join mesh behind = second := by
  have fewer : first.size mesh < second.size mesh := by
    rcases isPrefix.eq_or_spellsWhole_or_lt fits widerFits with same | ⟨spells, -⟩ | ⟨fewer, -⟩
    · exact absurd same differ
    · exact absurd spells spelled
    · exact fewer
  have divides := isPrefix.size_dvd fits
  have several : 1 < first.size mesh := by
    cases first with
    | whole axis => exact absurd (Eq.symm isPrefix) differ
    | part axis preSize size =>
      obtain ⟨_, -, -, several, -⟩ := fits
      exact several
  -- cutting the reference where the prefix ends gives the prefix and what is behind it
  have isMajor : (second.split mesh (first.size mesh)).1 = first := by
    cases first with
    | whole axis => exact absurd (Eq.symm isPrefix) differ
    | part axis preSize size =>
      cases second with
      | whole axis' =>
        obtain ⟨rfl, rfl⟩ := isPrefix
        rfl
      | part axis' preSize' size' =>
        obtain ⟨rfl, rfl, -⟩ := isPrefix
        rfl
  have adjoins := split_adjoins mesh second (first.size mesh)
  have isJoined := join_split widerFits divides widerSpelled
  rw [isMajor] at adjoins isJoined
  exact ⟨_, (widerFits.split several fewer divides).2, adjoins, isJoined⟩

end AxisRef

/-! ## Sequences -/

namespace AxisSequence

/-- A common front decides nothing about strict prefixes. -/
theorem isStrictPrefixOf_append_iff {front others : AxisSequence} {last : AxisRef} :
    IsStrictPrefixOf (front ++ [last]) (front ++ others) ↔ IsStrictPrefixOf [last] others := by
  induction front with
  | nil => exact Iff.rfl
  | cons reference rest ih =>
    refine Iff.trans ?_ ih
    cases rest with
    | nil => exact and_iff_right rfl
    | cons next rest => exact and_iff_right rfl

/-- What is appended to a merged sequence is joined to its last reference only. -/
theorem joined_append {front : AxisSequence} {last : AxisRef} (merged : Merged (front ++ [last]))
    (rest : AxisSequence) :
    joined mesh (front ++ last :: rest) = front ++ joinedAfter mesh last rest := by
  induction front with
  | nil => rfl
  | cons reference others ih =>
    have later : joined mesh (others ++ last :: rest) = others ++ joinedAfter mesh last rest :=
      ih merged.tail
    cases others with
    | nil =>
      have apart : ¬ reference.Adjoins last := (List.isChain_cons_cons.mp merged).1
      exact if_neg apart
    | cons next others =>
      have apart : ¬ reference.Adjoins next := (List.isChain_cons_cons.mp merged).1
      exact (if_neg apart).trans (congrArg (reference :: ·) later)

theorem joinedAfter_ne_nil (gathered : AxisRef) (rest : AxisSequence) :
    joinedAfter mesh gathered rest ≠ [] := by
  induction rest generalizing gathered with
  | nil => exact List.cons_ne_nil _ _
  | cons reference rest ih =>
    rw [joinedAfter]
    split
    · exact ih _
    · exact List.cons_ne_nil _ _

/-- A reference is a strict prefix of what comes out when others are appended to it. -/
theorem isStrictPrefixOf_joinedAfter {gathered : AxisRef} {rest : AxisSequence}
    (fits : ∀ reference ∈ gathered :: rest, reference.Fits mesh) (nonempty : rest ≠ []) :
    IsStrictPrefixOf [gathered] (joinedAfter mesh gathered rest) := by
  induction rest generalizing gathered with
  | nil => exact absurd rfl nonempty
  | cons reference rest ih =>
    obtain ⟨gatheredFits, laterFits⟩ := List.forall_mem_cons.mp fits
    obtain ⟨referenceFits, restFits⟩ := List.forall_mem_cons.mp laterFits
    by_cases adjoins : gathered.Adjoins reference
    · rw [joinedAfter, if_pos adjoins]
      have grows := AxisRef.isStrictPrefixOf_join adjoins gatheredFits referenceFits
      have covered : IsStrictPrefixOf [gathered] [gathered.join mesh reference] :=
        ⟨grows.2, fun _ => grows.1⟩
      cases rest with
      | nil => exact covered
      | cons next rest =>
        -- what has been joined grows further, or is left behind by what follows
        have fits := List.forall_mem_cons.mpr ⟨gatheredFits.join adjoins referenceFits, restFits⟩
        exact covered.trans (ih fits (List.cons_ne_nil _ _))
    · rw [joinedAfter, if_neg adjoins]
      exact ⟨.refl gathered, fun nothing => absurd nothing (joinedAfter_ne_nil reference rest)⟩

theorem shards_joinedAfter {gathered : AxisRef} {rest : AxisSequence}
    (fits : ∀ reference ∈ gathered :: rest, reference.Fits mesh) :
    shards mesh (joinedAfter mesh gathered rest) = gathered.size mesh * shards mesh rest := by
  induction rest generalizing gathered with
  | nil => rfl
  | cons reference rest ih =>
    obtain ⟨gatheredFits, laterFits⟩ := List.forall_mem_cons.mp fits
    obtain ⟨referenceFits, restFits⟩ := List.forall_mem_cons.mp laterFits
    by_cases adjoins : gathered.Adjoins reference
    · rw [joinedAfter, if_pos adjoins, ih (List.forall_mem_cons.mpr
        ⟨gatheredFits.join adjoins referenceFits, restFits⟩),
        AxisRef.size_join adjoins gatheredFits referenceFits, shards, Nat.mul_assoc]
    · rw [joinedAfter, if_neg adjoins, shards, ih laterFits, shards]

/-- Joining neighbours loses no shards. -/
theorem shards_joined {axes : AxisSequence} (fits : ∀ reference ∈ axes, reference.Fits mesh) :
    shards mesh (joined mesh axes) = shards mesh axes := by
  cases axes with
  | nil => rfl
  | cons reference rest => exact shards_joinedAfter fits

/-! ## Sequences that can be continued -/

/-- The references are accepted for the mesh, none is a part that has all shards of its axis, and no
two neighbours adjoin. -/
structure IsReduced (mesh : Mesh) (axes : AxisSequence) : Prop where
  accepted : ∀ reference ∈ axes, reference.check mesh = .ok ()
  spelled : ∀ reference ∈ axes, ¬ reference.SpellsWhole mesh
  merged : Merged axes

variable {shorter axes continuation : AxisSequence}

theorem IsReduced.fits (reduced : IsReduced mesh axes) :
    ∀ reference ∈ axes, reference.Fits mesh :=
  fun reference member => AxisRef.check_eq_ok_iff.mp (reduced.accepted reference member)

/-- A strict prefix can be continued to the sequence. -/
theorem IsStrictPrefixOf.exists_continuation (isStrict : IsStrictPrefixOf shorter axes)
    (shorterReduced : IsReduced mesh shorter) (reduced : IsReduced mesh axes) :
    ∃ continuation, continuation ≠ [] ∧ (∀ reference ∈ continuation, reference.Fits mesh) ∧
      joined mesh (shorter ++ continuation) = axes := by
  by_cases nothing : shorter = []
  · subst nothing
    exact ⟨axes, isStrict.ne_nil, reduced.fits, joined_eq_self reduced.merged⟩
  · obtain ⟨front, last, wider, others, rfl, rfl, covers, ends⟩ := isStrict.exists_last nothing
    obtain ⟨-, behindFits⟩ := List.forall_mem_append.mp reduced.fits
    obtain ⟨widerFits, othersFit⟩ := List.forall_mem_cons.mp behindFits
    by_cases same : last = wider
    · subst same
      refine ⟨others, fun empty => ends empty rfl, othersFit, ?_⟩
      rw [List.append_assoc]
      exact joined_eq_self reduced.merged
    · have isLast : last ∈ front ++ [last] := List.mem_append_right _ (List.mem_singleton_self _)
      have isWider : wider ∈ front ++ wider :: others :=
        List.mem_append_right _ List.mem_cons_self
      obtain ⟨behind, fits, adjoins, isJoined⟩ := covers.exists_behind same
        (shorterReduced.fits last isLast) widerFits (shorterReduced.spelled last isLast)
        (reduced.spelled wider isWider)
      refine ⟨behind :: others, List.cons_ne_nil _ _,
        List.forall_mem_cons.mpr ⟨fits, othersFit⟩, ?_⟩
      -- the last reference is completed first, and then the sequence goes on as before
      have isMerged : Merged (wider :: others) := reduced.merged.right_of_append
      rw [List.append_assoc, List.singleton_append, joined_append shorterReduced.merged,
        joinedAfter, if_pos adjoins, isJoined]
      exact congrArg (front ++ ·) (joined_eq_self isMerged)

/-- What can be continued to a sequence is a strict prefix of it. -/
theorem isStrictPrefixOf_joined (merged : Merged shorter)
    (fits : ∀ reference ∈ shorter ++ continuation, reference.Fits mesh)
    (nonempty : continuation ≠ []) :
    IsStrictPrefixOf shorter (joined mesh (shorter ++ continuation)) := by
  rcases List.eq_nil_or_concat shorter with rfl | ⟨front, last, rfl⟩
  · cases continuation with
    | nil => exact absurd rfl nonempty
    | cons reference rest => exact joinedAfter_ne_nil reference rest
  · rw [List.concat_eq_append] at merged fits ⊢
    rw [List.append_assoc, List.singleton_append] at fits ⊢
    rw [joined_append merged]
    exact isStrictPrefixOf_append_iff.mpr
      (isStrictPrefixOf_joinedAfter (List.forall_mem_append.mp fits).2 nonempty)

/-- **A sequence is a strict prefix of another exactly when it can be continued to that one.** Some
references that are accepted for the mesh can be appended to it so that joining adjoining neighbours
from left to right gives the other sequence. Whichever references do this, they multiply the shards
of the strict prefix to those of the sequence, and if the latter fit into a word, their size is the
computed one of the sequence beyond the strict prefix. Both sequences are to be reduced. -/
theorem isStrictPrefixOf_iff_continued (mesh : Mesh) (shorter axes : AxisSequence)
    (shorterReduced : IsReduced mesh shorter) (reduced : IsReduced mesh axes) :
    (IsStrictPrefixOf shorter axes ↔
      ∃ continuation, continuation ≠ [] ∧
        (∀ reference ∈ continuation, reference.check mesh = .ok ()) ∧
        joined mesh (shorter ++ continuation) = axes) ∧
      ∀ continuation, (∀ reference ∈ continuation, reference.check mesh = .ok ()) →
        joined mesh (shorter ++ continuation) = axes →
        shards mesh axes = shards mesh shorter * shards mesh continuation ∧
          (CountsInWord mesh axes → sizeBeyond mesh axes shorter = size mesh continuation) := by
  simp only [AxisRef.check_eq_ok_iff]
  have together {continuation : AxisSequence}
      (fits : ∀ reference ∈ continuation, reference.Fits mesh) :
      ∀ reference ∈ shorter ++ continuation, reference.Fits mesh :=
    List.forall_mem_append.mpr ⟨shorterReduced.fits, fits⟩
  refine ⟨⟨fun isStrict => isStrict.exists_continuation shorterReduced reduced, ?_⟩, ?_⟩
  · rintro ⟨continuation, nonempty, fits, rfl⟩
    exact isStrictPrefixOf_joined shorterReduced.merged (together fits) nonempty
  · intro continuation fits isJoined
    have isProduct : shards mesh axes = shards mesh shorter * shards mesh continuation := by
      rw [← isJoined, shards_joined (together fits), shards_append]
    refine ⟨isProduct, fun counted => ?_⟩
    have positive := shards_pos_of_fits reduced.fits
    have shorterCounted := counted.of_dvd positive ⟨_, isProduct⟩
    have behindCounted := counted.of_dvd positive ⟨_, isProduct.trans (Nat.mul_comm _ _)⟩
    rw [sizeBeyond, counted.size_eq, shorterCounted.size_eq, behindCounted.size_eq, isProduct,
      Nat.mul_div_cancel_left _ (shards_pos_of_fits shorterReduced.fits)]

/-- Racks in a hall, with bays. -/
def hallMesh : Mesh where
  axes := [⟨"hall", 20, by decide, by decide, by decide⟩,
    ⟨"rack", 24, by decide, by decide, by decide⟩, ⟨"bay", 21, by decide, by decide, by decide⟩]
  names_nodup := by decide

/-- The hall and half of the racks are continued to the hall, all racks and a third of the bays, in
three steps of which two complete the racks. -/
theorem half_racks_continued :
    IsStrictPrefixOf [.whole "hall", .part "rack" 1 2]
        [.whole "hall", .whole "rack", .part "bay" 1 3] ∧
      sizeBeyond hallMesh [.whole "hall", .whole "rack", .part "bay" 1 3]
          [.whole "hall", .part "rack" 1 2] =
        size hallMesh [.part "rack" 2 3, .part "rack" 6 4, .part "bay" 1 3] := by
  obtain ⟨continued, beyond⟩ := isStrictPrefixOf_iff_continued hallMesh
    [.whole "hall", .part "rack" 1 2] [.whole "hall", .whole "rack", .part "bay" 1 3]
    ⟨by decide, by decide, by unfold Merged; decide⟩
    ⟨by decide, by decide, by unfold Merged; decide⟩
  have accepted : ∀ reference ∈ [AxisRef.part "rack" 2 3, .part "rack" 6 4, .part "bay" 1 3],
      reference.check hallMesh = .ok () := by decide
  obtain ⟨-, isQuotient⟩ := beyond _ accepted (by decide)
  exact ⟨continued.mpr ⟨_, List.cons_ne_nil _ _, accepted, by decide⟩, isQuotient (by decide)⟩

/-- Two axes with so many devices that a word cannot count the pairs. -/
def wideMesh : Mesh where
  axes := [⟨"north", 4294967296, by decide, by decide, by decide⟩,
    ⟨"east", 8589934592, by decide, by decide, by decide⟩]
  names_nodup := by decide

/-- The north axis is continued by the east axis. A word holds nothing of the shards of both, so
nothing is left of those of the east axis beyond the north axis. -/
theorem east_lost_beyond_north :
    IsReduced wideMesh [.whole "north"] ∧ IsReduced wideMesh [.whole "north", .whole "east"] ∧
      IsStrictPrefixOf [.whole "north"] [.whole "north", .whole "east"] ∧
      (AxisRef.whole "east").check wideMesh = .ok () ∧
      joined wideMesh ([.whole "north"] ++ [.whole "east"]) = [.whole "north", .whole "east"] ∧
      sizeBeyond wideMesh [.whole "north", .whole "east"] [.whole "north"] = 0 ∧
      size wideMesh [.whole "east"] = 8589934592 :=
  ⟨⟨by decide, by decide, by unfold Merged; decide⟩,
    ⟨by decide, by decide, by unfold Merged; decide⟩, by decide, by decide, by decide, by decide,
    by decide⟩

end AxisSequence

/-! ## The two parts of a reference -/

namespace AxisRef

variable {mesh : Mesh} {reference major minor other : AxisRef}

/-- The reference is divided into two parts, of which the first is the major one. -/
structure ConsistsOf (mesh : Mesh) (reference major minor : AxisRef) : Prop where
  majorAccepted : major.check mesh = .ok ()
  minorAccepted : minor.check mesh = .ok ()
  /-- The major part covers the reference from its start, and not all of it. -/
  isStrict : major.IsStrictPrefixOf reference
  adjoins : major.Adjoins minor
  joins : major.join mesh minor = reference
  size_mul : major.size mesh * minor.size mesh = reference.size mesh
  apart : ¬ major.Overlaps minor
  /-- Whatever is accepted for the mesh meets the reference where it meets one of the parts. -/
  overlaps_iff : ∀ other : AxisRef, other.check mesh = .ok () →
    (other.Overlaps reference ↔ other.Overlaps major ∨ other.Overlaps minor)

/-- Parts that adjoin have no shards in common, since the second starts where the first ends. -/
theorem Adjoins.not_overlaps (adjoins : major.Adjoins minor) : ¬ major.Overlaps minor := by
  obtain ⟨axis, preSize, majorSize, minorSize, rfl, rfl⟩ := adjoins.exists_parts
  rintro ⟨-, -, before⟩
  exact Nat.lt_irrefl _ before

/-- What is joined overlaps what one of its two parts overlaps. -/
theorem overlaps_join_iff (adjoins : major.Adjoins minor) (majorFits : major.Fits mesh)
    (minorFits : minor.Fits mesh) (fits : other.Fits mesh) :
    other.Overlaps (major.join mesh minor) ↔ other.Overlaps major ∨ other.Overlaps minor :=
  ⟨overlaps_of_overlaps_join adjoins majorFits minorFits fits,
    overlaps_join adjoins majorFits minorFits⟩

/-- Two adjoining parts make up what they are joined to. -/
theorem consistsOf_join (adjoins : major.Adjoins minor) (majorFits : major.Fits mesh)
    (minorFits : minor.Fits mesh) : (major.join mesh minor).ConsistsOf mesh major minor where
  majorAccepted := check_eq_ok_iff.mpr majorFits
  minorAccepted := check_eq_ok_iff.mpr minorFits
  isStrict := isStrictPrefixOf_join adjoins majorFits minorFits
  adjoins := adjoins
  joins := rfl
  size_mul := (size_join adjoins majorFits minorFits).symm
  apart := adjoins.not_overlaps
  overlaps_iff _ accepted :=
    overlaps_join_iff adjoins majorFits minorFits (check_eq_ok_iff.mp accepted)

/-- Cutting a reference in two gives its parts. -/
theorem consistsOf_split {majorSize : Nat} (fits : reference.Fits mesh)
    (spelled : ¬ reference.SpellsWhole mesh) (several : 1 < majorSize)
    (proper : majorSize < reference.size mesh) (divides : majorSize ∣ reference.size mesh) :
    reference.ConsistsOf mesh (reference.split mesh majorSize).1
      (reference.split mesh majorSize).2 := by
  obtain ⟨majorFits, minorFits⟩ := fits.split several proper divides
  have parts := consistsOf_join (split_adjoins mesh reference majorSize) majorFits minorFits
  rwa [join_split fits divides spelled] at parts

/-- The parts of a reference are what it is cut into after the major one. -/
theorem ConsistsOf.split_eq (parts : reference.ConsistsOf mesh major minor) :
    reference.split mesh (major.size mesh) = (major, minor) := by
  have majorFits := check_eq_ok_iff.mp parts.majorAccepted
  have minorFits := check_eq_ok_iff.mp parts.minorAccepted
  rw [← parts.joins]
  exact split_join parts.adjoins majorFits minorFits

/-- **Cutting a reference gives the two parts that it consists of.** For every number of shards at
which the reference can be cut there is one way for it to consist of a major part with that many
shards and a minor part, and the cut finds it. The reference is to be accepted for the mesh and not
a part that has all shards of its axis. -/
theorem split_eq_iff_consistsOf (mesh : Mesh) (reference : AxisRef)
    (accepted : reference.check mesh = .ok ()) (spelled : ¬ reference.SpellsWhole mesh)
    (majorSize : Nat) (several : 1 < majorSize) (proper : majorSize < reference.size mesh)
    (divides : majorSize ∣ reference.size mesh) (major minor : AxisRef) :
    reference.split mesh majorSize = (major, minor) ↔
      major.size mesh = majorSize ∧ reference.ConsistsOf mesh major minor := by
  constructor
  · intro isSplit
    have parts :=
      consistsOf_split (check_eq_ok_iff.mp accepted) spelled several proper divides
    have isMajor : (reference.split mesh majorSize).1.size mesh = majorSize := rfl
    rw [isSplit] at parts isMajor
    exact ⟨isMajor, parts⟩
  · rintro ⟨rfl, parts⟩
    exact parts.split_eq

/-- A belt of sixty devices. -/
def beltMesh : Mesh where
  axes := [⟨"belt", 60, by decide, by decide, by decide⟩]
  names_nodup := by decide

/-- The belt consists of a part with four shards and one with fifteen, and the latter of one with
three shards and one with five. -/
theorem belt_consistsOf :
    (AxisRef.whole "belt").ConsistsOf beltMesh (.part "belt" 1 4) (.part "belt" 4 15) ∧
      (AxisRef.part "belt" 4 15).ConsistsOf beltMesh (.part "belt" 4 3) (.part "belt" 12 5) := by
  have isSplit : (AxisRef.whole "belt").split beltMesh 4 =
      (.part "belt" 1 4, .part "belt" 4 15) := by decide
  have minorSplit : (AxisRef.part "belt" 4 15).split beltMesh 3 =
      (.part "belt" 4 3, .part "belt" 12 5) := by decide
  exact ⟨((split_eq_iff_consistsOf beltMesh _ (by decide) (by decide) 4 (by decide) (by decide)
      (by decide) _ _).mp isSplit).2,
    ((split_eq_iff_consistsOf beltMesh _ (by decide) (by decide) 3 (by decide) (by decide)
      (by decide) _ _).mp minorSplit).2⟩

end AxisRef

end MeshSharding
