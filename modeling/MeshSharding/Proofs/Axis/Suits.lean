import Mathlib.Data.List.Chain
import MeshSharding.Axis.Sequence
import MeshSharding.Proofs.Axis.Parts

/-!
# Sequences that suit a mesh

A sequence suits a mesh when its references fit the mesh and no two of them
overlap. Two operations rewrite sequences, and both keep what suits: references
may be cut into parts (`Suits.of_refines`), and adjoining neighbours may be
joined (`Suits.joined`). The sequence that comes out reaches no further than the
one that goes in (`Within`), so whatever was apart from it stays apart, and
sequences can be rewritten one by one within a greater whole
(`Suits.flatMap_within`).

A sequence is merged when no two neighbours adjoin. Joining makes a sequence so
(`merged_joined`) and leaves a merged sequence alone (`joined_eq_self`).
-/

set_option autoImplicit false

namespace MeshSharding

namespace AxisSequence

variable {mesh : Mesh}

/-- The references fit the mesh, and no two of them overlap. -/
structure Suits (mesh : Mesh) (axes : AxisSequence) : Prop where
  fits : ∀ reference ∈ axes, reference.Fits mesh
  apart : axes.Pairwise fun first second => ¬ first.Overlaps second

/-- No two neighbours adjoin. -/
def Merged (axes : AxisSequence) : Prop :=
  axes.IsChain fun major minor => ¬ major.Adjoins minor

/-- Of the references that fit the mesh, the first sequence overlaps only what the second one
overlaps too. -/
def Within (mesh : Mesh) (inner outer : AxisSequence) : Prop :=
  ∀ reference : AxisRef, reference.Fits mesh →
    OverlapsAxis inner reference → OverlapsAxis outer reference

theorem suits_nil : Suits mesh [] :=
  ⟨fun _ member => absurd member List.not_mem_nil, List.Pairwise.nil⟩

theorem not_overlaps_iff {first second : AxisSequence} :
    ¬ Overlaps first second ↔ ∀ own ∈ first, ∀ other ∈ second, ¬ own.Overlaps other := by
  constructor
  · intro apart own ownMember other otherMember overlap
    exact apart ⟨other, otherMember, own, ownMember, overlap⟩
  · rintro apart ⟨other, otherMember, own, ownMember, overlap⟩
    exact apart own ownMember other otherMember overlap

theorem not_overlaps_flatMap_iff {α : Type} {members : List α} {axesOf : α → AxisSequence}
    {other : AxisSequence} : ¬ Overlaps (members.flatMap axesOf) other ↔
      ∀ member ∈ members, ¬ Overlaps (axesOf member) other := by
  simp only [not_overlaps_iff, List.mem_flatMap, forall_exists_index, and_imp]
  exact ⟨fun apart member isMember own inMember => apart own member isMember inMember,
    fun apart own member isMember inMember => apart member isMember own inMember⟩

theorem suits_append_iff {first second : AxisSequence} :
    Suits mesh (first ++ second) ↔
      Suits mesh first ∧ Suits mesh second ∧ ¬ Overlaps first second := by
  rw [not_overlaps_iff]
  constructor
  · rintro ⟨fits, apart⟩
    obtain ⟨firstApart, secondApart, between⟩ := List.pairwise_append.mp apart
    rw [List.forall_mem_append] at fits
    exact ⟨⟨fits.1, firstApart⟩, ⟨fits.2, secondApart⟩, between⟩
  · rintro ⟨firstSuits, secondSuits, between⟩
    exact ⟨List.forall_mem_append.mpr ⟨firstSuits.fits, secondSuits.fits⟩,
      List.pairwise_append.mpr ⟨firstSuits.apart, secondSuits.apart, between⟩⟩

/-- Sequences that suit the mesh, one for each member of a list, suit it together when no two of
them overlap. -/
theorem suits_flatMap_iff {α : Type} {members : List α} {axesOf : α → AxisSequence} :
    Suits mesh (members.flatMap axesOf) ↔
      (∀ member ∈ members, Suits mesh (axesOf member)) ∧
        members.Pairwise fun first second => ¬ Overlaps (axesOf first) (axesOf second) := by
  simp only [not_overlaps_iff]
  constructor
  · rintro ⟨fits, apart⟩
    obtain ⟨inside, between⟩ := List.pairwise_flatMap.mp apart
    refine ⟨fun member isMember => ⟨fun reference found => ?_, inside member isMember⟩, between⟩
    exact fits reference (List.mem_flatMap.mpr ⟨member, isMember, found⟩)
  · rintro ⟨each, between⟩
    refine ⟨?_, List.pairwise_flatMap.mpr
      ⟨fun member isMember => (each member isMember).apart, between⟩⟩
    intro reference found
    obtain ⟨member, isMember, inMember⟩ := List.mem_flatMap.mp found
    exact (each member isMember).fits reference inMember

theorem Suits.sublist {axes shorter : AxisSequence} (suits : Suits mesh axes)
    (isSublist : shorter.Sublist axes) : Suits mesh shorter :=
  ⟨fun reference member => suits.fits reference (isSublist.subset member),
    suits.apart.sublist isSublist⟩

theorem Suits.perm {axes other : AxisSequence} (suits : Suits mesh axes)
    (isPerm : axes.Perm other) : Suits mesh other where
  fits reference member := suits.fits reference (isPerm.mem_iff.mpr member)
  apart := suits.apart.perm isPerm fun apart overlap => apart (AxisRef.Overlaps.symm overlap)

/-! ## Reaching no further -/

theorem Within.refl (axes : AxisSequence) : Within mesh axes axes :=
  fun _ _ overlap => overlap

theorem Within.trans {inner middle outer : AxisSequence} (first : Within mesh inner middle)
    (second : Within mesh middle outer) : Within mesh inner outer :=
  fun reference fits overlap => second reference fits (first reference fits overlap)

theorem overlapsAxis_append_iff {first second : AxisSequence} {reference : AxisRef} :
    OverlapsAxis (first ++ second) reference ↔
      OverlapsAxis first reference ∨ OverlapsAxis second reference := by
  simp only [OverlapsAxis, List.mem_append, or_and_right, exists_or]

theorem Within.append {inner outer inner' outer' : AxisSequence} (first : Within mesh inner outer)
    (second : Within mesh inner' outer') : Within mesh (inner ++ inner') (outer ++ outer') := by
  intro reference fits overlap
  rw [overlapsAxis_append_iff] at overlap ⊢
  exact overlap.imp (first reference fits) (second reference fits)

theorem Within.not_overlaps {inner outer other : AxisSequence} (within : Within mesh inner outer)
    (fits : ∀ reference ∈ other, reference.Fits mesh) (apart : ¬ Overlaps outer other) :
    ¬ Overlaps inner other := by
  rintro ⟨reference, member, overlap⟩
  exact apart ⟨reference, member, within reference (fits reference member) overlap⟩

/-- In front of others, a sequence may be replaced by one that suits the mesh and reaches no
further. -/
theorem Suits.replace_front {inner outer rest : AxisSequence} (suits : Suits mesh (outer ++ rest))
    (innerSuits : Suits mesh inner) (within : Within mesh inner outer) :
    Suits mesh (inner ++ rest) := by
  obtain ⟨-, restSuits, apart⟩ := suits_append_iff.mp suits
  exact suits_append_iff.mpr ⟨innerSuits, restSuits, within.not_overlaps restSuits.fits apart⟩

/-- So may it be behind others. -/
theorem Suits.replace_back {front inner outer : AxisSequence}
    (suits : Suits mesh (front ++ outer)) (innerSuits : Suits mesh inner)
    (within : Within mesh inner outer) : Suits mesh (front ++ inner) := by
  obtain ⟨frontSuits, -, apart⟩ := suits_append_iff.mp suits
  have stillApart : ¬ Overlaps inner front :=
    within.not_overlaps frontSuits.fits fun overlap => apart overlap.symm
  exact suits_append_iff.mpr ⟨frontSuits, innerSuits, fun overlap => stillApart overlap.symm⟩

/-- Each of several sequences that suit the mesh together may be replaced by one that suits it and
reaches no further. -/
theorem Suits.flatMap_within {α : Type} {members : List α} {inner outer : α → AxisSequence}
    (suits : Suits mesh (members.flatMap outer))
    (each : ∀ member ∈ members,
      Suits mesh (inner member) ∧ Within mesh (inner member) (outer member)) :
    Suits mesh (members.flatMap inner) ∧
      Within mesh (members.flatMap inner) (members.flatMap outer) := by
  induction members with
  | nil => exact ⟨suits, .refl _⟩
  | cons first rest ih =>
    rw [List.forall_mem_cons] at each
    rw [List.flatMap_cons] at suits
    obtain ⟨laterSuits, laterWithin⟩ := ih (suits_append_iff.mp suits).2.1 each.2
    simp only [List.flatMap_cons]
    exact ⟨(suits.replace_front each.1.1 each.1.2).replace_back laterSuits laterWithin,
      each.1.2.append laterWithin⟩

/-! ## Cutting references -/

/-- The second sequence is the first with references cut into parts, from the front on. -/
inductive Refines (mesh : Mesh) : AxisSequence → AxisSequence → Prop where
  | nil : Refines mesh [] []
  | keep {coarse fine : AxisSequence} (reference : AxisRef) (rest : Refines mesh coarse fine) :
    Refines mesh (reference :: coarse) (reference :: fine)
  | cut {coarse fine : AxisSequence} (reference : AxisRef) (majorSize : Nat)
    (several : 1 < majorSize) (proper : majorSize < reference.size mesh)
    (divides : majorSize ∣ reference.size mesh)
    (rest : Refines mesh ((reference.split mesh majorSize).2 :: coarse) fine) :
    Refines mesh (reference :: coarse) ((reference.split mesh majorSize).1 :: fine)

theorem Refines.refl (axes : AxisSequence) : Refines mesh axes axes := by
  induction axes with
  | nil => exact .nil
  | cons reference rest ih => exact .keep reference ih

/-- The parts of a reference that fits suit the mesh and reach no further than the reference. -/
theorem suits_split {reference : AxisRef} {majorSize : Nat} (fits : reference.Fits mesh)
    (several : 1 < majorSize) (proper : majorSize < reference.size mesh)
    (divides : majorSize ∣ reference.size mesh) :
    Suits mesh [(reference.split mesh majorSize).1, (reference.split mesh majorSize).2] ∧
      Within mesh [(reference.split mesh majorSize).1, (reference.split mesh majorSize).2]
        [reference] := by
  have halvesFit := fits.split several proper divides
  constructor
  · constructor
    · simpa only [List.forall_mem_cons, List.not_mem_nil, false_imp_iff, implies_true, and_true]
        using halvesFit
    · exact List.pairwise_pair.mpr AxisRef.split_not_overlaps
  · rintro other - ⟨own, isHalf, overlap⟩
    refine ⟨reference, List.mem_singleton_self _, AxisRef.Overlaps.symm ?_⟩
    refine AxisRef.overlaps_of_overlaps_split fits several proper divides ?_
    simp only [List.mem_cons, List.not_mem_nil, or_false] at isHalf
    rcases isHalf with rfl | rfl
    · exact .inl overlap.symm
    · exact .inr overlap.symm

/-- Cutting references keeps a sequence suitable and reaches no further. -/
theorem Suits.of_refines {coarse fine : AxisSequence} (refines : Refines mesh coarse fine)
    (suits : Suits mesh coarse) : Suits mesh fine ∧ Within mesh fine coarse := by
  induction refines with
  | nil => exact ⟨suits, .refl _⟩
  | @keep coarse fine reference rest ih =>
    have parts : Suits mesh ([reference] ++ coarse) := suits
    obtain ⟨fineSuits, fineWithin⟩ := ih (suits_append_iff.mp parts).2.1
    exact ⟨parts.replace_back fineSuits fineWithin, Within.append (.refl [reference]) fineWithin⟩
  | @cut coarse fine reference majorSize several proper divides rest ih =>
    obtain ⟨halvesSuit, halvesWithin⟩ :=
      suits_split (suits.fits reference (List.mem_cons_self ..)) several proper divides
    have whole : Suits mesh ([reference] ++ coarse) := suits
    -- the parts take the place of the reference, and the induction goes on behind the first
    have cut := whole.replace_front halvesSuit halvesWithin
    have parts : Suits mesh ([(reference.split mesh majorSize).1] ++
        ((reference.split mesh majorSize).2 :: coarse)) := cut
    obtain ⟨fineSuits, fineWithin⟩ := ih (suits_append_iff.mp parts).2.1
    exact ⟨parts.replace_back fineSuits fineWithin,
      (Within.append (.refl [_]) fineWithin).trans (halvesWithin.append (.refl coarse))⟩

/-! ## Joining neighbours -/

/-- The reference that covers two adjoining parts reaches no further than they do. -/
theorem suits_join {major minor : AxisRef} (adjoins : major.Adjoins minor)
    (majorFits : major.Fits mesh) (minorFits : minor.Fits mesh) :
    Suits mesh [major.join mesh minor] ∧ Within mesh [major.join mesh minor] [major, minor] := by
  constructor
  · refine ⟨?_, List.pairwise_singleton _ _⟩
    intro other member
    rw [List.mem_singleton.mp member]
    exact majorFits.join adjoins minorFits
  · rintro other otherFits ⟨own, isOwn, overlap⟩
    rw [List.mem_singleton.mp isOwn] at overlap
    rcases AxisRef.overlaps_of_overlaps_join adjoins majorFits minorFits otherFits
      overlap.symm with inMajor | inMinor
    · exact ⟨major, List.mem_cons_self .., inMajor.symm⟩
    · exact ⟨minor, List.mem_cons_of_mem _ (List.mem_singleton_self _), inMinor.symm⟩

theorem Suits.joinedAfter {gathered : AxisRef} {rest : AxisSequence}
    (suits : Suits mesh (gathered :: rest)) :
    Suits mesh (joinedAfter mesh gathered rest) ∧
      Within mesh (joinedAfter mesh gathered rest) (gathered :: rest) := by
  induction rest generalizing gathered with
  | nil => exact ⟨suits, .refl _⟩
  | cons reference rest ih =>
    by_cases adjoins : gathered.Adjoins reference
    · simp only [AxisSequence.joinedAfter, adjoins, if_true]
      have fits := List.forall_mem_cons.mp suits.fits
      obtain ⟨joinSuits, joinWithin⟩ :=
        suits_join adjoins fits.1 (fits.2 reference (List.mem_cons_self ..))
      have pair : Suits mesh ([gathered, reference] ++ rest) := suits
      obtain ⟨laterSuits, laterWithin⟩ := ih (pair.replace_front joinSuits joinWithin)
      exact ⟨laterSuits, laterWithin.trans (joinWithin.append (.refl rest))⟩
    · simp only [AxisSequence.joinedAfter, adjoins, if_false]
      have parts : Suits mesh ([gathered] ++ (reference :: rest)) := suits
      obtain ⟨laterSuits, laterWithin⟩ := ih (suits_append_iff.mp parts).2.1
      exact ⟨parts.replace_back laterSuits laterWithin,
        Within.append (.refl [gathered]) laterWithin⟩

/-- Joining keeps a sequence suitable and reaches no further. -/
theorem Suits.joined {axes : AxisSequence} (suits : Suits mesh axes) :
    Suits mesh (joined mesh axes) ∧ Within mesh (joined mesh axes) axes := by
  cases axes with
  | nil => exact ⟨suits, .refl _⟩
  | cons reference rest => exact suits.joinedAfter

theorem within_joinedAfter {gathered : AxisRef} {rest : AxisSequence}
    (fits : ∀ reference ∈ gathered :: rest, reference.Fits mesh) :
    Within mesh (gathered :: rest) (joinedAfter mesh gathered rest) := by
  induction rest generalizing gathered with
  | nil => exact .refl _
  | cons reference rest ih =>
    obtain ⟨gatheredFits, laterFits⟩ := List.forall_mem_cons.mp fits
    obtain ⟨referenceFits, restFits⟩ := List.forall_mem_cons.mp laterFits
    by_cases adjoins : gathered.Adjoins reference
    · simp only [AxisSequence.joinedAfter, adjoins, if_true]
      have covered : Within mesh [gathered, reference] [gathered.join mesh reference] := by
        rintro other - ⟨own, isOwn, overlap⟩
        refine ⟨_, List.mem_singleton_self _, AxisRef.Overlaps.symm ?_⟩
        refine AxisRef.overlaps_join adjoins gatheredFits referenceFits ?_
        simp only [List.mem_cons, List.not_mem_nil, or_false] at isOwn
        rcases isOwn with rfl | rfl
        · exact .inl overlap.symm
        · exact .inr overlap.symm
      exact (Within.append covered (.refl rest)).trans (ih (List.forall_mem_cons.mpr
        ⟨gatheredFits.join adjoins referenceFits, restFits⟩))
    · simp only [AxisSequence.joinedAfter, adjoins, if_false]
      exact Within.append (.refl [gathered]) (ih laterFits)

/-- Joining loses nothing: a sequence overlaps the same references before and after. -/
theorem Suits.overlaps_joined_iff {axes other : AxisSequence} (suits : Suits mesh axes)
    (fits : ∀ reference ∈ other, reference.Fits mesh) :
    Overlaps (AxisSequence.joined mesh axes) other ↔ Overlaps axes other := by
  have covered : Within mesh axes (AxisSequence.joined mesh axes) := by
    cases axes with
    | nil => exact .refl _
    | cons reference rest => exact within_joinedAfter suits.fits
  constructor
  · rintro ⟨reference, member, overlap⟩
    exact ⟨reference, member, suits.joined.2 reference (fits reference member) overlap⟩
  · rintro ⟨reference, member, overlap⟩
    exact ⟨reference, member, covered reference (fits reference member) overlap⟩

/-- A part in front of a sequence that it adjoins is joined to the head of the joined sequence. -/
theorem joinedAfter_join {first second : AxisRef} {rest : AxisSequence}
    (fits : ∀ reference ∈ first :: second :: rest, reference.Fits mesh)
    (adjoins : first.Adjoins second) :
    ∃ head tail, joinedAfter mesh second rest = head :: tail ∧ first.Adjoins head ∧
      head.Fits mesh ∧
      joinedAfter mesh (first.join mesh second) rest = first.join mesh head :: tail := by
  induction rest generalizing second with
  | nil => exact ⟨second, [], rfl, adjoins, fits second (by simp), rfl⟩
  | cons third rest ih =>
    obtain ⟨firstFits, laterFits⟩ := List.forall_mem_cons.mp fits
    obtain ⟨secondFits, laterFits⟩ := List.forall_mem_cons.mp laterFits
    obtain ⟨thirdFits, restFits⟩ := List.forall_mem_cons.mp laterFits
    have follows := AxisRef.join_adjoins_iff adjoins firstFits secondFits thirdFits
    by_cases adjoinsNext : second.Adjoins third
    · obtain ⟨head, tail, isJoined, adjoinsHead, headFits, isJoinedFirst⟩ :=
        ih (List.forall_mem_cons.mpr ⟨firstFits, List.forall_mem_cons.mpr
          ⟨secondFits.join adjoinsNext thirdFits, restFits⟩⟩)
          (AxisRef.adjoins_join firstFits adjoins adjoinsNext)
      refine ⟨head, tail, ?_, adjoinsHead, headFits, ?_⟩
      · rw [joinedAfter, if_pos adjoinsNext, isJoined]
      · rw [joinedAfter, if_pos (follows.mpr adjoinsNext),
          AxisRef.join_assoc firstFits secondFits thirdFits adjoins adjoinsNext, isJoinedFirst]
    · refine ⟨second, joinedAfter mesh third rest, ?_, adjoins, secondFits, ?_⟩
      · rw [joinedAfter, if_neg adjoinsNext]
      · rw [joinedAfter, if_neg fun joins => adjoinsNext (follows.mp joins)]

/-- What precedes a sequence without adjoining it does not adjoin it once it is joined. -/
theorem merged_cons_joinedAfter {previous gathered : AxisRef} {rest : AxisSequence}
    (apart : ¬ previous.Adjoins gathered) :
    Merged (previous :: joinedAfter mesh gathered rest) := by
  induction rest generalizing previous gathered with
  | nil => exact .cons_cons apart (.singleton _)
  | cons reference rest ih =>
    by_cases adjoins : gathered.Adjoins reference
    · simp only [joinedAfter, adjoins, if_true]
      exact ih fun joined => apart (AxisRef.adjoins_of_adjoins_join adjoins joined)
    · simp only [joinedAfter, adjoins, if_false]
      exact .cons_cons apart (ih adjoins)

theorem merged_joined (axes : AxisSequence) : Merged (joined mesh axes) := by
  cases axes with
  | nil => exact .nil
  | cons reference rest =>
    -- a whole axis adjoins nothing, so it may stand in front
    have behind : Merged (.whole "" :: joinedAfter mesh reference rest) :=
      merged_cons_joinedAfter (by cases reference <;> exact id)
    exact behind.tail

theorem joined_eq_self {axes : AxisSequence} (merged : Merged axes) : joined mesh axes = axes := by
  cases axes with
  | nil => rfl
  | cons gathered rest =>
    rw [joined]
    induction rest generalizing gathered with
    | nil => rfl
    | cons reference rest ih =>
      obtain ⟨apart, later⟩ := List.isChain_cons_cons.mp merged
      rw [joinedAfter, if_neg apart, ih reference later]

theorem Merged.of_isPrefix {shorter axes : AxisSequence} (merged : Merged axes)
    (begins : shorter <+: axes) : Merged shorter :=
  List.IsChain.prefix merged begins

end AxisSequence

end MeshSharding
