import MeshSharding.Proofs.Axis.Suits

/-!
# Cut sequences joined again

Joining undoes cutting. The two parts of a cut reference are joined to the
reference they come from (`AxisRef.join_split`), unless it is a part that stands
for a whole axis, which comes back as the whole axis. References that were
neighbours before the cut stay apart, since a cut moves neither the start of the
first part nor the end of the last one. So a merged sequence is got back from
every refinement of it by joining neighbours (`AxisSequence.joined_of_refines`).
-/

set_option autoImplicit false

namespace MeshSharding

variable {mesh : Mesh}

namespace AxisRef

/-- A part that has all shards of its axis, so that it could be written as the whole axis. -/
def SpellsWhole (mesh : Mesh) : AxisRef → Prop
  | .whole _ => False
  | .part axis preSize size => preSize = 1 ∧ mesh.axisSize? axis = some size

instance (mesh : Mesh) (reference : AxisRef) : Decidable (reference.SpellsWhole mesh) :=
  match reference with
  | .whole _ => inferInstanceAs (Decidable False)
  | .part .. => inferInstanceAs (Decidable (_ ∧ _))

/-- A part that does not start its axis spells no whole axis. -/
theorem not_spellsWhole_of_one_lt_preSize {reference : AxisRef} (started : 1 < reference.preSize) :
    ¬ reference.SpellsWhole mesh := by
  cases reference with
  | whole axis => exact id
  | part axis preSize size => exact fun spells => Nat.ne_of_gt started spells.1

/-- The parts of a cut reference adjoin. -/
theorem split_adjoins (mesh : Mesh) (reference : AxisRef) (majorSize : Nat) :
    (reference.split mesh majorSize).1.Adjoins (reference.split mesh majorSize).2 :=
  ⟨rfl, rfl⟩

/-- The two parts of a cut reference have its shards. -/
theorem size_split {reference : AxisRef} {majorSize : Nat}
    (divides : majorSize ∣ reference.size mesh) :
    (reference.split mesh majorSize).1.size mesh * (reference.split mesh majorSize).2.size mesh =
      reference.size mesh :=
  Nat.mul_div_cancel' divides

/-- Joining the two parts of a cut reference gives the reference back. -/
theorem join_split {reference : AxisRef} {majorSize : Nat} (fits : reference.Fits mesh)
    (divides : majorSize ∣ reference.size mesh) (spelled : ¬ reference.SpellsWhole mesh) :
    (reference.split mesh majorSize).1.join mesh (reference.split mesh majorSize).2 =
      reference := by
  have isSize : wordMul ((reference.split mesh majorSize).1.size mesh)
      ((reference.split mesh majorSize).2.size mesh) = reference.size mesh := by
    rw [wordMul, size_split divides, Nat.mod_eq_of_lt fits.size_lt]
  rw [join_eq, isSize]
  cases reference with
  | whole axis =>
    obtain ⟨axisSize, found⟩ := fits
    refine if_pos ⟨rfl, ?_⟩
    rw [size, found]
    exact found
  | part axis preSize size => exact if_neg spelled

end AxisRef

namespace AxisSequence

/-- What precedes a sequence adjoins its first reference before and after neighbours are joined. -/
theorem adjoins_head_iff {previous gathered head : AxisRef} {rest tail : AxisSequence}
    (fits : previous.Fits mesh) (isJoined : joinedAfter mesh gathered rest = head :: tail) :
    previous.Adjoins head ↔ previous.Adjoins gathered := by
  induction rest generalizing gathered with
  | nil =>
    cases isJoined
    exact Iff.rfl
  | cons reference rest ih =>
    by_cases adjoins : gathered.Adjoins reference
    · rw [joinedAfter, if_pos adjoins] at isJoined
      exact (ih isJoined).trans ⟨AxisRef.adjoins_of_adjoins_join adjoins,
        fun before => AxisRef.adjoins_join fits before adjoins⟩
    · rw [joinedAfter, if_neg adjoins] at isJoined
      cases isJoined
      exact Iff.rfl

/-- A sequence that refines a non-empty one is not empty. -/
theorem Refines.exists_cons {reference : AxisRef} {coarse fine : AxisSequence}
    (refines : Refines mesh (reference :: coarse) fine) :
    ∃ first rest, fine = first :: rest := by
  cases refines with
  | keep _ rest => exact ⟨_, _, rfl⟩
  | cut _ majorSize several proper divides rest => exact ⟨_, _, rfl⟩

/-- What is left of a sequence when the major part of its first reference has been cut off. -/
theorem Suits.behind_cut {reference : AxisRef} {majorSize : Nat} {rest : AxisSequence}
    (suits : Suits mesh (reference :: rest)) (several : 1 < majorSize)
    (proper : majorSize < reference.size mesh) (divides : majorSize ∣ reference.size mesh) :
    Suits mesh ((reference.split mesh majorSize).2 :: rest) := by
  obtain ⟨halvesSuit, halvesWithin⟩ :=
    suits_split (suits.fits reference List.mem_cons_self) several proper divides
  have whole : Suits mesh ([reference] ++ rest) := suits
  exact (whole.replace_front halvesSuit halvesWithin).sublist (List.sublist_cons_self _ _)

theorem Merged.behind_cut {reference : AxisRef} {majorSize : Nat} {rest : AxisSequence}
    (merged : Merged (reference :: rest)) (suits : Suits mesh (reference :: rest))
    (divides : majorSize ∣ reference.size mesh) :
    Merged ((reference.split mesh majorSize).2 :: rest) := by
  cases rest with
  | nil => exact .singleton _
  | cons next others =>
    obtain ⟨apart, later⟩ := List.isChain_cons_cons.mp merged
    refine .cons_cons (fun adjoins => apart ?_) later
    exact AxisRef.adjoins_of_split_adjoins divides
      (List.rel_of_pairwise_cons suits.apart List.mem_cons_self) adjoins

/-- **A merged sequence is got back from its refinements by joining neighbours.** -/
theorem joined_of_refines {coarse fine : AxisSequence} (refines : Refines mesh coarse fine)
    (suits : Suits mesh coarse) (merged : Merged coarse)
    (spelled : ∀ reference ∈ coarse, ¬ reference.SpellsWhole mesh) :
    joined mesh fine = coarse := by
  induction refines with
  | nil => rfl
  | @keep coarse fine reference rest ih =>
    have headFits := suits.fits reference List.mem_cons_self
    have isJoined := ih (suits.sublist (List.sublist_cons_self _ _)) merged.tail
      fun other member => spelled other (List.mem_cons_of_mem _ member)
    cases coarse with
    | nil =>
      cases rest
      rfl
    | cons next others =>
      obtain ⟨second, later, rfl⟩ := rest.exists_cons
      have apart : ¬ reference.Adjoins second := fun adjoins =>
        (List.isChain_cons_cons.mp merged).1 ((adjoins_head_iff headFits isJoined).mpr adjoins)
      rw [joined, joinedAfter, if_neg apart]
      exact congrArg (reference :: ·) isJoined
  | @cut coarse fine reference majorSize several proper divides rest ih =>
    have fits := suits.fits reference List.mem_cons_self
    obtain ⟨majorFits, minorFits⟩ := fits.split several proper divides
    have behindSuits := suits.behind_cut several proper divides
    have started := majorFits.one_lt_preSize (AxisRef.split_adjoins mesh reference majorSize)
    have isJoined := ih behindSuits (merged.behind_cut suits divides)
      (List.forall_mem_cons.mpr ⟨AxisRef.not_spellsWhole_of_one_lt_preSize started,
        fun other member => spelled other (List.mem_cons_of_mem _ member)⟩)
    obtain ⟨second, later, rfl⟩ := rest.exists_cons
    -- the rest of the reference is joined first, and the major part is joined to the whole of it
    have adjoins := (adjoins_head_iff majorFits isJoined).mp
      (AxisRef.split_adjoins mesh reference majorSize)
    obtain ⟨head, tail, isBehind, -, -, isTogether⟩ := joinedAfter_join
      (List.forall_mem_cons.mpr ⟨majorFits, (behindSuits.of_refines rest).1.fits⟩) adjoins
    have sameHead := isBehind.symm.trans isJoined
    cases sameHead
    rw [joined, joinedAfter, if_pos adjoins, isTogether,
      AxisRef.join_split fits divides (spelled reference List.mem_cons_self)]

end AxisSequence

end MeshSharding
