import MeshSharding.Program.Module
import MeshSharding.Proofs.Axis.Suits
import MeshSharding.Proofs.ListsAndChecks

/-!
# Shardings that suit a mesh

The check of a tensor sharding accepts exactly the shardings of the right rank
whose dimensions are merged and whose references, the replicated ones among
them, suit the mesh together (`TensorSharding.check_eq_ok_iff`).

The dimensions of a sharding suit a mesh and a rank by themselves when this is so
without the replicated references. That is less than the check asks for, but it
is what projecting an operation rests on and what the new shardings of a run
have; without replicated references it is as much.
-/

set_option autoImplicit false

namespace MeshSharding

open AxisSequence (Merged Suits)

variable {mesh : Mesh}

theorem firstAdjoining?_eq_none_iff {axes : AxisSequence} :
    firstAdjoining? axes = none ↔ Merged axes := by
  induction axes with
  | nil => exact ⟨fun _ => .nil, fun _ => rfl⟩
  | cons first rest ih =>
    cases rest with
    | nil => exact ⟨fun _ => .singleton _, fun _ => rfl⟩
    | cons second rest =>
      unfold Merged at ih ⊢
      rw [firstAdjoining?, List.isChain_cons_cons, ← ih]
      by_cases adjoins : first.Adjoins second
      · simp [adjoins]
      · simp [adjoins]

/-- References are accepted when they suit the mesh and are apart from those seen before. -/
theorem checkDisjoint_eq_ok_iff {seen axes : AxisSequence} :
    checkDisjoint mesh seen axes = .ok () ↔
      Suits mesh axes ∧ ¬ AxisSequence.Overlaps seen axes := by
  induction axes generalizing seen with
  | nil =>
    refine ⟨fun _ => ⟨AxisSequence.suits_nil, ?_⟩, fun _ => rfl⟩
    rintro ⟨reference, member, -⟩
    exact List.not_mem_nil member
  | cons reference rest ih =>
    have parts : reference :: rest = [reference] ++ rest := rfl
    rw [parts, AxisSequence.suits_append_iff, ← parts, checkDisjoint]
    cases fits : reference.check mesh with
    | error cause =>
      refine ⟨fun failed => (nomatch failed), ?_⟩
      rintro ⟨⟨headSuits, -⟩, -⟩
      have isOk := AxisRef.check_eq_ok_iff.mpr (headSuits.fits _ (List.mem_singleton_self _))
      rw [fits] at isOk
      cases isOk
    | ok checked =>
      have headSuits : Suits mesh [reference] := by
        refine ⟨?_, List.pairwise_singleton _ _⟩
        intro other member
        rw [List.mem_singleton.mp member]
        exact AxisRef.check_eq_ok_iff.mp fits
      simp only [AxisSequence.not_overlaps_iff]
      by_cases overlaps : AxisSequence.OverlapsAxis seen reference
      · obtain ⟨own, ownMember, overlap⟩ := overlaps
        simp only [show AxisSequence.OverlapsAxis seen reference from ⟨own, ownMember, overlap⟩,
          if_true]
        refine ⟨fun failed => (nomatch failed), ?_⟩
        rintro ⟨-, apart⟩
        exact absurd overlap (apart own ownMember reference (List.mem_cons_self ..))
      · have fresh : ∀ own ∈ seen, ¬ own.Overlaps reference :=
          fun own ownMember overlap => overlaps ⟨own, ownMember, overlap⟩
        simp only [overlaps, if_false, ih, AxisSequence.not_overlaps_iff, List.forall_mem_append,
          List.forall_mem_cons, List.not_mem_nil, false_imp_iff, implies_true, and_true]
        constructor
        · rintro ⟨restSuits, seenApart, apart⟩
          exact ⟨⟨headSuits, restSuits, apart⟩,
            fun own ownMember => ⟨fresh own ownMember, seenApart own ownMember⟩⟩
        · rintro ⟨⟨-, restSuits, apart⟩, seenApart⟩
          exact ⟨restSuits, fun own ownMember => (seenApart own ownMember).2, apart⟩

namespace TensorSharding

variable {rank : Nat} {sharding : TensorSharding}

/-- The sharding has the rank, its dimensions are merged, and their references suit the mesh
together. -/
structure DimsSuit (mesh : Mesh) (rank : Nat) (sharding : TensorSharding) : Prop where
  rank_eq : sharding.rank = rank
  merged : ∀ dim ∈ sharding.dims, Merged dim.axes
  suits : Suits mesh (sharding.dims.flatMap DimSharding.axes)

theorem check_eq_ok_iff : sharding.check mesh rank = .ok () ↔
    sharding.rank = rank ∧ (∀ dim ∈ sharding.dims, Merged dim.axes) ∧
      Suits mesh sharding.axes := by
  have allMerged : (sharding.dims.findSome? fun dim => firstAdjoining? dim.axes) = none ↔
      ∀ dim ∈ sharding.dims, Merged dim.axes := by
    simp only [List.findSome?_eq_none_iff, firstAdjoining?_eq_none_iff]
  have nothingSeen : ¬ AxisSequence.Overlaps [] sharding.axes := by
    rintro ⟨reference, -, own, member, -⟩
    exact List.not_mem_nil member
  rw [← allMerged, check]
  by_cases sameRank : sharding.rank = rank
  · cases found : sharding.dims.findSome? fun dim => firstAdjoining? dim.axes with
    | some pair => simp [sameRank]
    | none => simp [sameRank, checkDisjoint_eq_ok_iff, nothingSeen]
  · simp [sameRank]

/-- The dimensions of an accepted sharding suit the mesh. -/
theorem dimsSuit_of_check (accepted : sharding.check mesh rank = .ok ()) :
    sharding.DimsSuit mesh rank := by
  obtain ⟨sameRank, merged, suits⟩ := check_eq_ok_iff.mp accepted
  exact ⟨sameRank, merged, (AxisSequence.suits_append_iff.mp suits).1⟩

/-- Without replicated references nothing but the dimensions has to suit the mesh. -/
theorem DimsSuit.check (suits : sharding.DimsSuit mesh rank) (bare : sharding.replicated = []) :
    sharding.check mesh rank = .ok () := by
  refine check_eq_ok_iff.mpr ⟨suits.rank_eq, suits.merged, ?_⟩
  rw [axes, bare, List.append_nil]
  exact suits.suits

/-- A sharding without axes suits every mesh. -/
theorem dimsSuit_of_axes_eq_nil (sharding : TensorSharding)
    (unsharded : ∀ dim ∈ sharding.dims, dim.axes = []) :
    sharding.DimsSuit mesh sharding.rank where
  rank_eq := rfl
  merged dim member := by
    rw [unsharded dim member]
    exact .nil
  suits := by
    rw [List.flatMap_eq_nil_iff.mpr unsharded]
    exact AxisSequence.suits_nil

theorem dimsSuit_fullyOpen (name : String) (rank : Nat) :
    (fullyOpen name rank).DimsSuit mesh rank := by
  have suits : (fullyOpen name rank).DimsSuit mesh (fullyOpen name rank).rank :=
    dimsSuit_of_axes_eq_nil _ fun dim member => by rw [List.eq_of_mem_replicate member]; rfl
  rwa [TensorSharding.rank, fullyOpen, List.length_replicate] at suits

theorem dimsSuit_fullyReplicated (name : String) (rank : Nat) :
    (fullyReplicated name rank).DimsSuit mesh rank := by
  have suits : (fullyReplicated name rank).DimsSuit mesh (fullyReplicated name rank).rank :=
    dimsSuit_of_axes_eq_nil _ fun dim member => by rw [List.eq_of_mem_replicate member]; rfl
  rwa [TensorSharding.rank, fullyReplicated, List.length_replicate] at suits

end TensorSharding

/-! ## Tensors -/

namespace Tensor

variable {meshes : SymbolTable} {tensor : Tensor}

/-- If the tensor has a sharding, its mesh is declared and its dimensions suit the mesh. -/
def Sound (meshes : SymbolTable) (tensor : Tensor) : Prop :=
  ∀ sharding, tensor.sharding = some sharding →
    ∃ mesh, meshes.mesh? sharding.mesh = some mesh ∧ sharding.DimsSuit mesh tensor.rank

theorem check_eq_ok_iff : tensor.check meshes = .ok () ↔
    ∀ sharding, tensor.sharding = some sharding →
      ∃ mesh, meshes.mesh? sharding.mesh = some mesh ∧
        sharding.check mesh tensor.rank = .ok () := by
  unfold check
  cases present : tensor.sharding with
  | none => simp
  | some sharding =>
    simp only [Option.some.injEq, forall_eq']
    cases declared : meshes.mesh? sharding.mesh with
    | none => simp
    | some mesh =>
      cases accepted : sharding.check mesh tensor.rank with
      | error cause => simp [accepted]
      | ok checked => simp [accepted]

theorem sound_of_check (accepted : tensor.check meshes = .ok ()) : tensor.Sound meshes := by
  intro sharding present
  obtain ⟨mesh, declared, suits⟩ := check_eq_ok_iff.mp accepted sharding present
  exact ⟨mesh, declared, TensorSharding.dimsSuit_of_check suits⟩

theorem Sound.check (sound : tensor.Sound meshes)
    (bare : ∀ sharding, tensor.sharding = some sharding → sharding.replicated = []) :
    tensor.check meshes = .ok () := by
  apply check_eq_ok_iff.mpr
  intro sharding present
  obtain ⟨mesh, declared, suits⟩ := sound sharding present
  exact ⟨mesh, declared, suits.check (bare sharding present)⟩

theorem checkTensors_eq_ok_iff {tensors : List Tensor} :
    checkTensors meshes tensors = .ok () ↔ ∀ tensor ∈ tensors, tensor.check meshes = .ok () := by
  induction tensors with
  | nil => simp [checkTensors]
  | cons tensor rest ih =>
    rw [checkTensors, seq_eq_ok_iff, ih, List.forall_mem_cons]

end Tensor

end MeshSharding
