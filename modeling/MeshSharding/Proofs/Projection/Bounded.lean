import MeshSharding.Projection.Factors
import MeshSharding.Proofs.Axis.Bounded
import MeshSharding.Proofs.Projection.ReadBack
import MeshSharding.Proofs.Reshard.Targets

/-!
# Reading and writing within the axes

A sharding can be handed out to factors, and written from factors again, with
the careful operations on references: a product of sizes along an axis is refused
if it is greater than the axis. Handing out forms such a product where a
reference is cut, and writing where neighbours are compared and joined. Nothing
is refused when the references fit the mesh, so what is read with care is what is
read (`Projection.ofSignatureWithin?_eq_some`), and what is written with care is
what is written (`TensorProjection.Fits.toShardingWithin?_eq_some`).
-/

set_option autoImplicit false

namespace MeshSharding

open AxisSequence (Suits)

variable {mesh : Mesh} {sizes : List Nat}

/-! ## Reading with care -/

/-- The share of a factor of which the given size remains. -/
def takeShareWithin? (mesh : Mesh) (remaining : Nat) : AxisSequence → Option Share
  | [] => some ⟨[], remaining, []⟩
  | reference :: rest =>
    let size := reference.size mesh
    let common := Nat.gcd remaining size
    if remaining ≤ 1 then some ⟨[], remaining, reference :: rest⟩
    else if size = 0 then none
    else if size ∣ remaining then do
      let share ← takeShareWithin? mesh (remaining / size) rest
      return { share with taken := reference :: share.taken }
    else if 1 < common then do
      let halves ← reference.splitWithin? mesh common
      return ⟨[halves.1], remaining / common, halves.2 :: rest⟩
    else some ⟨[], remaining, reference :: rest⟩

/-- The factors of a dimension with their shardings, given the axes that wait for them. -/
def dimEntriesWithin? (mesh : Mesh) (sizes : List Nat) (isClosed : Bool) (pending : AxisSequence) :
    DimMapping → Option (List (Nat × FactorSharding))
  | [] => some []
  | factor :: rest => do
    let size ← sizes[factor]?
    let share ← takeShareWithin? mesh size pending
    let isMinorMost := rest.isEmpty
    let keepsPending := isMinorMost || decide (1 < share.remaining)
    let later ← dimEntriesWithin? mesh sizes isClosed
      (if keepsPending then [] else share.pending) rest
    return (factor, {
      axes := share.taken
      overflow := if keepsPending then share.pending else []
      isClosed
      isMinorMost }) :: later

/-- The factors of all dimensions of a tensor with their shardings, dimension by dimension. -/
def tensorEntriesWithin? (mesh : Mesh) (sizes : List Nat) (dims : List DimSharding) :
    TensorMapping → Option (List (Nat × FactorSharding))
  | [] => some []
  | mapping :: rest => do
    let dim := dims.head?.getD .openEmpty
    let entries ← dimEntriesWithin? mesh sizes dim.isClosed dim.axes mapping
    let later ← tensorEntriesWithin? mesh sizes dims.tail rest
    return entries ++ later

/-- The projection of a tensor with the given sharding. -/
def TensorProjection.ofShardingWithin? (mesh : Mesh) (sizes : List Nat) (mapping : TensorMapping)
    (sharding : Option TensorSharding) : Option TensorProjection := do
  let entries ← tensorEntriesWithin? mesh sizes
    ((sharding.map TensorSharding.dims).getD []) mapping
  return {
    slots := filledSlots sizes.length entries
    replicated := (sharding.map TensorSharding.replicated).getD [] }

/-- The projections of tensors, each along its mapping. -/
def tensorProjectionsWithin? (mesh : Mesh) (sizes : List Nat) :
    List TensorMapping → List Tensor → Option (List TensorProjection)
  | mapping :: mappings, tensor :: tensors => do
    let first ← TensorProjection.ofShardingWithin? mesh sizes mapping tensor.sharding
    let later ← tensorProjectionsWithin? mesh sizes mappings tensors
    return first :: later
  | _, _ => some []

/-- The projection of an operation along a rule that suits its ranks. -/
def Projection.ofSignatureWithin? (mesh : Mesh) (rule : FactorRule) (signature : Signature) :
    Option Projection :=
  match rule.check (signature.operands.map Tensor.rank) (signature.results.map Tensor.rank) with
  | .error _ => none
  | .ok () => do
    let operands ← tensorProjectionsWithin? mesh rule.sizes rule.operands signature.operands
    let results ← tensorProjectionsWithin? mesh rule.sizes rule.results signature.results
    return { operands, results }

/-! ## Nothing is refused in reading -/

theorem takeShareWithin?_eq_some {axes : AxisSequence}
    (fits : ∀ reference ∈ axes, reference.Fits mesh) {remaining : Nat} {share : Share}
    (isOk : takeShare mesh remaining axes = .ok share) :
    takeShareWithin? mesh remaining axes = some share := by
  induction axes generalizing remaining share with
  | nil =>
    cases isOk
    rfl
  | cons reference rest ih =>
    obtain ⟨referenceFits, restFits⟩ := List.forall_mem_cons.mp fits
    by_cases full : remaining ≤ 1
    · rw [takeShare_full full] at isOk
      cases isOk
      simp only [takeShareWithin?, full, if_true]
    · have nonzero : reference.size mesh ≠ 0 := Nat.ne_of_gt referenceFits.size_pos
      by_cases divisible : reference.size mesh ∣ remaining
      · simp only [takeShare, full, nonzero, divisible, if_true, if_false] at isOk
        obtain ⟨later, laterOk, isShare⟩ := bind_eq_ok_iff.mp isOk
        cases isShare
        simp only [takeShareWithin?, full, nonzero, divisible, if_true, if_false,
          ih restFits laterOk]
        rfl
      · have cut := referenceFits.splitWithin?_eq_some
          (Nat.gcd_dvd_right remaining (reference.size mesh))
        by_cases several : 1 < Nat.gcd remaining (reference.size mesh)
        · simp only [takeShare, full, nonzero, divisible, several, if_true, if_false] at isOk
          cases isOk
          simp only [takeShareWithin?, full, nonzero, divisible, several, if_true, if_false, cut]
          rfl
        · simp only [takeShare, full, nonzero, divisible, several, if_false] at isOk
          cases isOk
          simp only [takeShareWithin?, full, nonzero, divisible, several, if_false]

theorem dimEntriesWithin?_eq_some {dim : DimMapping} {pending : AxisSequence} {isClosed : Bool}
    {entries : List (Nat × FactorSharding)} (suits : Suits mesh pending)
    (isOk : dimEntries mesh sizes isClosed pending dim = .ok entries) :
    dimEntriesWithin? mesh sizes isClosed pending dim = some entries := by
  induction dim generalizing pending entries with
  | nil =>
    cases isOk
    rfl
  | cons factor rest ih =>
    obtain ⟨size, share, later, isSize, taken, laterOk, rfl⟩ := dimEntries_cons_eq_ok isOk
    have leftSuits : Suits mesh
        (if rest.isEmpty || decide (1 < share.remaining) then [] else share.pending) := by
      split
      · exact AxisSequence.suits_nil
      · exact (takes_iff.mpr taken).suits_pending suits
    simp only [dimEntriesWithin?, isSize, takeShareWithin?_eq_some suits.fits taken,
      Option.bind_eq_bind, Option.bind_some, ih leftSuits laterOk]
    rfl

theorem tensorEntriesWithin?_eq_some {mapping : TensorMapping} {dims : List DimSharding}
    {entries : List (Nat × FactorSharding)} (suits : Suits mesh (dims.flatMap DimSharding.axes))
    (isOk : tensorEntries mesh sizes dims mapping = .ok entries) :
    tensorEntriesWithin? mesh sizes dims mapping = some entries := by
  induction mapping generalizing dims entries with
  | nil =>
    cases isOk
    rfl
  | cons dim rest ih =>
    obtain ⟨first, firstOk, chain⟩ := bind_eq_ok_iff.mp isOk
    obtain ⟨later, laterOk, isEntries⟩ := bind_eq_ok_iff.mp chain
    cases isEntries
    -- a missing dimension reads as one without axes
    have parts : dims.flatMap DimSharding.axes =
        (dims.head?.getD .openEmpty).axes ++ dims.tail.flatMap DimSharding.axes := by
      cases dims <;> rfl
    rw [parts] at suits
    obtain ⟨firstSuits, laterSuits, -⟩ := AxisSequence.suits_append_iff.mp suits
    rw [tensorEntriesWithin?, dimEntriesWithin?_eq_some firstSuits firstOk, ih laterSuits laterOk]
    rfl

theorem TensorProjection.ofShardingWithin?_eq_some {mapping : TensorMapping} {tensor : Tensor}
    {projection : TensorProjection} (suits : tensor.DimsSuit mesh)
    (isOk : TensorProjection.ofSharding mesh sizes mapping tensor.sharding = .ok projection) :
    TensorProjection.ofShardingWithin? mesh sizes mapping tensor.sharding = some projection := by
  obtain ⟨entries, entriesOk, rfl⟩ := ofSharding_eq_ok_iff.mp isOk
  rw [ofShardingWithin?, tensorEntriesWithin?_eq_some suits.suits entriesOk]
  rfl

theorem tensorProjectionsWithin?_eq_some {mappings : List TensorMapping} {tensors : List Tensor}
    {projections : List TensorProjection} (suits : ∀ tensor ∈ tensors, tensor.DimsSuit mesh)
    (isOk : tensorProjections mesh sizes mappings tensors = .ok projections) :
    tensorProjectionsWithin? mesh sizes mappings tensors = some projections := by
  induction mappings generalizing tensors projections with
  | nil =>
    cases isOk
    rfl
  | cons mapping rest ih =>
    cases tensors with
    | nil =>
      cases isOk
      rfl
    | cons tensor others =>
      obtain ⟨tensorSuits, othersSuit⟩ := List.forall_mem_cons.mp suits
      obtain ⟨first, firstOk, chain⟩ := bind_eq_ok_iff.mp isOk
      obtain ⟨later, laterOk, isProjections⟩ := bind_eq_ok_iff.mp chain
      cases isProjections
      rw [tensorProjectionsWithin?,
        TensorProjection.ofShardingWithin?_eq_some tensorSuits firstOk, ih othersSuit laterOk]
      rfl

/-- **What is read with care off tensors that suit the mesh is what is read.** -/
theorem Projection.ofSignatureWithin?_eq_some {rule : FactorRule} {signature : Signature}
    {projection : Projection}
    (suits : ∀ tensor ∈ signature.operands ++ signature.results, tensor.DimsSuit mesh)
    (isOk : Projection.ofSignature mesh rule signature = .ok projection) :
    Projection.ofSignatureWithin? mesh rule signature = some projection := by
  obtain ⟨operandsSuit, resultsSuit⟩ := List.forall_mem_append.mp suits
  obtain ⟨suited, operandsRead, resultsRead⟩ := Projection.ofSignature_eq_ok_iff.mp isOk
  have accepted : rule.check (signature.operands.map Tensor.rank)
    (signature.results.map Tensor.rank) = .ok () := suited
  rw [ofSignatureWithin?, accepted]
  simp only [
    tensorProjectionsWithin?_eq_some operandsSuit
      ((tensorProjections_eq_ok_iff suited.operand_count).mpr operandsRead),
    tensorProjectionsWithin?_eq_some resultsSuit
      ((tensorProjections_eq_ok_iff suited.result_count).mpr resultsRead)]
  rfl

/-! ## What is read -/

namespace TensorProjection

/-- All axes of the factors fit the mesh, those beyond them included. -/
def Fits (mesh : Mesh) (tensor : TensorProjection) : Prop :=
  ∀ factor sharding, tensor.factor? factor = some sharding →
    ∀ reference ∈ sharding.allAxes, reference.Fits mesh

theorem Fits.of_entry {tensor : TensorProjection} (fits : tensor.Fits mesh) :
    ∀ entry ∈ tensor.entries, ∀ reference ∈ entry.2.axes, reference.Fits mesh :=
  fun entry isEntry reference member => fits entry.1 entry.2
    (TensorProjection.mem_entries_iff.mp isEntry) reference (List.mem_append_left _ member)

/-- The shards of a factor divide its size, which is more than one if there are any. -/
def DividesSizes (mesh : Mesh) (sizes : List Nat) (tensor : TensorProjection) : Prop :=
  ∀ factor sharding, tensor.factor? factor = some sharding → ∃ size, sizes[factor]? = some size ∧
    AxisSequence.shards mesh sharding.axes ∣ size ∧ (sharding.axes ≠ [] → 1 < size)

section Read

variable {mapping : TensorMapping} {tensor : Tensor} {projection : TensorProjection}
  (isRead : TensorProjection.ofSharding mesh sizes mapping tensor.sharding = .ok projection)
include isRead

theorem fits_of_read (suits : tensor.DimsSuit mesh)
    (below : ∀ factor ∈ mapping.factors, factor < sizes.length) : projection.Fits mesh := by
  obtain ⟨entries, entriesOk, rfl⟩ := ofSharding_eq_ok_iff.mp isRead
  obtain ⟨again, againOk, entriesSuit, -⟩ := tensorEntries_spec suits.suits below
  cases entriesOk.symm.trans againOk
  intro factor sharding found
  exact ((AxisSequence.suits_flatMap_iff.mp entriesSuit).1 _ (mem_of_filledSlots found)).fits

theorem dividesSizes_of_read : projection.DividesSizes mesh sizes := by
  obtain ⟨entries, entriesOk, rfl⟩ := ofSharding_eq_ok_iff.mp isRead
  intro factor sharding found
  obtain ⟨index, dim, own, -, ownOk, isOwn⟩ :=
    mem_tensorEntries entriesOk (mem_of_filledSlots found)
  obtain ⟨size, axes, share, isSize, takes, isTaken⟩ := takes_of_dimEntries ownOk _ isOwn
  rw [isTaken]
  exact ⟨size, isSize, takes.shards_taken_dvd, takes.one_lt⟩

end Read

end TensorProjection

/-! ## Writing with care -/

namespace TensorProjection

/-- The sharding of a dimension. -/
def dimShardingWithin? (mesh : Mesh) (tensor : TensorProjection) (mapping : DimMapping) :
    Option DimSharding := do
  let axes ← AxisSequence.joinedWithin? mesh
    ((tensor.sharesOf mapping).flatMap fun sharding => sharding.axes ++ sharding.overflow)
  return { axes, isClosed := (tensor.sharesOf mapping).any FactorSharding.isClosed }

/-- The sharding of a tensor over a mesh under the given name. -/
def toShardingWithin? (mesh : Mesh) (name : String) (mapping : TensorMapping)
    (tensor : TensorProjection) : Option TensorSharding := do
  let dims ← mapping.mapM (tensor.dimShardingWithin? mesh)
  return { mesh := name, dims, replicated := tensor.replicated }

variable {tensor : TensorProjection}

theorem Fits.dimShardingWithin?_eq_some (fits : tensor.Fits mesh) (dim : DimMapping) :
    tensor.dimShardingWithin? mesh dim = some (tensor.dimSharding mesh dim) := by
  have dimFits : ∀ reference ∈ (tensor.sharesOf dim).flatMap fun sharding =>
      sharding.axes ++ sharding.overflow, reference.Fits mesh := by
    intro reference member
    obtain ⟨sharding, isShare, isOwn⟩ := List.mem_flatMap.mp member
    obtain ⟨factor, -, found⟩ := List.mem_filterMap.mp isShare
    exact fits factor sharding found reference isOwn
  rw [dimShardingWithin?, AxisSequence.joinedWithin?_eq_some dimFits]
  rfl

/-- **What is written with care from axes that fit the mesh is what is written.** -/
theorem Fits.toShardingWithin?_eq_some (fits : tensor.Fits mesh) (name : String)
    (mapping : TensorMapping) :
    tensor.toShardingWithin? mesh name mapping = some (tensor.toSharding mesh name mapping) := by
  rw [toShardingWithin?, mapM_eq_some_of_forall fun dim _ => fits.dimShardingWithin?_eq_some dim]
  rfl

/-- A tensor that is brought to axes that fit has only such axes. -/
theorem Fits.assigned (fits : tensor.Fits mesh) {agreed : List AxisSequence}
    (agreedFit : ∀ axes ∈ agreed, ∀ reference ∈ axes, reference.Fits mesh) :
    (tensor.assigned (assignmentsOf agreed)).Fits mesh := by
  intro factor sharding found
  cases isAgreed : agreed[factor]? with
  | none =>
    have absent : factor ∉ (assignmentsOf agreed).map Assignment.factor := by
      rw [assignmentsOf_factors, List.mem_range, Nat.not_lt]
      exact List.getElem?_eq_none_iff.mp isAgreed
    rw [factor?_assigned_of_notMem absent] at found
    exact fits factor sharding found
  | some axes =>
    rw [factor?_assigned_agreed isAgreed] at found
    obtain ⟨own, -, rfl⟩ := Option.map_eq_some_iff.mp found
    rw [FactorSharding.allAxes, Assignment.update, List.append_nil]
    exact agreedFit axes (List.mem_of_getElem? isAgreed)

end TensorProjection

end MeshSharding
