import Mathlib.Data.List.Forall2
import Mathlib.Data.List.Nodup

/-!
# Lists and checks

Facts on lists and on computations that can fail; nothing here mentions a mesh or
a sharding. A chain of checks succeeds exactly when each of its links does, and all
acceptance statements of the library are opened with that one fact. Lists that are
related element by element are taken apart at a member or at their end.
-/

set_option autoImplicit false

namespace MeshSharding

/-! ## Checks one after the other -/

/-- A chain succeeds when its first link does and the rest does with what that link returns. -/
theorem bind_eq_ok_iff {ε α β : Type} {first : Except ε α} {rest : α → Except ε β} {value : β} :
    (first >>= rest) = .ok value ↔ ∃ between, first = .ok between ∧ rest between = .ok value := by
  cases first with
  | error cause =>
    constructor
    · intro succeeds
      cases succeeds
    · rintro ⟨between, isOk, -⟩
      cases isOk
  | ok between =>
    constructor
    · intro succeeds
      exact ⟨between, rfl, succeeds⟩
    · rintro ⟨other, isOk, succeeds⟩
      cases isOk
      exact succeeds

/-- The rest of a chain goes on with what its first link returns. -/
theorem ok_bind {ε α β : Type} {value : α} {rest : α → Except ε β} :
    (Except.ok value >>= rest) = rest value := rfl

/-- A chain of two checks succeeds exactly when both do. -/
theorem seq_eq_ok_iff {ε : Type} {first second : Except ε Unit} :
    (do first; second) = .ok () ↔ first = .ok () ∧ second = .ok () := by
  constructor
  · intro both
    obtain ⟨⟨⟩, isOk, succeeds⟩ := bind_eq_ok_iff.mp both
    exact ⟨isOk, succeeds⟩
  · rintro ⟨isOk, succeeds⟩
    exact bind_eq_ok_iff.mpr ⟨(), isOk, succeeds⟩

/-- A test accepts exactly when its condition holds. -/
theorem ite_eq_ok_iff {ε : Type} {condition : Prop} [Decidable condition] {cause : ε} :
    (if condition then .ok () else .error cause : Except ε Unit) = .ok () ↔ condition := by
  by_cases holds : condition <;> simp [holds]

/-- What an outcome holds when its error is left out is what it returned. -/
theorem eq_ok_of_toOption_eq_some {ε α : Type} {outcome : Except ε α} {value : α}
    (isSome : outcome.toOption = some value) : outcome = .ok value := by
  cases outcome with
  | error cause => cases isSome
  | ok other =>
    cases isSome
    rfl

/-! ## Computations for the members of a list -/

/-- Outcomes found one after the other are those of the members. -/
theorem mapM_eq_some_iff {α β : Type} {read : α → Option β} {sources : List α}
    {targets : List β} :
    sources.mapM read = some targets ↔
      List.Forall₂ (fun source target => read source = some target) sources targets := by
  induction sources generalizing targets with
  | nil => simp [eq_comm]
  | cons source rest ih =>
    rw [List.mapM_cons, List.forall₂_cons_left_iff]
    simp only [Option.bind_eq_bind, Option.bind_eq_some_iff, Option.pure_def, Option.some.injEq,
      ih]
    constructor
    · rintro ⟨target, isTarget, later, isLater, rfl⟩
      exact ⟨target, later, isTarget, isLater, rfl⟩
    · rintro ⟨target, later, isTarget, isLater, rfl⟩
      exact ⟨target, isTarget, later, isLater, rfl⟩

/-- If every member has its outcome, the outcomes are found one after the other. -/
theorem mapM_eq_some_of_forall {α β : Type} {members : List α} {compute : α → Option β}
    {outcome : α → β} (outcomes : ∀ member ∈ members, compute member = some (outcome member)) :
    members.mapM compute = some (members.map outcome) :=
  mapM_eq_some_iff.mpr (List.forall₂_map_right_iff.mpr (List.forall₂_same.mpr outcomes))

/-- If every question is answered, so is the one whether some member has the property. -/
theorem anyM_eq_some {α : Type} {members : List α} {ask : α → Option Bool} {holds : α → Prop}
    [DecidablePred holds]
    (answers : ∀ member ∈ members, ask member = some (decide (holds member))) :
    members.anyM ask = some (decide (∃ member ∈ members, holds member)) := by
  induction members with
  | nil => rfl
  | cons first rest ih =>
    obtain ⟨answer, later⟩ := List.forall_mem_cons.mp answers
    rw [List.anyM, answer]
    by_cases isFirst : holds first
    · simp [isFirst]
    · simp [isFirst, ih later]

/-! ## A last member -/

/-- A list with one more member holds at a position what it held before or the new member. -/
theorem getElem?_concat_eq_some_iff {α : Type} {members : List α} {last found : α} {index : Nat} :
    (members ++ [last])[index]? = some found ↔
      members[index]? = some found ∨ index = members.length ∧ found = last := by
  by_cases before : index < members.length
  · rw [List.getElem?_append_left before]
    exact (or_iff_left fun both => Nat.ne_of_lt before both.1).symm
  · have behind := Nat.le_of_not_lt before
    rw [List.getElem?_append_right behind, List.getElem?_eq_none behind, List.getElem?_singleton]
    constructor
    · intro isLast
      split at isLast
      · cases isLast
        exact .inr ⟨by omega, rfl⟩
      · cases isLast
    · rintro (isMember | ⟨rfl, rfl⟩)
      · cases isMember
      · rw [Nat.sub_self, if_pos rfl]

/-! ## Repetitions -/

theorem nodup_eraseDups {α : Type} [BEq α] [LawfulBEq α] (members : List α) :
    members.eraseDups.Nodup := by
  match members with
  | [] => exact List.nodup_nil
  | first :: rest =>
    rw [List.eraseDups_cons]
    refine List.nodup_cons.mpr ⟨?_, nodup_eraseDups _⟩
    simp
termination_by members.length
decreasing_by exact Nat.lt_succ_of_le (List.length_filter_le _ _)

/-- Repetitions are left out in the order in which members come up. -/
theorem eraseDups_concat {α : Type} [BEq α] [LawfulBEq α] (members : List α) (last : α) :
    (members ++ [last]).eraseDups =
      if last ∈ members then members.eraseDups else members.eraseDups ++ [last] := by
  rw [List.eraseDups_append, List.removeAll]
  by_cases known : last ∈ members <;> simp [known, List.eraseDups_cons]

/-- If every member adds a given item at most once, the item is added as often as members do so. -/
theorem count_flatMap_eq_countP {α β : Type} [BEq β] {members : List α} {addedBy : α → List β}
    {item : β} {Adds : α → Prop} [DecidablePred Adds]
    (each : ∀ member ∈ members, (addedBy member).count item = if Adds member then 1 else 0) :
    (members.flatMap addedBy).count item = members.countP fun member => decide (Adds member) := by
  induction members with
  | nil => rfl
  | cons first rest ih =>
    obtain ⟨firstAdds, restAdds⟩ := List.forall_mem_cons.mp each
    rw [List.flatMap_cons, List.count_append, firstAdds, ih restAdds, List.countP_cons,
      Nat.add_comm]
    simp only [decide_eq_true_eq]

/-! ## Lists that are related element by element -/

section Related

variable {α β : Type} {related : α → β → Prop} {firsts : List α} {seconds : List β}

/-- In lists that are related element by element everything in the first has a counterpart. -/
theorem forall₂_exists_of_mem_left (pairs : List.Forall₂ related firsts seconds) {first : α}
    (member : first ∈ firsts) : ∃ second ∈ seconds, related first second := by
  induction pairs with
  | nil => exact absurd member List.not_mem_nil
  | cons holds _ ih =>
    rcases List.mem_cons.mp member with rfl | later
    · exact ⟨_, List.mem_cons_self, holds⟩
    · obtain ⟨second, isSecond, holds⟩ := ih later
      exact ⟨second, List.mem_cons_of_mem _ isSecond, holds⟩

/-- In lists that are related element by element everything in the second has a counterpart. -/
theorem forall₂_exists_of_mem_right (pairs : List.Forall₂ related firsts seconds) {second : β}
    (member : second ∈ seconds) : ∃ first ∈ firsts, related first second := by
  have reversed : List.Forall₂ (flip related) seconds firsts := List.Forall₂.flip pairs
  exact forall₂_exists_of_mem_left reversed member

/-- In lists that are related element by element the last elements are related. -/
theorem forall₂_exists_concat {first : α}
    (pairs : List.Forall₂ related (firsts ++ [first]) seconds) :
    ∃ earlier second, seconds = earlier ++ [second] ∧ related first second := by
  have reversed : List.Forall₂ (flip related) seconds (firsts ++ [first]) := List.Forall₂.flip pairs
  obtain ⟨second, rest, holds, nothing, isLast⟩ := List.forall₂_cons_right_iff.mp
    (List.forall₂_drop_append seconds firsts [first] reversed)
  obtain rfl := List.forall₂_nil_right_iff.mp nothing
  refine ⟨seconds.take firsts.length, second, ?_, holds⟩
  rw [← isLast, List.take_append_drop]

end Related

end MeshSharding
