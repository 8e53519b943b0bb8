import MeshSharding.Proofs.Vote.Reference

/-!
# Elections in place

An election can be held in one array of candidates. A pass goes through the
array with an index, takes out what the last commitment rules out, counts the
others anew, and finds the greatest of those that stay on the way. What is taken
out is replaced by the last candidate of the array, which the pass then visits
at this index; so the order of the candidates changes from pass to pass. A pass
stops at a candidate for which a size is not defined.

A pass keeps the candidates in front of the index and what follows from those
behind it, in some order, and no candidate is left out or met twice
(`sweepFrom?_spec`). It stops exactly if one of those behind the index makes it
stop (`sweepFrom?_eq_none_iff`). Since the order is of no importance, the passes
commit what an election on the set of candidates commits, or stop as it does, and
the axes that are written down for each factor are those that it commits last
(`agreedInPlace?_eq`).
-/

set_option autoImplicit false

namespace MeshSharding

open Std

variable {mesh : Mesh}

/-! ## Passes -/

/-- The array with the last candidate in the place of the one at an index. -/
def swapRemoved (pool : Array Candidate) (index : Nat) (inBounds : index < pool.size) :
    Array Candidate :=
  (pool.set index (pool.back (Nat.zero_lt_of_lt inBounds))).pop

/-- A candidate in a pass after a commitment, if there has been one, unless it is taken out. -/
def Candidate.kept? (mesh : Mesh) (commitment : Option FactorAxes) (candidate : Candidate) :
    Option Candidate :=
  match commitment with
  | none => some candidate
  | some choice => candidate.after? mesh choice

/-- A pass after a commitment stops at the candidate. -/
def Candidate.StopsPass (mesh : Mesh) (commitment : Option FactorAxes) (candidate : Candidate) :
    Prop :=
  ∃ choice ∈ commitment, candidate.Stops mesh choice

instance (mesh : Mesh) (commitment : Option FactorAxes) (candidate : Candidate) :
    Decidable (candidate.StopsPass mesh commitment) :=
  inferInstanceAs (Decidable (∃ choice ∈ commitment, candidate.Stops mesh choice))

/-- The greater of a candidate and an earlier one, if there is one. -/
def Candidate.best (earlier : Option Candidate) (candidate : Candidate) : Candidate :=
  match earlier with
  | none => candidate
  | some other => greater other candidate

theorem size_swapRemoved {pool : Array Candidate} {index : Nat} (inBounds : index < pool.size) :
    (swapRemoved pool index inBounds).size = pool.size - 1 := by
  rw [swapRemoved, Array.size_pop, Array.size_set]

/-- The rest of a pass from an index on, unless it stops: the candidates that stay, and the greatest
of them and of those met before. -/
def sweepFrom? (mesh : Mesh) (commitment : Option FactorAxes) (pool : Array Candidate)
    (index : Nat) (greatest : Option Candidate) : Option (Array Candidate × Option Candidate) :=
  if inBounds : index < pool.size then
    if pool[index].StopsPass mesh commitment then none
    else
      match pool[index].kept? mesh commitment with
      | none => sweepFrom? mesh commitment (swapRemoved pool index inBounds) index greatest
      | some kept =>
        sweepFrom? mesh commitment (pool.set index kept) (index + 1) (some (kept.best greatest))
  else some (pool, greatest)
termination_by pool.size - index
decreasing_by
  · rw [size_swapRemoved]
    omega
  · rw [Array.size_set]
    omega

/-- What comes behind a candidate that is taken out moves up in some order. -/
theorem toList_swapRemoved {pool : Array Candidate} {front tail : List Candidate}
    {candidate : Candidate} (isSplit : pool.toList = front ++ candidate :: tail)
    (inBounds : front.length < pool.size) :
    ∃ moved, (swapRemoved pool front.length inBounds).toList = front ++ moved ∧
      moved.Perm tail := by
  have last : some (pool.back (Nat.zero_lt_of_lt inBounds)) = pool.toList.getLast? := by
    rw [Array.getLast?_toList, Array.back?_eq_getElem?]
    exact (Array.getElem?_eq_getElem _).symm
  have written (other : Candidate) : (front ++ candidate :: tail).set front.length other =
      front ++ other :: tail := by
    rw [List.set_append_right _ _ (Nat.le_refl _), Nat.sub_self, List.set_cons_zero]
  rw [isSplit] at last
  rw [swapRemoved, Array.toList_pop, Array.toList_set, isSplit, written]
  rcases List.eq_nil_or_concat' tail with rfl | ⟨init, final, rfl⟩
  · refine ⟨[], ?_, .nil⟩
    rw [List.dropLast_concat, List.append_nil]
  · have isFinal : pool.back (Nat.zero_lt_of_lt inBounds) = final := by
      rw [← List.cons_append, ← List.append_assoc, List.getLast?_concat] at last
      exact Option.some.inj last
    refine ⟨final :: init, ?_, (List.perm_append_singleton final init).symm⟩
    rw [isFinal, ← List.cons_append, ← List.append_assoc, List.dropLast_concat]

namespace Candidate

/-- The greatest candidate of a set, or none if there are no candidates. -/
def IsGreatest? (pool : Finset Candidate) : Option Candidate → Prop
  | none => pool = ∅
  | some winner => winner.IsGreatest pool

/-- With one more candidate the greater of it and of the greatest one before is the greatest. -/
theorem IsGreatest?.best {pool : Finset Candidate} {earlier : Option Candidate}
    (isGreatest : IsGreatest? pool earlier) (candidate : Candidate) :
    (candidate.best earlier).IsGreatest (insert candidate pool) := by
  cases earlier with
  | none =>
    have isEmpty : pool = ∅ := isGreatest
    rw [isEmpty]
    refine ⟨Finset.mem_insert_self _ _, fun other member => ?_⟩
    rw [Finset.mem_singleton.mp member]
    exact isLE_refl candidate
  | some winner =>
    obtain ⟨member, above⟩ : winner.IsGreatest pool := isGreatest
    refine ⟨?_, fun other isOther => ?_⟩
    · rw [Finset.mem_insert, Candidate.best, greater]
      split
      · exact .inl rfl
      · exact .inr member
    · rcases Finset.mem_insert.mp isOther with rfl | isOther
      · exact isLE_greater_right winner other
      · exact TransCmp.isLE_trans (above other isOther) (isLE_greater_left winner candidate)

end Candidate

section Position

variable {pool : Array Candidate} {front tail : List Candidate} {index : Nat}

/-- An index behind the front and within the bounds is that of a candidate. -/
theorem exists_cons_of_inBounds (isSplit : pool.toList = front ++ tail)
    (atIndex : front.length = index) (inBounds : index < pool.size) :
    ∃ candidate rest, tail = candidate :: rest := by
  have sizes := congrArg List.length isSplit
  rw [Array.length_toList, List.length_append] at sizes
  exact List.exists_cons_of_length_pos (by omega)

theorem getElem_of_split {candidate : Candidate}
    (isSplit : pool.toList = front ++ candidate :: tail) {inBounds : front.length < pool.size} :
    pool[front.length] = candidate := by
  rw [← Array.getElem_toList]
  simp only [isSplit, List.getElem_append_right (Nat.le_refl _), Nat.sub_self,
    List.getElem_cons_zero]

theorem eq_nil_of_outOfBounds (isSplit : pool.toList = front ++ tail)
    (atIndex : front.length = index) (outOfBounds : ¬ index < pool.size) : tail = [] := by
  have sizes := congrArg List.length isSplit
  rw [Array.length_toList, List.length_append] at sizes
  exact List.eq_nil_of_length_eq_zero (by omega)

theorem toList_set_of_split {candidate : Candidate}
    (isSplit : pool.toList = front ++ candidate :: tail) (kept : Candidate)
    (inBounds : front.length < pool.size) :
    (pool.set front.length kept).toList = (front ++ [kept]) ++ tail := by
  rw [Array.toList_set, isSplit, List.set_append_right _ _ (Nat.le_refl _), Nat.sub_self,
    List.set_cons_zero, List.append_assoc]
  rfl

end Position

section Pass

variable {commitment : Option FactorAxes} {pool : Array Candidate} {index : Nat}
  {greatest : Option Candidate} {front tail : List Candidate}

/-- **A pass stops exactly if a candidate behind the index makes it stop,** in whatever order it
comes to them. -/
theorem sweepFrom?_eq_none_iff (isSplit : pool.toList = front ++ tail)
    (atIndex : front.length = index) : sweepFrom? mesh commitment pool index greatest = none ↔
      ∃ candidate ∈ tail, candidate.StopsPass mesh commitment := by
  induction pool, index, greatest using sweepFrom?.induct mesh commitment
    generalizing front tail with
  | case1 pool index greatest inBounds stops =>
    obtain ⟨candidate, rest, rfl⟩ := exists_cons_of_inBounds isSplit atIndex inBounds
    subst atIndex
    rw [sweepFrom?, dif_pos inBounds, if_pos stops]
    rw [getElem_of_split isSplit] at stops
    exact iff_of_true rfl ⟨candidate, List.mem_cons_self, stops⟩
  | case2 pool index greatest inBounds goesOn isOut ih =>
    obtain ⟨candidate, rest, rfl⟩ := exists_cons_of_inBounds isSplit atIndex inBounds
    subst atIndex
    obtain ⟨moved, isMoved, sameRest⟩ := toList_swapRemoved isSplit inBounds
    rw [sweepFrom?, dif_pos inBounds, if_neg goesOn, isOut, ih isMoved rfl]
    rw [getElem_of_split isSplit] at goesOn
    simp only [List.mem_cons, exists_eq_or_imp, goesOn, false_or, sameRest.mem_iff]
  | case3 pool index greatest inBounds goesOn kept isKept ih =>
    obtain ⟨candidate, rest, rfl⟩ := exists_cons_of_inBounds isSplit atIndex inBounds
    subst atIndex
    rw [sweepFrom?, dif_pos inBounds, if_neg goesOn, isKept,
      ih (toList_set_of_split isSplit kept inBounds) List.length_append]
    rw [getElem_of_split isSplit] at goesOn
    simp only [List.mem_cons, exists_eq_or_imp, goesOn, false_or]
  | case4 pool index greatest outOfBounds =>
    rw [sweepFrom?, dif_neg outOfBounds, eq_nil_of_outOfBounds isSplit atIndex outOfBounds]
    exact iff_of_false (Option.some_ne_none _) fun ⟨_, member, _⟩ => List.not_mem_nil member

/-- **A pass that does not stop keeps what is in front of the index and, in some order, what stays of
the rest,** and finds the greatest of these. -/
theorem sweepFrom?_spec {pass : Array Candidate × Option Candidate}
    (isPass : sweepFrom? mesh commitment pool index greatest = some pass)
    (isSplit : pool.toList = front ++ tail) (atIndex : front.length = index)
    (isGreatest : Candidate.IsGreatest? front.toFinset greatest) :
    ∃ stay, pass.1.toList = front ++ stay ∧
      stay.Perm (tail.filterMap (Candidate.kept? mesh commitment)) ∧
      Candidate.IsGreatest? (front ++ stay).toFinset pass.2 := by
  induction pool, index, greatest using sweepFrom?.induct mesh commitment
    generalizing front tail with
  | case1 pool index greatest inBounds stops =>
    rw [sweepFrom?, dif_pos inBounds, if_pos stops] at isPass
    cases isPass
  | case2 pool index greatest inBounds goesOn isOut ih =>
    obtain ⟨candidate, rest, rfl⟩ := exists_cons_of_inBounds isSplit atIndex inBounds
    subst atIndex
    rw [sweepFrom?, dif_pos inBounds, if_neg goesOn, isOut] at isPass
    rw [getElem_of_split isSplit] at isOut
    obtain ⟨moved, isMoved, sameRest⟩ := toList_swapRemoved isSplit inBounds
    obtain ⟨stay, isKept, samePool, isBest⟩ := ih isPass isMoved rfl isGreatest
    refine ⟨stay, isKept, ?_, isBest⟩
    rw [List.filterMap_cons_none isOut]
    exact samePool.trans (sameRest.filterMap _)
  | case3 pool index greatest inBounds goesOn kept isKept ih =>
    obtain ⟨candidate, rest, rfl⟩ := exists_cons_of_inBounds isSplit atIndex inBounds
    subst atIndex
    rw [sweepFrom?, dif_pos inBounds, if_neg goesOn, isKept] at isPass
    rw [getElem_of_split isSplit] at isKept
    have isBest : Candidate.IsGreatest? (front ++ [kept]).toFinset (some (kept.best greatest)) := by
      rw [List.toFinset_append, List.toFinset_cons, List.toFinset_nil, Finset.union_insert,
        Finset.union_empty]
      exact isGreatest.best kept
    obtain ⟨stay, isStay, samePool, isBest⟩ :=
      ih isPass (toList_set_of_split isSplit kept inBounds) List.length_append isBest
    rw [List.append_assoc] at isStay isBest
    refine ⟨kept :: stay, isStay, ?_, isBest⟩
    rw [List.filterMap_cons_some isKept]
    exact samePool.cons kept
  | case4 pool index greatest outOfBounds =>
    rw [sweepFrom?, dif_neg outOfBounds] at isPass
    cases isPass
    obtain rfl := eq_nil_of_outOfBounds isSplit atIndex outOfBounds
    rw [List.append_nil] at isSplit
    exact ⟨[], by rw [isSplit, List.append_nil], .nil, by rwa [List.append_nil]⟩

/-- A whole pass that does not stop leaves what stays of all candidates, in some order, and finds
the greatest. -/
theorem sweep_spec {pass : Array Candidate × Option Candidate}
    (isPass : sweepFrom? mesh commitment pool 0 none = some pass) :
    pass.1.toList.Perm (pool.toList.filterMap (Candidate.kept? mesh commitment)) ∧
      Candidate.IsGreatest? pass.1.toList.toFinset pass.2 := by
  have nobody : Candidate.IsGreatest? (List.toFinset []) none := rfl
  obtain ⟨stay, isStay, samePool, isBest⟩ :=
    sweepFrom?_spec isPass (List.nil_append pool.toList).symm rfl nobody
  rw [List.nil_append] at isStay isBest
  rw [isStay]
  exact ⟨samePool, isBest⟩

end Pass

/-! ## Whole elections -/

/-- Twice the number of candidates, and one more before their greatest one is known. -/
def waiting (pool : Array Candidate) (commitment : Option FactorAxes) : Nat :=
  2 * pool.size + if ∃ candidate ∈ pool.toList, commitment = some candidate.choice then 0 else 1

/-- Every pass that does not stop takes out the candidate of the last commitment or is the first to
find one. -/
theorem waiting_sweep_lt (mesh : Mesh) {pool : Array Candidate} (someone : pool.size ≠ 0)
    {commitment : Option FactorAxes} {pass : Array Candidate × Option Candidate}
    (isPass : sweepFrom? mesh commitment pool 0 none = some pass) :
    waiting pass.1 (pass.2.map Candidate.choice) < waiting pool commitment := by
  obtain ⟨samePool, isBest⟩ := sweep_spec isPass
  have before : pool.toList.length = pool.size := Array.length_toList
  have after : pass.1.size =
      (pool.toList.filterMap (Candidate.kept? mesh commitment)).length := samePool.length_eq
  by_cases committed : ∃ candidate ∈ pool.toList, commitment = some candidate.choice
  · have fewer : (pool.toList.filterMap (Candidate.kept? mesh commitment)).length <
        pool.toList.length := by
      obtain ⟨candidate, member, rfl⟩ := committed
      exact List.length_filterMap_lt_length_iff_exists.mpr
        ⟨candidate, member, Candidate.after?_self mesh candidate⟩
    rw [waiting, waiting, if_pos committed]
    split <;> omega
  · have noMore := List.length_filterMap_le (Candidate.kept? mesh commitment) pool.toList
    rw [waiting, waiting, if_neg committed]
    cases found : pass.2 with
    | none =>
      rw [found] at isBest
      have nobody : pass.1.size = 0 :=
        congrArg List.length ((List.toFinset_eq_empty_iff _).mp isBest)
      rw [nobody]
      split <;> omega
    | some winner =>
      rw [found] at isBest
      have known : ∃ candidate ∈ pass.1.toList,
          (some winner).map Candidate.choice = some candidate.choice :=
        ⟨winner, List.mem_toFinset.mp isBest.1, rfl⟩
      rw [if_pos known]
      omega

/-- The axes of all factors with a choice written down. -/
def written (axes : List AxisSequence) (choice : FactorAxes) : List AxisSequence :=
  axes.set choice.factor choice.axes

/-- The axes of all factors after further passes, of which each first writes down what the pass
before it has found, unless one of them stops. -/
def commitInPlace? (mesh : Mesh) (pool : Array Candidate) (commitment : Option FactorAxes)
    (axes : List AxisSequence) : Option (List AxisSequence) :=
  if _someone : pool.size ≠ 0 then
    match _isPass : sweepFrom? mesh commitment pool 0 none with
    | none => none
    | some pass =>
      commitInPlace? mesh pass.1 (pass.2.map Candidate.choice)
        (commitment.elim axes (written axes))
  else some axes
termination_by waiting pool commitment
decreasing_by exact waiting_sweep_lt mesh _someone _isPass

section Passes

variable {pool : Array Candidate} {commitment : Option FactorAxes}

theorem commitInPlace?_of_stops (someone : pool.size ≠ 0)
    (stops : sweepFrom? mesh commitment pool 0 none = none) (axes : List AxisSequence) :
    commitInPlace? mesh pool commitment axes = none := by
  rw [commitInPlace?, dif_pos someone]
  split
  · rfl
  · rename_i pass isPass
    cases stops.symm.trans isPass

theorem commitInPlace?_of_pass (someone : pool.size ≠ 0)
    {pass : Array Candidate × Option Candidate}
    (isPass : sweepFrom? mesh commitment pool 0 none = some pass) (axes : List AxisSequence) :
    commitInPlace? mesh pool commitment axes = commitInPlace? mesh pass.1
      (pass.2.map Candidate.choice) (commitment.elim axes (written axes)) := by
  rw [commitInPlace?, dif_pos someone]
  split
  · rename_i stops
    cases stops.symm.trans isPass
  · rename_i other isOther
    cases Option.some.inj (isPass.symm.trans isOther)
    rfl

theorem commitInPlace?_nobody (nobody : pool.size = 0) (axes : List AxisSequence) :
    commitInPlace? mesh pool commitment axes = some axes := by
  rw [commitInPlace?, dif_neg (not_not.mpr nobody)]

end Passes

/-- What is found in a set that has a greatest candidate is the choice of that one. -/
theorem Candidate.IsGreatest.map_choice_eq {pool : Finset Candidate} {winner : Candidate}
    (wins : winner.IsGreatest pool) {greatest : Option Candidate}
    (isGreatest : IsGreatest? pool greatest) :
    greatest.map Candidate.choice = some winner.choice := by
  cases greatest with
  | none =>
    have nobody : pool = ∅ := isGreatest
    rw [nobody] at wins
    exact absurd wins.1 (Finset.notMem_empty _)
  | some other =>
    have alsoWins : other.IsGreatest pool := isGreatest
    exact congrArg some (alsoWins.choice_eq wins)

theorem size_ne_zero_of_isGreatest {pool : Array Candidate} {winner : Candidate}
    (wins : winner.IsGreatest pool.toList.toFinset) : pool.size ≠ 0 :=
  Nat.ne_of_gt (List.length_pos_of_mem (List.mem_toFinset.mp wins.1))

/-- Passes that start with the choice of the greatest candidate write down all commitments, or stop
as the election does. -/
theorem commitInPlace?_eq {candidates : Finset Candidate} {made : Option (List FactorAxes)}
    (elects : Elects mesh candidates made) {pool : Array Candidate}
    (isPool : pool.toList.toFinset = candidates) {greatest : Option Candidate}
    (isGreatest : Candidate.IsGreatest? candidates greatest) (axes : List AxisSequence) :
    commitInPlace? mesh pool (greatest.map Candidate.choice) axes =
      made.map fun made => made.foldl written axes := by
  induction elects generalizing pool greatest axes with
  | nothing =>
    exact commitInPlace?_nobody (congrArg List.length ((List.toFinset_eq_empty_iff _).mp isPool)) _
  | @stops candidates winner candidate wins member stops =>
    subst isPool
    rw [wins.map_choice_eq isGreatest]
    refine commitInPlace?_of_stops (size_ne_zero_of_isGreatest wins) ?_ axes
    exact (sweepFrom?_eq_none_iff (List.nil_append pool.toList).symm rfl).mpr
      ⟨candidate, List.mem_toFinset.mp member, winner.choice, rfl, stops⟩
  | @round candidates winner made wins measurable later ih =>
    subst isPool
    rw [wins.map_choice_eq isGreatest]
    obtain ⟨pass, isPass⟩ :
        ∃ pass, sweepFrom? mesh (some winner.choice) pool 0 none = some pass := by
      refine Option.ne_none_iff_exists'.mp fun none => ?_
      obtain ⟨candidate, member, choice, isChoice, stops⟩ :=
        (sweepFrom?_eq_none_iff (List.nil_append pool.toList).symm rfl).mp none
      cases isChoice
      exact measurable candidate (List.mem_toFinset.mpr member) stops
    obtain ⟨samePool, isBest⟩ := sweep_spec isPass
    have remains : pass.1.toList.toFinset =
        remaining mesh winner.choice pool.toList.toFinset := by
      rw [List.toFinset_eq_of_perm _ _ samePool, ← toFinset_survivors]
      rfl
    rw [commitInPlace?_of_pass (size_ne_zero_of_isGreatest wins) isPass, ih remains
      (remains ▸ isBest), Option.map_map]
    rfl

/-- The first pass takes nothing out, writes nothing down and does not stop. -/
theorem commitInPlace?_start {pool : Array Candidate} {made : Option (List FactorAxes)}
    (elects : Elects mesh pool.toList.toFinset made) (axes : List AxisSequence) :
    commitInPlace? mesh pool none axes = made.map fun made => made.foldl written axes := by
  by_cases nobody : pool.size = 0
  · have isEmpty : pool.toList.toFinset = ∅ := by
      rw [List.eq_nil_of_length_eq_zero nobody]
      rfl
    rw [isEmpty] at elects
    rw [commitInPlace?_nobody nobody, elects.unique .nothing]
    rfl
  · obtain ⟨pass, isPass⟩ : ∃ pass, sweepFrom? mesh none pool 0 none = some pass := by
      refine Option.ne_none_iff_exists'.mp fun none => ?_
      obtain ⟨candidate, -, choice, noChoice, -⟩ :=
        (sweepFrom?_eq_none_iff (List.nil_append pool.toList).symm rfl).mp none
      cases noChoice
    obtain ⟨samePool, isBest⟩ := sweep_spec isPass
    have remains : pass.1.toList.toFinset = pool.toList.toFinset := by
      rw [List.toFinset_eq_of_perm _ _ samePool]
      exact congrArg List.toFinset List.filterMap_some
    rw [commitInPlace?_of_pass nobody isPass]
    exact commitInPlace?_eq elects remains (remains ▸ isBest) axes

/-- Written down one after the other, choices leave every factor with the last one for it. -/
theorem foldl_written (factorCount : Nat) (made : List FactorAxes) :
    made.foldl written (List.replicate factorCount []) =
      (List.range factorCount).map (lastCommitted made) := by
  induction made using List.reverseRecOn with
  | nil =>
    have nothing : (List.range factorCount).map (lastCommitted []) =
        List.replicate (List.range factorCount).length [] :=
      List.map_eq_replicate_iff.mpr fun _ _ => rfl
    rw [nothing, List.length_range, List.foldl_nil]
  | append_singleton made choice ih =>
    rw [List.foldl_concat, ih, written]
    apply List.ext_getElem?
    intro factor
    by_cases below : factor < factorCount
    · rw [List.getElem?_set, List.getElem?_map, List.getElem?_map, List.getElem?_range below,
        List.length_map, List.length_range, Option.map_some, Option.map_some, lastCommitted_concat]
      by_cases isFactor : choice.factor = factor
      · rw [if_pos isFactor, if_pos isFactor, if_pos (isFactor ▸ below)]
      · rw [if_neg isFactor, if_neg isFactor]
    · rw [List.getElem?_eq_none (by simpa using below),
        List.getElem?_eq_none (by simpa using below)]

namespace Projection

/-- The axes on which each factor is agreed, found in place, unless a pass stops. -/
def agreedInPlace? (mesh : Mesh) (factorCount : Nat) (projection : Projection) :
    Option (List AxisSequence) :=
  commitInPlace? mesh (projection.candidates mesh factorCount).toArray none
    (List.replicate factorCount [])

/-- **Passes in place leave each factor with what is committed for it last, unless the election
stops.** -/
theorem agreedInPlace?_eq (mesh : Mesh) (factorCount : Nat) (projection : Projection) :
    projection.agreedInPlace? mesh factorCount =
      (outcome mesh (projection.candidates mesh factorCount)).map fun made =>
        (List.range factorCount).map (lastCommitted made) := by
  rw [agreedInPlace?, commitInPlace?_start (elects_outcome _)]
  simp only [foldl_written]

/-- Over the towers of the campus the passes stop. -/
example : campusProjection.agreedInPlace? campusMesh 2 = none := by
  rw [agreedInPlace?_eq, Option.map_eq_none_iff]
  decide +kernel

end Projection

end MeshSharding
