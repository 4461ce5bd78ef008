import ConicDerivative.Proofs.ReducedLayouts

/-!
What each solver is sent, once the program can be brought into its layout, and what keeps it from
that: a triangle whose size is rounded, equations without entries, a starting point with too few
vectors.
-/

namespace ConicDerivative

open Scalar Matrix Outcomes Loose Consulting Packed Sparse

variable {n : Nat}

namespace Clarabel

variable {blocks : List Block}
variable {solvers : Solvers ℝ} {constraints : Constraints ℝ n} {c : List ℝ} {request : Request ℝ}
  {log : Log ℝ}

theorem calls_solve {order : List Nat} {A : Sparse ℝ order.length n} {b : List ℝ}
    (read : constraints.cones.blocks = .ok blocks)
    (placed : rowOrder blocks constraints.b.length = (.ok order : Outcome ℝ (List Nat)))
    (taken : takeRows constraints.A order = .ok A) (gathered : gather constraints.b order = .ok b) :
    (after (solve solvers constraints c request) log).2.calls = log.calls ++ [.clarabel
      ⟨⟨Sparse.empty c.length c.length⟩, c, A, b, cones blocks,
        request.settings.withDefault "verbose" (.flag false)⟩] := by
  unfold solve
  rw [after_layout_bind read, after_ofExcept_bind placed, after_ofExcept_bind taken,
    after_ofExcept_bind gathered]
  refine quiet_finish ?_ _
  exact quiet_bind (quiet_ofExcept _) fun _ => quiet_bind (quiet_ofExcept _) fun _ => quiet_pure _

theorem exists_call (plain : constraints.cones.IsPlain)
    (read : constraints.cones.blocks = .ok blocks)
    (tiling : Block.checkTiling blocks constraints.rows = .ok ())
    (size : constraints.b.length = constraints.rows) (exact : constraints.cones.product.IsExact) :
    ∃ call, (after (solve solvers constraints c request) log).2.calls =
      log.calls ++ [.clarabel call] := by
  obtain ⟨order, placed, inside⟩ := exists_rowOrder plain read tiling exact
  rw [← size] at placed
  obtain ⟨A, taken⟩ := exists_takeRows constraints.A inside
  obtain ⟨b, gathered⟩ := exists_gather (x := constraints.b) fun row listed =>
    (inside row listed).trans_eq size.symm
  exact ⟨_, calls_solve read placed taken gathered⟩

theorem after_of_rounded (plain : constraints.cones.IsPlain)
    (read : constraints.cones.blocks = .ok blocks)
    (tiling : Block.checkTiling blocks constraints.rows = .ok ())
    (size : constraints.b.length = constraints.rows) {dim : Nat}
    (listed : (.semidefinite, dim) ∈ constraints.cones.product)
    (rounded : packedSize dim ≠ .ok (triangle dim)) :
    after (solve solvers constraints c request) log = (.error (.invalid .value), log) := by
  have failed := rowOrder_of_rounded plain read tiling listed rounded
  rw [← size] at failed
  unfold solve
  rw [after_layout_bind read, failed]
  rfl

end Clarabel

theorem Loose.size_eq_zero_of_takeRows {m : Nat} {A : Sparse ℝ m n} {order : List Nat}
    {S : Sparse ℝ order.length n} (taken : takeRows A order = .ok S) :
    S.size = 0 ↔ ∀ j, ∀ entry ∈ A.columns j, entry.1.val ∉ order := by
  unfold takeRows at taken
  split_ifs at taken with inside
  cases taken
  have column (j : Fin n) :
      (A.selectRows (Vector.ofFn fun i => ⟨order.get i, inside i⟩)).columns j = [] ↔
        ∀ entry ∈ A.columns j, entry.1.val ∉ order := by
    simp only [Sparse.selectRows, Vec.map_apply, List.flatMap_eq_nil_iff, List.filterMap_eq_nil_iff,
      Vec.ofFn_apply, ite_eq_right_iff, reduceCtorEq, imp_false]
    constructor
    · rintro apart ⟨row, v⟩ stored listed
      obtain ⟨i, bound, same⟩ := List.mem_iff_getElem.1 listed
      exact apart ⟨i, bound⟩ (List.mem_finRange _) _ stored (Fin.ext same.symm)
    · rintro absent i _ ⟨row, v⟩ stored rfl
      exact absent _ stored (order.get_mem i)
  simp only [← column]
  rw [Sparse.size, List.length_eq_zero_iff, List.flatten_eq_nil_iff]
  constructor
  · intro empty j
    exact empty _ (Vector.mem_toList_iff.2 (Vector.getElem_mem j.isLt))
  · intro empty entries stored
    obtain ⟨j, bound, rfl⟩ := Vector.mem_iff_getElem.1 (Vector.mem_toList_iff.1 stored)
    exact empty ⟨j, bound⟩

namespace Ecos

variable {solvers : Solvers ℝ} {constraints : Constraints ℝ n} {c : List ℝ} {request : Request ℝ}
  {log : Log ℝ}

def HasEntries (constraints : Constraints ℝ n) : Prop :=
  ∃ j, ∃ entry ∈ constraints.A.columns j, entry.1.val < constraints.cones.equationRows

theorem size_of_takeRows {E : Sparse ℝ _ n} (taken : takeRows constraints.A
      ((List.range constraints.rows).take constraints.cones.equationRows) = .ok E) :
    E.size = 0 ↔ ¬HasEntries constraints := by
  rw [Loose.size_eq_zero_of_takeRows taken, HasEntries]
  push Not
  refine forall_congr' fun j => forall₂_congr fun entry _ => ?_
  rw [List.take_range, List.mem_range]
  have bound := entry.1.isLt
  omega

theorem exists_parts (constraints : Constraints ℝ n) (count : Nat) : ∃ G E,
    takeRows constraints.A ((List.range constraints.rows).drop count) = .ok G ∧
      takeRows constraints.A ((List.range constraints.rows).take count) = .ok E := by
  obtain ⟨G, lower⟩ := exists_takeRows constraints.A fun row listed =>
    List.mem_range.1 (List.mem_of_mem_drop listed)
  obtain ⟨E, upper⟩ := exists_takeRows constraints.A fun row listed =>
    List.mem_range.1 (List.mem_of_mem_take listed)
  exact ⟨G, E, lower, upper⟩

/-- The one call of a run, where there are no equations or some row of them has an entry. -/
theorem calls_solve {G E : Sparse ℝ _ n} (plain : constraints.cones.IsPlain)
    (flat : hasSemidefinite constraints.cones = false)
    (stored : 0 < constraints.cones.equationRows → HasEntries constraints)
    (lower : takeRows constraints.A
      ((List.range constraints.rows).drop constraints.cones.equationRows) = .ok G)
    (upper : takeRows constraints.A
      ((List.range constraints.rows).take constraints.cones.equationRows) = .ok E) :
    (after (solve solvers constraints c request) log).2.calls = log.calls ++ [.ecos
      { c
        G := if constraints.cones.equationRows < constraints.rows then some G else none
        h := if constraints.cones.equationRows < constraints.b.length then
          some (constraints.b.drop constraints.cones.equationRows) else none
        cones := (constraints.cones.get? .nonnegative).toList.map (.cone .nonnegative, ·) ++
          (constraints.cones.get? .secondOrder).toList.map (.cone .secondOrder, ·)
        A := if 0 < constraints.cones.equationRows then some E else none
        b := if 0 < constraints.cones.equationRows then
          some (constraints.b.take constraints.cones.equationRows) else none
        settings := request.settings.withDefault "verbose" (.flag false) }] := by
  have some : ¬((0 < constraints.cones.equationRows && E.size = 0) = true) := by
    rw [Bool.and_eq_true, decide_eq_true_eq, decide_eq_true_eq, size_of_takeRows upper]
    rintro ⟨positive, none⟩
    exact none (stored positive)
  unfold solve
  rw [if_neg (by simp [flat]), after_ofExcept_bind (equations_ok plain _ _)]
  dsimp only
  rw [after_ofExcept_bind lower, after_ofExcept_bind upper, if_neg some,
    after_ofExcept_bind (inequalityCones_ok plain)]
  refine quiet_bind (quiet_accept _) (fun _ => ?_) _
  exact quiet_bind (quiet_ofExcept _) fun _ => quiet_pure _

theorem after_of_empty (plain : constraints.cones.IsPlain)
    (flat : hasSemidefinite constraints.cones = false)
    (positive : 0 < constraints.cones.equationRows) (none : ¬HasEntries constraints) :
    after (solve solvers constraints c request) log = (.error .emptyEqualities, log) := by
  obtain ⟨G, E, lower, upper⟩ := exists_parts constraints constraints.cones.equationRows
  unfold solve
  rw [if_neg (by simp [flat]), after_ofExcept_bind (equations_ok plain _ _)]
  dsimp only
  rw [after_ofExcept_bind lower, after_ofExcept_bind upper, if_pos]
  · rfl
  · rw [Bool.and_eq_true, decide_eq_true_eq, decide_eq_true_eq, size_of_takeRows upper]
    exact ⟨positive, none⟩

end Ecos

namespace Scs

theorem exists_last_call {solvers : Solvers ℝ} {constraints : Constraints ℝ n} {c : List ℝ}
    {request : Request ℝ} {log : Log ℝ} {warmStart : Option (List ℝ × List ℝ × List ℝ)}
    (given : startingPoint request.warmStart = .ok warmStart) : ∃ earlier call,
      (after (solve solvers constraints c request) log).2.calls =
        log.calls ++ (earlier ++ [.scs call]) ∧
      (earlier = [] ∨ ∃ first, earlier = [.scs first] ∧
        isInaccurate (solvers.scs log.calls.length first).status = true) := by
  unfold solve
  dsimp only
  rw [after_ofExcept_bind given, after_scs_bind]
  split
  · exact ⟨[], _, quiet_accept _ _ _, .inl rfl⟩
  · next settings retried =>
    rw [after_scs_bind]
    refine ⟨[_], _, (quiet_accept _ _ _).trans (List.append_assoc ..), .inr ⟨_, rfl, ?_⟩⟩
    unfold retrySettings? at retried
    split_ifs at retried with inaccurate
    exact (Bool.and_eq_true_iff.1 inaccurate).1

end Scs

end ConicDerivative
