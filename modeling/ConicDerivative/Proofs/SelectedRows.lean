import ConicDerivative.Loose
import ConicDerivative.Proofs.SparseBlocks

/-!
Rows that are selected from a matrix and from its vectors. A list is read as the function of its
entries. A selection without repetition keeps products with vectors that vanish elsewhere, and what
is written back to the selected rows is read there again.
-/

namespace ConicDerivative

open Scalar Matrix

variable {m n k : Nat}

namespace Sparse

theorem sum_share_moved_row (column : List (Fin m × ℝ)) (row : Fin m) (i l : Fin k) :
    ((column.filterMap fun (r, v) => if r = row then some (i, v) else none).map (share l)).sum =
      if i = l then (column.map (share row)).sum else 0 := by
  induction column with
  | nil => simp
  | cons entry column ih =>
    obtain ⟨r, v⟩ := entry
    by_cases here : r = row
    · rw [List.filterMap_cons_some (by simp only [here, if_true]; rfl), List.map_cons,
        List.sum_cons, ih, List.map_cons, List.sum_cons]
      by_cases same : i = l
      · simp [share, here, same]
      · simp [share, same]
    · rw [List.filterMap_cons_none (by simp only [here, if_false]), ih, List.map_cons,
        List.sum_cons]
      simp [share, here]

theorem matrix_selectRows (A : Sparse ℝ m n) (keep : Vector (Fin m) k) :
    (A.selectRows keep).matrix = A.matrix.submatrix keep.get id := by
  funext i j
  have column : (A.selectRows keep).columns j = (List.finRange k).flatMap fun l =>
      (A.columns j).filterMap fun (r, v) => if r = keep l then some (l, v) else none := by
    simp [selectRows, Vec.apply_eq_getElem]
  rw [matrix_apply, column, sum_share_flatMap]
  simp only [sum_share_moved_row]
  rw [← List.ofFn_eq_map, List.sum_ofFn, Finset.sum_eq_single i]
  · rw [if_pos rfl, submatrix_apply, id, matrix_apply]
  · intro other _ different
    rw [if_neg different]
  · intro absent
    exact absurd (Finset.mem_univ i) absent

end Sparse

section

variable {e : Fin k → Fin m}

theorem dotProduct_of_selected (distinct : Function.Injective e) {u w : Fin m → ℝ}
    {u' w' : Fin k → ℝ} (first : ∀ i, u (e i) = u' i) (second : ∀ i, w (e i) = w' i)
    (elsewhere : ∀ i ∉ Set.range e, w i = 0) : u ⬝ᵥ w = u' ⬝ᵥ w' := by
  refine (Fintype.sum_of_injective e distinct _ _ ?_ ?_).symm
  · intro i outside
    rw [elsewhere i outside, mul_zero]
  · intro i
    rw [first, second]

/-- A vector that vanishes on the other rows has the same product with the selected ones. -/
theorem transpose_mulVec_of_selected (distinct : Function.Injective e)
    (M : Matrix (Fin m) (Fin n) ℝ) {w : Fin m → ℝ} {w' : Fin k → ℝ} (same : ∀ i, w (e i) = w' i)
    (elsewhere : ∀ i ∉ Set.range e, w i = 0) : Mᵀ *ᵥ w = (M.submatrix e id)ᵀ *ᵥ w' := by
  funext j
  exact dotProduct_of_selected distinct (fun i => rfl) same elsewhere

end

namespace Loose

noncomputable def entry (v : List ℝ) (i : Nat) : ℝ := v.getD i 0

noncomputable def entries (m : Nat) (v : List ℝ) : Fin m → ℝ := fun i => entry v i

theorem entry_of_lt {v : List ℝ} {i : Nat} (inside : i < v.length) : entry v i = v[i] := by
  rw [entry, List.getD_eq_getElem _ _ inside]

theorem entry_append_left {v w : List ℝ} {i : Nat} (inside : i < v.length) :
    entry (v ++ w) i = entry v i := List.getD_append _ _ _ _ inside

theorem entry_append_right (v w : List ℝ) (i : Nat) : entry (v ++ w) (v.length + i) = entry w i := by
  rw [entry, List.getD_append_right _ _ _ _ (Nat.le_add_right ..), Nat.add_sub_cancel_left, entry]

theorem entries_toList {m : Nat} (v : Vector ℝ m) : entries m v.toList = v.get := by
  funext i
  rw [entries, entry_of_lt (by simp)]
  simp [Vec.apply_eq_getElem]

variable {order : List Nat} {x values w : List ℝ}

theorem mulVec_eq_ok {A : Sparse ℝ m n} {z : List ℝ} (fits : z.length = n) :
    ∃ w, mulVec A z = .ok w ∧ w.length = m ∧ entries m w = A.matrix *ᵥ entries n z := by
  subst fits
  refine ⟨_, dif_pos rfl, Vector.length_toList, ?_⟩
  have vector := entries_toList (⟨z.toArray, rfl⟩ : Vector ℝ z.length)
  rw [entries_toList, Sparse.get_mulVec, ← vector]
  rfl

theorem zipWith_eq_ok (f : ℝ → ℝ → ℝ) {v w : List ℝ} (same : v.length = w.length) :
    zipWith f v w = .ok (v.zipWith f w) := by
  unfold zipWith
  split
  · obtain ⟨b, rfl⟩ := List.length_eq_one_iff.1 same.symm
    rfl
  · obtain ⟨a, rfl⟩ := List.length_eq_one_iff.1 same
    rfl
  · rw [if_pos same]

theorem gather_ok (success : gather x order = .ok w) : w.length = order.length ∧
    ∀ i (inside : i < order.length), entry w i = entry x order[i] := by
  have found : order.mapM (x[·]?) = some w := by
    unfold gather at success
    cases found : order.mapM (x[·]?) with
    | none => simp [found] at success
    | some u => simpa [found] using success
  clear success
  induction order generalizing w with
  | nil =>
    cases found
    exact ⟨rfl, fun i inside => absurd inside (Nat.not_lt_zero i)⟩
  | cons place order ih =>
    rw [List.mapM_cons, Option.bind_eq_bind, Option.bind_eq_some_iff] at found
    obtain ⟨v, first, rest⟩ := found
    obtain ⟨u, others, joined⟩ := Option.bind_eq_some_iff.1 rest
    cases joined
    obtain ⟨size, later⟩ := ih others
    refine ⟨congrArg (· + 1) size, ?_⟩
    intro i inside
    cases i with
    | zero =>
      rw [List.getElem_cons_zero, entry, entry, List.getD_cons_zero, List.getD_eq_getElem?_getD,
        first, Option.getD_some]
    | succ i => exact later i (Nat.lt_of_succ_lt_succ inside)

theorem foldl_set (distinct : order.Nodup) (inside : ∀ i ∈ order, i < x.length)
    (same : values.length = order.length) :
    let out := (order.zip values).foldl (fun out (i, v) => out.set i v) x
    out.length = x.length ∧
      (∀ i (bound : i < order.length), entry out order[i] = entry values i) ∧
      ∀ i, i ∉ order → entry out i = entry x i := by
  induction order generalizing x values with
  | nil => exact ⟨rfl, fun i bound => absurd bound (Nat.not_lt_zero i), fun i _ => rfl⟩
  | cons place order ih =>
    obtain ⟨fresh, distinct⟩ := List.nodup_cons.1 distinct
    obtain ⟨v, values, rfl⟩ := List.exists_cons_of_length_eq_add_one same
    have size : (x.set place v).length = x.length := List.length_set
    have written := inside place List.mem_cons_self
    obtain ⟨length, read, kept⟩ := ih (x := x.set place v) distinct
      (by
        intro i listed
        rw [size]
        exact inside i (List.mem_cons_of_mem _ listed))
      (Nat.succ.inj same)
    refine ⟨length.trans size, ?_, ?_⟩
    · intro i bound
      cases i with
      | zero =>
        refine (kept place fresh).trans ?_
        rw [entry, List.getD_eq_getElem _ _ (by rwa [size]), List.getElem_set_self]
        rfl
      | succ i => exact read i (Nat.lt_of_succ_lt_succ bound)
    · intro i absent
      obtain ⟨other, absent⟩ := not_or.1 (mt List.mem_cons.2 absent)
      refine (kept i absent).trans ?_
      simp only [entry, List.getD_eq_getElem?_getD, List.getElem?_set_ne (Ne.symm other)]

theorem scatter_eq_ok (distinct : order.Nodup) (inside : ∀ i ∈ order, i < x.length)
    (same : values.length = order.length) : ∃ out, scatter x order values = .ok out ∧
      out.length = x.length ∧
      (∀ i (bound : i < order.length), entry out order[i] = entry values i) ∧
      ∀ i, i ∉ order → entry out i = entry x i := by
  refine ⟨_, ?_, foldl_set distinct inside same⟩
  unfold scatter
  split
  · obtain ⟨place, rfl⟩ := List.length_eq_one_iff.1 same.symm
    rfl
  · rw [if_pos same]

theorem takeRows_ok {A : Sparse ℝ m n} {S : Sparse ℝ order.length n}
    (success : takeRows A order = .ok S) : ∃ e : Fin order.length → Fin m,
      (∀ i, (e i : Nat) = order[i.val]) ∧ S.matrix = A.matrix.submatrix e id := by
  unfold takeRows at success
  split_ifs at success with inside
  cases success
  refine ⟨fun i => ⟨order.get i, inside i⟩, fun i => rfl, ?_⟩
  rw [Sparse.matrix_selectRows, Vec.get_ofFn]

theorem injective_of_nodup {e : Fin order.length → Fin m} (distinct : order.Nodup)
    (placed : ∀ i, (e i : Nat) = order[i.val]) : Function.Injective e := by
  intro i j same
  have positions : order[i.val] = order[j.val] := by
    rw [← placed, ← placed, same]
  exact Fin.ext ((List.Nodup.getElem_inj_iff distinct).1 positions)

end Loose

end ConicDerivative
