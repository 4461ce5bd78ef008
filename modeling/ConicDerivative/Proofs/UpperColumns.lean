import ConicDerivative.Proofs.PackedArrays
import ConicDerivative.Proofs.StartingPoints
import ConicDerivative.Proofs.UpperTriangles

/-!
The order of the rows of one semidefinite block. It lists every row of the block once, so that what
is read in this order can be written back, and a symmetric matrix read in it shows its upper
triangle column by column.
-/

namespace ConicDerivative

open Scalar Matrix

variable {d : Nat}

namespace Loose

variable {front v back w : List ℝ}

theorem entry_between {k : Nat} (inside : k < v.length) :
    entry (front ++ v ++ back) (front.length + k) = entry v k := by
  rw [List.append_assoc, entry_append_right, entry_append_left inside]

theorem entry_around (same : v.length = w.length) {i : Nat}
    (outside : i < front.length ∨ front.length + v.length ≤ i) :
    entry (front ++ v ++ back) i = entry (front ++ w ++ back) i := by
  rcases outside with before | after
  · rw [List.append_assoc, List.append_assoc, entry_append_left before, entry_append_left before]
  · have ends : (front ++ v).length = (front ++ w).length := by
      rw [List.length_append, List.length_append, same]
    obtain ⟨k, rfl⟩ := Nat.exists_eq_add_of_le after
    rw [← List.length_append, entry_append_right, ends, entry_append_right]

theorem eq_of_entry (size : v.length = w.length) (same : ∀ i < v.length, entry v i = entry w i) :
    v = w := by
  apply List.ext_getElem size
  intro i inside inside'
  rw [← entry_of_lt inside, ← entry_of_lt inside']
  exact same i inside

end Loose

namespace RowOrder

open Packed Loose

theorem mem_upper {k : Nat} : k ∈ upper d ↔ k < triangle d := by
  constructor
  · intro listed
    obtain ⟨j, column, cell⟩ := List.mem_flatMap.1 listed
    obtain ⟨i, row, rfl⟩ := List.mem_map.1 cell
    exact position_lt (Nat.lt_succ_iff.1 (List.mem_range.1 row)) (List.mem_range.1 column)
  · intro bound
    obtain ⟨order, inside⟩ := cell_lt bound
    rw [← position_cell bound]
    exact List.mem_flatMap.2 ⟨_, List.mem_range.2 inside,
      List.mem_map_of_mem (List.mem_range.2 (Nat.lt_succ_of_le order))⟩

theorem nodup_upper (d : Nat) : (upper d).Nodup := by
  have arranged (k : Fin (upper d).length) : k.val < Cone.semidefinite.rows d ∧
      (upper d).get k = Cone.semidefinite.arranged d k :=
    ⟨k.isLt.trans_eq (length_upper d), (List.getD_eq_getElem ..).symm⟩
  rw [List.nodup_iff_injective_get]
  intro k l same
  obtain ⟨bound, place⟩ := arranged k
  obtain ⟨bound', place'⟩ := arranged l
  exact Fin.ext (Cone.arranged_injective bound bound' (place.symm.trans (same.trans place')))

/-- The upper triangle of a matrix, column by column, off the diagonal scaled by the root of two. -/
noncomputable def upperTriangle (X : Mat ℝ d d) : List ℝ :=
  (List.finRange d).flatMap fun j => ((List.finRange d).filter (· ≤ j)).map fun i =>
    if i = j then X i i else X i j * rootTwo

theorem range_succ_eq_filter (j : Fin d) :
    List.range (j.val + 1) = ((List.finRange d).filter (· ≤ j)).map Fin.val := by
  apply List.Pairwise.eq_of_mem_iff (r := (· < ·))
  · exact List.pairwise_lt_range
  · exact ((List.pairwise_lt_finRange d).filter _).map _ fun _ _ below => below
  · intro i
    rw [List.mem_range, List.mem_map, Nat.lt_succ_iff]
    constructor
    · intro order
      exact ⟨⟨i, order.trans_lt j.isLt⟩,
        List.mem_filter.2 ⟨List.mem_finRange _, decide_eq_true order⟩, rfl⟩
    · rintro ⟨i, listed, rfl⟩
      exact of_decide_eq_true (List.mem_filter.1 listed).2

theorem upper_eq_finRange (d : Nat) : upper d = (List.finRange d).flatMap fun j =>
    ((List.finRange d).filter (· ≤ j)).map fun i : Fin d => position d i j := by
  rw [upper, ← List.map_coe_finRange_eq_range, List.flatMap_map]
  congr 1
  funext j
  rw [range_succ_eq_filter, List.map_map]
  rfl

theorem map_upper_pack {X : Mat ℝ d d} (symm : X.matrix.IsSymm) :
    (upper d).map (entry (pack X).toList) = upperTriangle X := by
  rw [upper_eq_finRange, List.map_flatMap, upperTriangle]
  congr 1
  funext j
  rw [List.map_map]
  apply List.map_congr_left
  intro i listed
  have order : i ≤ j := of_decide_eq_true (List.mem_filter.1 listed).2
  have stored := getElem?_pack X order
  rw [← position_eq order j.isLt] at stored
  rw [Function.comp_apply, entry, List.getD_eq_getElem?_getD, stored, Option.getD_some, rootTwo_eq]
  exact congrArg (fun v => if i = j then X i i else v * √2) (symm.apply i j)

theorem gather_between {front v back : List ℝ} (size : v.length = triangle d) :
    gather (front ++ v ++ back) ((upper d).map (front.length + ·)) =
      .ok ((upper d).map (entry v)) := by
  rw [gather_eq_ok, List.map_map, List.map_map]
  apply List.map_congr_left
  intro k listed
  have inside : k < v.length := size ▸ mem_upper.1 listed
  rw [Function.comp_apply, Function.comp_apply, List.append_assoc,
    List.getElem?_append_right (Nat.le_add_right ..), Nat.add_sub_cancel_left,
    List.getElem?_append_left inside, List.getElem?_eq_getElem inside, entry_of_lt inside]

theorem scatter_between {front v y back : List ℝ} (size : v.length = triangle d)
    (size' : y.length = triangle d) :
    scatter (front ++ y ++ back) ((upper d).map (front.length + ·)) ((upper d).map (entry v)) =
      .ok (front ++ v ++ back) := by
  have distinct : ((upper d).map (front.length + ·)).Nodup :=
    (nodup_upper d).map fun _ _ => Nat.add_left_cancel
  have inside : ∀ i ∈ (upper d).map (front.length + ·), i < (front ++ y ++ back).length := by
    intro i listed
    obtain ⟨k, place, rfl⟩ := List.mem_map.1 listed
    have bound := mem_upper.1 place
    rw [List.length_append, List.length_append]
    omega
  have same : ((upper d).map (entry v)).length = ((upper d).map (front.length + ·)).length := by
    rw [List.length_map, List.length_map]
  obtain ⟨out, written, length, read, kept⟩ := scatter_eq_ok distinct inside same
  have sizes : out.length = (front ++ v ++ back).length := by
    rw [length, List.length_append, List.length_append, List.length_append, List.length_append,
      size, size']
  rw [written, eq_of_entry sizes]
  intro i _
  by_cases listed : i ∈ (upper d).map (front.length + ·)
  · obtain ⟨p, bound, rfl⟩ := List.mem_iff_getElem.1 listed
    have place : p < (upper d).length := by rwa [List.length_map] at bound
    rw [read p bound, entry_of_lt (by rwa [List.length_map]), List.getElem_map, List.getElem_map,
      entry_between (size ▸ mem_upper.1 (List.getElem_mem place))]
  · rw [kept i listed]
    apply entry_around (size'.trans size.symm)
    by_contra between
    obtain ⟨after, before⟩ := not_or.1 between
    refine listed (List.mem_map.2 ⟨i - front.length, mem_upper.2 ?_, ?_⟩)
    · omega
    · omega

/--
The order of a block lists each of its rows once, by columns of the upper triangle. In this order
the rows of a symmetric matrix are its scaled upper triangle; and rows that are read and written in
it are back in their places, with no other row changed.
-/
theorem ofBlock_arranges (d start : Nat) : ∃ rows : List Nat,
    (ofBlock d start : Outcome ℝ (List Int)) = .ok (rows.map Int.ofNat) ∧
    rows.length = d * (d + 1) / 2 ∧ rows.Nodup ∧
    (∀ row, row ∈ rows ↔ start ≤ row ∧ row < start + d * (d + 1) / 2) ∧
    (∀ i j, i ≤ j → j < d → rows[j * (j + 1) / 2 + i]? =
      some (start + (i * d - i * (i - 1) / 2 + (j - i)))) ∧
    (∀ (X : Mat ℝ d d) (front back : List ℝ), X.matrix.IsSymm → front.length = start →
      gather (front ++ (pack X).toList ++ back) rows = .ok (upperTriangle X)) ∧
    ∀ front v back front' y back' : List ℝ, front.length = start → front'.length = start →
      v.length = d * (d + 1) / 2 → y.length = d * (d + 1) / 2 → ∃ z,
        gather (front ++ v ++ back) rows = .ok z ∧
        scatter (front' ++ y ++ back') rows z = .ok (front' ++ v ++ back') := by
  rw [← triangle_eq_half]
  refine ⟨(upper d).map (start + ·), ?_, ?_, ?_, ?_, ?_, ?_, ?_⟩
  · have nonneg : ¬(d : Int) < 0 := by omega
    rw [ofBlock, if_neg nonneg, List.map_map]
    rfl
  · rw [List.length_map, length_upper]
  · exact (nodup_upper d).map fun _ _ => Nat.add_left_cancel
  · intro row
    rw [List.mem_map]
    constructor
    · rintro ⟨k, listed, rfl⟩
      have bound := mem_upper.1 listed
      omega
    · intro between
      exact ⟨row - start, mem_upper.2 (by omega), by omega⟩
  · intro i j order bound
    rw [← triangle_eq_half, List.getElem?_map, getElem?_upper order bound, position_eq order bound]
    rfl
  · rintro X front back symm rfl
    rw [gather_between Vector.length_toList, map_upper_pack symm]
  · rintro front v back front' y back' rfl first size size'
    refine ⟨_, gather_between size, ?_⟩
    rw [← first, scatter_between size size']

theorem upperTriangle_indexSums : upperTriangle indexSums = [0, √2, 2, 2 * √2, 3 * √2, 4] := by
  have cells : upperTriangle indexSums = [indexSums 0 0, indexSums 0 1 * rootTwo, indexSums 1 1,
    indexSums 0 2 * rootTwo, indexSums 1 2 * rootTwo, indexSums 2 2] := rfl
  rw [cells, rootTwo_eq]
  norm_num [indexSums_apply]

theorem ofBlock_arranges_three : ∃ rows : List Nat,
    (ofBlock ((3 : Nat) : Int) ((1 : Nat) : Int) : Outcome ℝ (List Int)) =
      .ok (rows.map Int.ofNat) ∧
    rows = [1, 2, 4, 3, 5, 6] ∧
    gather ([7] ++ (pack indexSums).toList ++ [8]) rows = .ok [0, √2, 2, 2 * √2, 3 * √2, 4] ∧
    ∃ z, gather ([0] ++ [1, 2, 3, 4, 5, 6] ++ []) rows = .ok z ∧
      scatter ([7] ++ [0, 0, 0, 0, 0, 0] ++ [8]) rows z =
        .ok ([7] ++ [1, 2, 3, 4, 5, 6] ++ [(8 : ℝ)]) := by
  obtain ⟨rows, ordered, size, _, _, entries, triangles, restored⟩ := ofBlock_arranges 3 1
  refine ⟨rows, ordered, ?_, ?_, restored _ _ _ _ _ _ rfl rfl rfl rfl⟩
  · apply List.ext_getElem?
    intro k
    match k with
    | 0 => exact entries 0 0 (by decide) (by decide)
    | 1 => exact entries 0 1 (by decide) (by decide)
    | 2 => exact entries 1 1 (by decide) (by decide)
    | 3 => exact entries 0 2 (by decide) (by decide)
    | 4 => exact entries 1 2 (by decide) (by decide)
    | 5 => exact entries 2 2 (by decide) (by decide)
    | k + 6 =>
      rw [List.getElem?_eq_none (size.trans_le (Nat.le_add_left 6 k))]
      rfl
  · rw [triangles _ _ _ indexSums_symm rfl, upperTriangle_indexSums]

example : (ofBlock 3 0 : Outcome ℝ (List Int)) = .ok [0, 1, 3, 2, 4, 5] := rfl

end RowOrder

end ConicDerivative
