import ConicDerivative.Proofs.PackedIsometry

/-!
Packing and unpacking of arrays. A vector is unpacked if it has as many entries as the triangle, and
the array of a square matrix is packed. On these arrays the two are inverse to one another and keep
inner products.
-/

namespace ConicDerivative

open Scalar Matrix

variable {k size d : Nat}

theorem Tensor.toMat?_ofMat {α : Type} {m n : Nat} (A : Mat α m n) :
    (ofMat A).toMat? m n = some A := by
  refine (dif_pos rfl).trans (congrArg some ?_)
  apply Mat.ext
  intro i j
  have positive : 0 < n := j.val.zero_le.trans_lt j.isLt
  have row : (rowMajor i j).val / (n * 1) = i := by
    change (i.val * n + j) / (n * 1) = i
    rw [Nat.mul_one, Nat.mul_comm, Nat.mul_add_div positive, Nat.div_eq_of_lt j.isLt, Nat.add_zero]
  have column : (rowMajor i j).val % (n * 1) = j := by
    change (i.val * n + j) % (n * 1) = j
    rw [Nat.mul_one, Nat.mul_comm, Nat.mul_add_mod, Nat.mod_eq_of_lt j.isLt]
  let flat := (A.rows.map fun row => row.cast (Nat.mul_one n).symm).flatten
  have entry : flat[(rowMajor i j).val] = A i j := by
    simp only [flat, Vector.getElem_flatten, row, column, Vector.getElem_map, Vector.getElem_cast]
    rfl
  rw [Mat.ofFn_apply, Vec.apply_eq_getElem]
  simp only [Vector.getElem_cast]
  exact entry

namespace Packed

variable {α : Type}

theorem toList_ofVector (x : Vector α k) : (Tensor.ofVector x).entries.toList = x.toList :=
  Vector.toList_cast (Nat.mul_one k).symm

theorem broadcast?_ofVector (x : Vector α k) : broadcast? (.ofVector x) k = some x := by
  have shape : (Tensor.ofVector x).shape.getLast? = some k := rfl
  have length : ¬(some k).any (fun last => decide (x.toList.length ≠ last)) = true := by simp
  unfold broadcast?
  dsimp only
  rw [toList_ofVector, shape, if_neg length]
  clear shape length
  obtain ⟨⟨listed⟩, size⟩ := x
  subst size
  cases listed with
  | nil => rfl
  | cons first rest =>
    cases rest with
    | nil => rfl
    | cons second rest => exact dif_pos rfl

theorem broadcast?_ofVector_of_ne (x : Vector α k) (several : k ≠ 1) (different : k ≠ size) :
    broadcast? (.ofVector x) size = none := by
  have length : x.toList.length = k := Vector.length_toList
  unfold broadcast?
  dsimp only
  rw [toList_ofVector]
  split_ifs
  · rfl
  · split
    · next single =>
      rw [single] at length
      exact absurd length.symm several
    · exact dif_neg (by rwa [length])

variable [Scalar α]

theorem ofTensor_ofVector (x : Vector α (triangle d)) :
    ofTensor (.ofVector x) d = .ok ⟨unpack d x⟩ := by
  have read : broadcast? (.ofVector x) (triangle (d : Int).toNat) = some x := broadcast?_ofVector x
  have nonneg : ¬(d : Int) < 0 := by omega
  unfold ofTensor
  rw [if_neg nonneg, read]
  rfl

theorem packTensor_ofMat (X : Mat α d d) : packTensor (.ofMat X) = .ok (.ofVector (pack X)) := by
  have whole : Mat.ofFn (fun i (j : Fin d) => X i (j.castLE le_rfl)) = X :=
    Mat.ext fun i j => Mat.ofFn_apply ..
  have packed : packMatrix X = (.ok ⟨pack X⟩ : Outcome α (Tensor.Column α)) := by
    rw [packMatrix, dif_pos le_rfl, whole]
  have read := Tensor.toMat?_ofMat X
  unfold packTensor
  dsimp only [Tensor.ofMat] at read ⊢
  rw [read]
  dsimp only
  rw [packed]
  rfl

theorem getElem?_pack (X : Mat ℝ d d) {i j : Fin d} (order : i ≤ j) :
    (pack X).toList[i.val * d - i.val * (i.val - 1) / 2 + (j.val - i.val)]? =
      some (if i = j then X i i else X j i * √2) := by
  have entry := pack_place X order
  rw [place_of_le order, rootTwo_eq] at entry
  have inside := position_lt order j.isLt
  rw [← position_eq order j.isLt, List.getElem?_eq_getElem (by rwa [Vector.length_toList]),
    Vector.getElem_toList]
  exact congrArg some entry

/--
Unpacking and packing are inverse isometries: between the vectors as long as the triangle with
their inner product and the symmetric matrices with the trace of the product.
-/
theorem inverse_isometries (d : Nat) :
    (∀ x : Vector ℝ (d * (d + 1) / 2), ∃ X : Mat ℝ d d, ofTensor (.ofVector x) d = .ok ⟨X⟩ ∧
      X.matrix.IsSymm ∧ packTensor (.ofMat X) = .ok (.ofVector x)) ∧
    ∀ X : Mat ℝ d d, ∃ x : Vector ℝ (d * (d + 1) / 2),
      packTensor (.ofMat X) = .ok (.ofVector x) ∧
      (∀ i j : Fin d, i ≤ j →
        x.toList[i.val * d - i.val * (i.val - 1) / 2 + (j.val - i.val)]? =
          some (if i = j then X i i else X j i * √2)) ∧
      (X.matrix.IsSymm → ofTensor (.ofVector x) d = .ok ⟨X⟩ ∧
        ∀ (Y : Mat ℝ d d) (y : Vector ℝ (d * (d + 1) / 2)), Y.matrix.IsSymm →
          packTensor (.ofMat Y) = .ok (.ofVector y) →
            x.get ⬝ᵥ y.get = (X.matrix * Y.matrix).trace) := by
  rw [← triangle_eq_half]
  constructor
  · intro x
    refine ⟨unpack d x, ofTensor_ofVector x, unpack_symm x, ?_⟩
    rw [packTensor_ofMat, pack_unpack]
  · intro X
    refine ⟨pack X, packTensor_ofMat X, fun i j => getElem?_pack X, ?_⟩
    intro symm
    constructor
    · rw [ofTensor_ofVector, unpack_pack symm]
    · intro Y y symm' packed
      have same : Tensor.ofVector (pack Y) = .ofVector y :=
        Except.ok.inj ((packTensor_ofMat Y).symm.trans packed)
      have read := congrArg (fun t : Tensor ℝ => t.toVector? (triangle d)) same
      simp only [Tensor.toVector?_ofVector, Option.some.injEq] at read
      rw [← read]
      exact dot_pack symm symm'

def indexSums : Mat ℝ 3 3 := Mat.ofFn fun i j => ((i.val + j.val : Nat) : ℝ)

theorem indexSums_apply (i j : Fin 3) : indexSums i j = ((i.val + j.val : Nat) : ℝ) :=
  Mat.ofFn_apply ..

theorem indexSums_symm : indexSums.matrix.IsSymm := by
  ext i j
  change indexSums j i = indexSums i j
  rw [indexSums_apply, indexSums_apply, Nat.add_comm]

theorem inverse_isometries_indexSums : ∃ x : Vector ℝ (3 * (3 + 1) / 2),
    packTensor (.ofMat indexSums) = .ok (.ofVector x) ∧
      x.toList = [0, √2, 2 * √2, 2, 3 * √2, 4] ∧
      ofTensor (.ofVector x) ((3 : Nat) : Int) = .ok ⟨indexSums⟩ ∧ x.get ⬝ᵥ x.get = 48 := by
  obtain ⟨x, packed, entries, inverse⟩ := (inverse_isometries 3).2 indexSums
  obtain ⟨unpacked, products⟩ := inverse indexSums_symm
  refine ⟨x, packed, ?_, unpacked, ?_⟩
  · apply List.ext_getElem?
    intro k
    match k with
    | 0 => exact (entries 0 0 (by decide)).trans (by norm_num [indexSums_apply, Fin.ext_iff])
    | 1 => exact (entries 0 1 (by decide)).trans (by norm_num [indexSums_apply, Fin.ext_iff])
    | 2 => exact (entries 0 2 (by decide)).trans (by norm_num [indexSums_apply, Fin.ext_iff])
    | 3 => exact (entries 1 1 (by decide)).trans (by norm_num [indexSums_apply, Fin.ext_iff])
    | 4 => exact (entries 1 2 (by decide)).trans (by norm_num [indexSums_apply, Fin.ext_iff])
    | 5 => exact (entries 2 2 (by decide)).trans (by norm_num [indexSums_apply, Fin.ext_iff])
    | k + 6 =>
      have size : x.toList.length ≤ k + 6 := Vector.length_toList.trans_le (Nat.le_add_left 6 k)
      rw [List.getElem?_eq_none size]
      rfl
  · have entry (i j : Fin 3) : indexSums.matrix i j = ((i.val + j.val : Nat) : ℝ) :=
      indexSums_apply i j
    rw [products _ x indexSums_symm packed, trace_fin_three]
    simp only [mul_apply, Fin.sum_univ_three, entry]
    norm_num

end Packed

end ConicDerivative
