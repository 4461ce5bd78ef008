import ConicDerivative.Axes
import ConicDerivative.Proofs.CanonicalStores
import ConicDerivative.Proofs.Tiling

/-!
Block diagonal sums of matrices of any shapes. The parts share the argument in their order, each
taking as many entries as it has columns, and their images follow one another; the rows before a
part and the columns before it are counted apart. The transposed map goes the other way.
-/

namespace ConicDerivative

open Matrix Outcomes

namespace Sized

variable {F : Nat → Nat → Type} {β : Type} {n l : Nat} (size : Sized F → Nat) (part : Sized F)
  (parts : List (Sized F))

def start (i : Nat) : Nat := ((parts.take i).map size).sum

theorem start_succ (i : Nat) :
    start size (part :: parts) (i + 1) = size part + start size parts i := by
  rw [start, List.take_succ_cons, List.map_cons, List.sum_cons, start]

theorem start_add_size_le (i : Fin parts.length) :
    start size parts i + size (parts.get i) ≤ (parts.map size).sum := by
  have next : ((parts.take (i + 1)).map size).sum = start size parts i + size (parts.get i) := by
    rw [List.take_succ_eq_append_getElem i.isLt, List.map_append, List.sum_append, start]
    simp
  rw [← next]
  exact ((List.take_sublist (i + 1) parts).map size).sum_le_sum fun _ _ => Nat.zero_le _

def run (x : Vector β n) (whole : n = (parts.map size).sum) (i : Fin parts.length) :
    Vector β (size (parts.get i)) :=
  Vec.window x (start size parts i) (size (parts.get i)) (by
    rw [whole]
    exact start_add_size_le size parts i)

theorem run_zero (x : Vector β (size part + l))
    (whole : size part + l = ((part :: parts).map size).sum) :
    run size (part :: parts) x whole ⟨0, Nat.succ_pos _⟩ = Vec.left x :=
  calc
    _ = Vec.left (Vec.window x 0 (size part + l) (by omega)) := (Vec.left_window x 0 _).symm
    _ = Vec.left x := congrArg Vec.left (Vec.window_zero x _)

theorem run_succ (x : Vector β (size part + l))
    (whole : size part + l = ((part :: parts).map size).sum) (rest : l = (parts.map size).sum)
    (i : Fin parts.length) :
    run size (part :: parts) x whole i.succ = run size parts (Vec.right x) rest i := by
  apply Vec.ext
  intro k
  refine (Vec.window_apply ..).trans (Eq.trans ?_ (Vec.window_apply ..).symm)
  rw [Vec.right_apply]
  congr 1
  apply Fin.ext
  change start size (part :: parts) (i + 1) + k.val = size part + (start size parts i + k.val)
  rw [start_succ, Nat.add_assoc]

theorem flatMap_run_cons {γ : Type} (f : ∀ part : Sized F, Vector β (size part) → List γ)
    (x : Vector β (size part + l)) (whole : size part + l = ((part :: parts).map size).sum)
    (rest : l = (parts.map size).sum) :
    ((List.finRange (part :: parts).length).flatMap fun i =>
        f ((part :: parts).get i) (run size (part :: parts) x whole i)) =
      f part (Vec.left x) ++ (List.finRange parts.length).flatMap fun i =>
        f (parts.get i) (run size parts (Vec.right x) rest i) := by
  refine (congrArg (List.flatMap _) List.finRange_succ).trans ?_
  rw [List.flatMap_cons, List.flatMap_map]
  refine congrArg₂ _ (congrArg (f part) (run_zero ..)) ?_
  refine congrArg (List.flatMap · _) (funext fun i => ?_)
  exact congrArg (f (parts.get i)) (run_succ ..)

end Sized

namespace Operator

section Parts

variable {α : Type}

/--
The maps of a list work side by side, each on its own run of the argument, and what they return is
joined. Forwards the runs are as long as the columns, backwards as the rows.
-/
structure JoinsParts (parts : List (Sized (Operator α))) (A : Sized (Operator α)) : Prop where
  rows : A.rows = (parts.map Sized.rows).sum
  cols : A.cols = (parts.map Sized.cols).sum
  apply : ∀ x, (A.value.apply x).toList = (List.finRange parts.length).flatMap fun i =>
    ((parts.get i).value.apply (Sized.run Sized.cols parts x cols i)).toList
  adjoint : ∀ y, (A.value.adjoint y).toList = (List.finRange parts.length).flatMap fun i =>
    ((parts.get i).value.adjoint (Sized.run Sized.rows parts y rows i)).toList

theorem JoinsParts.nil : JoinsParts [] (⟨empty⟩ : Sized (Operator α)) where
  rows := rfl
  cols := rfl
  apply _ := List.length_eq_zero_iff.1 Vector.length_toList
  adjoint _ := List.length_eq_zero_iff.1 Vector.length_toList

theorem JoinsParts.cons (part : Sized (Operator α)) {parts : List (Sized (Operator α))}
    {A : Sized (Operator α)} (joined : JoinsParts parts A) :
    JoinsParts (part :: parts) ⟨diagonal part.value A.value⟩ where
  rows := congrArg (part.rows + ·) joined.rows
  cols := congrArg (part.cols + ·) joined.cols
  apply x := by
    rw [diagonal, Vector.toList_append, joined.apply]
    exact (Sized.flatMap_run_cons Sized.cols part parts
      (fun part x => (part.value.apply x).toList) x _ joined.cols).symm
  adjoint y := by
    rw [diagonal, Vector.toList_append, joined.adjoint]
    exact (Sized.flatMap_run_cons Sized.rows part parts
      (fun part y => (part.value.adjoint y).toList) y _ joined.rows).symm

theorem joinsParts_blockDiagonal (parts : List (Sized (Operator α))) :
    JoinsParts parts (blockDiagonal parts) := by
  induction parts with
  | nil => exact .nil
  | cons part parts ih => exact ih.cons part

end Parts

theorem isAdjoint_blockDiagonal {parts : List (Sized (Operator ℝ))}
    (pairs : ∀ part ∈ parts, part.value.IsAdjoint) : (blockDiagonal parts).value.IsAdjoint := by
  induction parts with
  | nil => exact isAdjoint_empty
  | cons part parts ih =>
    rw [List.forall_mem_cons] at pairs
    exact isAdjoint_diagonal pairs.1 (ih pairs.2)

theorem applyTensor_ofVector {α : Type} {m n : Nat} (A : Operator α m n) (x : Vector α n) :
    A.applyTensor (.ofVector x) = .ok (.ofVector (A.apply x)) := by
  rw [applyTensor, Tensor.toVector?_ofVector]

end Operator

namespace Data

theorem represents_toOperator {A : Data ℝ} {part : Sized (Operator ℝ)}
    (read : A.toOperator = .ok part) : part.value.Represents fun i j => A.total i j := by
  cases A with
  | sparse m n A =>
    cases read
    have entries := Operator.represents_ofListed A.toListed
    rwa [funext₂ A.matrix_toListed] at entries
  | dense t =>
    rw [toOperator] at read
    cases matrix : t.toMatrix? with
    | none =>
      rw [matrix] at read
      cases read
    | some M =>
      rw [matrix] at read
      cases read
      have entries := Operator.represents_ofMat M.value
      rwa [← show _ = M.value.matrix from funext₂ (total_dense matrix)] at entries

theorem exists_toOperator {A : Data ℝ} (axes : A.shape.length = 2) :
    ∃ part : Sized (Operator ℝ), A.toOperator = .ok part ∧ A.shape = [part.rows, part.cols] := by
  cases A with
  | sparse m n A => exact ⟨⟨.ofListed A.toListed⟩, rfl, rfl⟩
  | dense t =>
    obtain ⟨shape, entries⟩ := t
    obtain ⟨m, n, rfl⟩ := List.length_eq_two.1 axes
    have read : Tensor.toMat? ⟨[m, n], entries⟩ m n = some _ := dif_pos rfl
    rw [toOperator, Tensor.toMatrix?, read]
    exact ⟨_, rfl, rfl⟩

theorem map_shapes {α : Type} {matrices : List (Data α)} {parts : List (Sized (Operator α))}
    (shapes : List.Forall₂ (fun A part => A.shape = [part.rows, part.cols]) matrices parts) :
    parts.map Sized.rows = matrices.map (fun A => A.shape.headD 0) ∧
      parts.map Sized.cols = matrices.map (fun A => A.shape.getLastD 0) := by
  induction shapes with
  | nil => exact ⟨rfl, rfl⟩
  | cons shape _ ih => simp [shape, ih]

theorem exists_parts {matrices : List (Data ℝ)} (axes : ∀ A ∈ matrices, A.shape.length = 2) :
    ∃ parts : List (Sized (Operator ℝ)), matrices.mapM toOperator = .ok parts ∧
      List.Forall₂ (fun A part => A.shape = [part.rows, part.cols] ∧
        part.value.Represents fun i j => A.total i j) matrices parts := by
  have readable : ∀ A ∈ matrices, ∃ part : Sized (Operator ℝ), A.toOperator = .ok part := by
    intro A listed
    obtain ⟨part, read, _⟩ := exists_toOperator (axes A listed)
    exact ⟨part, read⟩
  obtain ⟨parts, mapped⟩ := exists_mapM_iff.2 readable
  refine ⟨parts, mapped, ((List.forall₂_and_left ..).2 ⟨axes, mapM_eq_ok.1 mapped⟩).imp ?_⟩
  rintro A part ⟨flat, read⟩
  obtain ⟨same, read', shape⟩ := exists_toOperator flat
  obtain rfl : same = part := Except.ok.inj (read'.symm.trans read)
  exact ⟨shape, represents_toOperator read⟩

end Data

namespace Operator

/--
The block diagonal sum of matrices with two axes each, of whatever shapes. It has as many rows and
columns as they have together, applies each of them to its run of the argument and joins the images,
and backwards does so with their transposes, so that the two have the same inner products. The
transposed map exchanges the two directions and the two numbers of the shape.
-/
theorem blockDiagonal_matrices (matrices : List (Data ℝ))
    (axes : ∀ A ∈ matrices, A.shape.length = 2) :
    ∃ (parts : List (Sized (Operator ℝ))) (D T : Sized (Operator ℝ)),
      matrices.mapM Data.toOperator = .ok parts ∧ blockDiagonal parts = D ∧
      T = ⟨D.value.transpose⟩ ∧
      List.Forall₂ (fun A part => A.shape = [part.rows, part.cols] ∧
        part.value.Represents fun i j => A.total i j) matrices parts ∧
      D.rows = (matrices.map fun A => A.shape.headD 0).sum ∧
      D.cols = (matrices.map fun A => A.shape.getLastD 0).sum ∧
      JoinsParts parts D ∧
      (∀ x y, D.value.applyTensor (.ofVector x) = .ok (.ofVector (D.value.apply x)) ∧
        D.value.transpose.applyTensor (.ofVector y) = .ok (.ofVector (D.value.adjoint y)) ∧
        (D.value.apply x).get ⬝ᵥ y.get = x.get ⬝ᵥ (D.value.adjoint y).get) ∧
      T.rows = D.cols ∧ T.cols = D.rows ∧
      (⟨T.value.transpose⟩ : Sized (Operator ℝ)) = D ∧
      ∀ x y, D.value.transpose.apply y = D.value.adjoint y ∧
        D.value.transpose.adjoint x = D.value.apply x := by
  obtain ⟨parts, mapped, shapes⟩ := Data.exists_parts axes
  have pair : (blockDiagonal parts).value.IsAdjoint := by
    apply isAdjoint_blockDiagonal
    intro part listed
    obtain ⟨A, read⟩ := exists_of_mem_mapM mapped listed
    exact (Data.represents_toOperator read).isAdjoint
  have joined := joinsParts_blockDiagonal parts
  obtain ⟨rows, cols⟩ := Data.map_shapes (shapes.imp fun A part given => given.1)
  rw [← rows, ← cols]
  exact ⟨parts, blockDiagonal parts, _, mapped, rfl, rfl, shapes, joined.rows, joined.cols, joined,
    fun x y => ⟨applyTensor_ofVector .., applyTensor_ofVector .., pair x y⟩, rfl, rfl, rfl,
    fun x y => ⟨rfl, rfl⟩⟩

noncomputable def rectangular : List (Data ℝ) :=
  [.dense (.ofMat (Mat.identity 2)), .sparse 3 0 ⟨⟨[]⟩, .byColumn⟩, .sparse 0 1 ⟨⟨[]⟩, .byRow⟩,
    .sparse 1 2 ⟨⟨[(Fin.last 0, Fin.last 1, 1)]⟩, .listed⟩]

theorem blockDiagonal_matrices_rectangular :
    (∀ A ∈ rectangular, A.shape.length = 2) ∧
    ∃ (parts : List (Sized (Operator ℝ))) (D : Sized (Operator ℝ)),
      rectangular.mapM Data.toOperator = .ok parts ∧ blockDiagonal parts = D ∧
      D.rows = 6 ∧ D.cols = 5 ∧
      ∀ x y, (D.value.apply x).get ⬝ᵥ y.get = x.get ⬝ᵥ (D.value.adjoint y).get := by
  have axes : ∀ A ∈ rectangular, A.shape.length = 2 := by
    simp [rectangular, Data.shape, Tensor.ofMat]
  refine ⟨axes, ?_⟩
  obtain ⟨parts, D, T, mapped, sum, _, _, rows, cols, _, pair, _⟩ :=
    blockDiagonal_matrices rectangular axes
  refine ⟨parts, D, mapped, sum, ?_, ?_, fun x y => (pair x y).2.2⟩
  · rw [rows]
    simp [rectangular, Data.shape, Tensor.ofMat]
  · rw [cols]
    simp [rectangular, Data.shape, Tensor.ofMat]

end Operator

end ConicDerivative
