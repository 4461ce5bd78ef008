import ConicDerivative.Linearization
import ConicDerivative.Proofs.Outcomes
import ConicDerivative.Proofs.SparseMatrices

/-!
Changes of the data and directions of the solution as they are handed in. A vector is read as it is,
and what is absent is read as zeros; a matrix may be given in any of its storages.
-/

namespace ConicDerivative

open Scalar Outcomes

variable {α : Type} [Scalar α] {m n : Nat}

theorem flatMap_ite_of_nodup {β γ : Type} [DecidableEq β] {items : List β} {item : β}
    (distinct : items.Nodup) (listed : item ∈ items) (f : β → List γ) :
    (items.flatMap fun other => if other = item then f other else []) = f item := by
  induction items with
  | nil => cases listed
  | cons other items ih =>
    obtain ⟨absent, distinct⟩ := List.nodup_cons.1 distinct
    rw [List.flatMap_cons]
    rcases List.mem_cons.1 listed with rfl | later
    · have rest : (items.flatMap fun other => if other = item then f other else []) = [] := by
        rw [List.flatMap_eq_nil_iff]
        intro other inside
        exact if_neg (ne_of_mem_of_not_mem inside absent)
      rw [if_pos rfl, rest, List.append_nil]
    · rw [if_neg (ne_of_mem_of_not_mem later absent).symm, List.nil_append, ih distinct later]

omit [Scalar α] in
theorem Stored.toSparse_ofSparse (A : Sparse α m n) :
    (Stored.ofSparse A).toListed.toSparse = A := by
  obtain ⟨columns⟩ := A
  rw [Listed.toSparse, Sparse.ofEntries, Stored.ofSparse]
  congr 1
  apply Vec.ext
  intro j
  rw [Vec.ofFn_apply, List.filterMap_flatMap]
  -- Of the entries of all columns, those of column j are kept, and no others.
  refine Eq.trans ?_ (flatMap_ite_of_nodup (List.nodup_finRange n) (List.mem_finRange j) columns.get)
  congr 1
  funext l
  rw [List.filterMap_map]
  split_ifs with here
  · simp [here]
  · simp [here]

namespace Data

def ofVector (x : Vector α n) : Data α := .dense (.ofVector x)

theorem vectorOr_ofVector (field : Field) (x : Vector α n) :
    vectorOr field n (some (ofVector x)) = .ok x := by
  simp only [ofVector, vectorOr, Tensor.expect, Tensor.toVector?_ofVector]

/-- What is handed in is read as a matrix with the entries of `A`. -/
def Holds (given : Data ℝ) (A : Matrix (Fin m) (Fin n) ℝ) : Prop :=
  ∃ dA, changeOr m n (some given) = .ok dA ∧ dA.toMat.matrix = A

theorem holds_ofSparse (A : Sparse ℝ m n) : Holds (.sparse m n (.ofSparse A)) A.matrix := by
  refine ⟨_, dif_pos ⟨rfl, rfl⟩, ?_⟩
  rw [AnyMat.toMat, Listed.toMat, Stored.toSparse_ofSparse, Sparse.matrix_toMat]

end Data

theorem ChangeData.fit_ok {given : ChangeData α} {change : Perturbation α m n}
    (matrix : Data.changeOr m n given.dA = .ok change.dA)
    (side : Data.vectorOr .db m given.db = .ok change.db)
    (costs : Data.vectorOr .dc n given.dc = .ok change.dc) : given.fit m n = .ok change :=
  bind_eq_ok.2 ⟨_, matrix, bind_eq_ok.2 ⟨_, side, bind_eq_ok.2 ⟨_, costs, rfl⟩⟩⟩

abbrev ChangeData.ofVectors (db : Vector α m) (dc : Vector α n) : ChangeData α :=
  ⟨none, some (.ofVector db), some (.ofVector dc)⟩

theorem ChangeData.fit_ofVectors (db : Vector α m) (dc : Vector α n) :
    (ofVectors db dc).fit m n = .ok ⟨.sparse (.empty m n), db, dc⟩ :=
  fit_ok rfl (Data.vectorOr_ofVector ..) (Data.vectorOr_ofVector ..)

theorem DirectionData.fit_ok {given : DirectionData α} {target : Direction α m n}
    (primal : Data.vectorOr .dx n given.dx = .ok target.dx)
    (dual : Data.vectorOr .dy m given.dy = .ok target.dy)
    (slack : Data.vectorOr .ds m given.ds = .ok target.ds) : given.fit m n = .ok target :=
  bind_eq_ok.2 ⟨_, primal, bind_eq_ok.2 ⟨_, dual, bind_eq_ok.2 ⟨_, slack, rfl⟩⟩⟩

namespace Linearization

def forwardOf (d : Linearization α m n) (change : ChangeData α) : Outcome α (Direction α m n) := do
  d.forward (← change.fit m n)

def backwardOf (d : Linearization α m n) (target : DirectionData α) :
    Outcome α (Gradient α m n) := do
  d.backward (← target.fit m n)

variable {d : Linearization α m n}

theorem forwardOf_eq {given : ChangeData α} {change : Perturbation α m n}
    (read : given.fit m n = .ok change) : d.forwardOf given = d.forward change := by
  rw [forwardOf, read]
  rfl

theorem backwardOf_eq {given : DirectionData α} {target : Direction α m n}
    (read : given.fit m n = .ok target) : d.backwardOf given = d.backward target := by
  rw [backwardOf, read]
  rfl

end Linearization

end ConicDerivative
