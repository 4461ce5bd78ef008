import ConicDerivative.Proofs.EquationSplit
import ConicDerivative.Proofs.UpperRows

/-!
Solving with any solver. If the last answer of a run solves the program that was sent in that call,
in the rows and the order of the solver, then the run returns an optimal pair of the program that was
asked for.
-/

namespace ConicDerivative

open Scalar Matrix Outcomes Loose Consulting

variable {n : Nat} {solvers : Solvers ℝ} {constraints reduced : Constraints ℝ n} {c : List ℝ}
variable {blocks : List Block} {keep : List Bool}

theorem Constraints.dropFree_fits (plain : constraints.cones.IsPlain)
    (layout : constraints.cones.blocks = .ok blocks)
    (tiling : Block.checkTiling blocks constraints.rows = .ok ())
    (size : constraints.b.length = constraints.rows)
    (dropped : constraints.dropFree = .ok (reduced, keep)) :
    reduced.cones.IsPlain ∧ reduced.cones.part .free = [] ∧
      reduced.cones.equationRows ≤ reduced.rows ∧ reduced.b.length = reduced.rows := by
  have fits := ConeTable.rows_le plain layout tiling
  have same : (constraints.cones.erase .free).equationRows = constraints.cones.equationRows := by
    rw [ConeTable.equationRows, ConeTable.part_erase (by decide), ConeTable.equationRows]
  have none : (constraints.cones.erase .free).part .free = [] :=
    ConeTable.part_of_none ConeTable.get?_erase_self
  rcases dropFree_ok layout dropped with ⟨rfl, ⟨_, rfl⟩ | ⟨_, A, b, _, gathered, rfl⟩⟩
  · exact ⟨plain.erase _, none, same.le.trans ((Nat.le_add_right _ _).trans fits), size⟩
  · refine ⟨plain.erase _, none, ?_, (gather_ok gathered).1⟩
    change (constraints.cones.erase .free).equationRows ≤ (places _).length
    rw [same, places_kept plain layout fits, length_keptPlaces]
    exact Nat.le_add_right _ _

namespace Solve

theorem reduced_sound (plain : constraints.cones.IsPlain)
    (unfree : constraints.cones.part .free = [])
    (fits : constraints.cones.equationRows ≤ constraints.rows)
    (size : constraints.b.length = constraints.rows) (columns : c.length = n)
    (request : Request ℝ) :
    Sound solvers.Solves (constraints.SolvedBy c) (Solve.reduced solvers constraints c request) := by
  apply sound_ofExcept_bind
  intro name _
  split
  · exact Scs.solve_sound request
  · split_ifs
    · exact sound_of_quiet (quiet_throw _)
    · exact Ecos.solve_sound plain unfree fits size request
  · split_ifs
    · exact sound_of_quiet (quiet_throw _)
    · exact Clarabel.solve_sound plain unfree size columns request
  · exact sound_of_quiet (quiet_throw _)

/-- The solution has vectors, an optimal pair, without prices for the rows of free cones. -/
def Optimal (constraints : Constraints ℝ n) (blocks : List Block) (c : List ℝ)
    (solution : Solution ℝ) : Prop :=
  ∃ values, solution.values = some values ∧
    OptimalPair .lower constraints.cones.product constraints.A constraints.b c values.x values.y
      values.s ∧
    ∀ block ∈ blocks, block.kind = .cone .free → ∀ row : Nat, block.start ≤ row →
      row < block.stop → entry values.y row = 0

theorem full_sound (plain : constraints.cones.IsPlain)
    (layout : constraints.cones.blocks = .ok blocks)
    (tiling : Block.checkTiling blocks constraints.rows = .ok ())
    (size : constraints.b.length = constraints.rows) (columns : c.length = n)
    (request : Request ℝ) :
    Sound solvers.Solves (Optimal constraints blocks c) (full solvers constraints c request) := by
  apply sound_ofExcept_bind
  rintro ⟨reduced, keep⟩ dropped
  obtain ⟨plain', unfree, fits, size'⟩ :=
    Constraints.dropFree_fits plain layout tiling size dropped
  refine (reduced_sound plain' unfree fits size' columns request).bind ?_ ?_
  · intro solution
    split
    · split_ifs
      · exact quiet_pure _
      · exact quiet_bind (quiet_ofExcept _) fun _ => quiet_pure _
    · exact quiet_pure _
  · rintro solution ⟨values, found, pair⟩
    obtain ⟨whole, restored, pair, unpriced⟩ :=
      Constraints.exists_restored plain layout tiling size dropped pair
    have free (block : Block) (listed : block ∈ blocks) (kind : block.kind = .cone .free)
        (row : Nat) (above : block.start ≤ row) (below : row < block.stop) :
        entry whole.y row = 0 := by
      have bounds := ConeTable.bounds_of_free plain layout listed kind above below
      have place := unpriced (row - constraints.cones.equationRows) (by omega)
      rwa [Nat.add_sub_cancel' (by omega)] at place
    rw [found]
    dsimp only
    split_ifs at restored ⊢ with all
    · obtain rfl := Except.ok.inj restored
      exact succeeds_pure ⟨_, found, pair, free⟩
    · have step : Succeeds (monadLift (constraints.restoreFree keep values) :
          Consulting ℝ (Values ℝ)) (· = whole) := succeeds_ofExcept restored rfl
      refine step.bind ?_
      rintro _ rfl
      exact succeeds_pure ⟨_, rfl, pair, free⟩

noncomputable def equationAndFree : Constraints ℝ 1 :=
  ⟨(⟨#v[[(0, 1), (1, -1)]]⟩ : Sparse ℝ 2 1), [1, 1],
    [(.cone .zero, .integer 1), (.cone .free, .integer 1)]⟩

noncomputable def equationAlone : Constraints ℝ 1 :=
  ⟨Sparse.identity 1, [1], [(.cone .zero, .integer 1)]⟩

noncomputable def secondAnswer : Solvers ℝ where
  scs count _ := ⟨"Solved/Inaccurate", if count = 0 then [] else [1], [1], [0]⟩
  ecos _ _ := ⟨-1, [], [], [], .absent, .absent, .absent, .absent⟩
  clarabel _ _ := ⟨"", [], [], [], .absent, .absent, .absent⟩

theorem dropFree_equationAndFree :
    equationAndFree.dropFree = .ok (equationAlone, [true, false]) := by
  have single : equationAlone.A = (⟨#v[[(0, 1)]]⟩ : Sparse ℝ 1 1) := rfl
  have taken : takeRows equationAndFree.A [0] = .ok equationAlone.A := by
    rw [single]
    simp [takeRows, Sparse.selectRows, equationAndFree, List.finRange_succ, Vec.apply_eq_getElem]
  have steps : equationAndFree.dropFree = (takeRows equationAndFree.A [0] >>= fun A =>
      (.ok (⟨A, [1], [(.cone .zero, .integer 1)]⟩, [true, false]) : Outcome ℝ _)) := rfl
  rw [steps, taken]
  rfl

theorem optimalPair_equationAlone : OptimalPair .lower equationAlone.cones.product equationAlone.A
    equationAlone.b [-1] [1] [1] [0] := by
  refine ⟨rfl, rfl, rfl, rfl, ?_, ?_, ?_, ?_, ?_⟩
  · change (Sparse.identity 1 : Sparse ℝ 1 1).matrix *ᵥ entries 1 [1] + entries 1 [0] = entries 1 [1]
    rw [Sparse.matrix_identity, one_mulVec]
    funext i
    fin_cases i
    simp [entries, entry]
  · change (Sparse.identity 1 : Sparse ℝ 1 1).matrixᵀ *ᵥ entries 1 [1] + entries 1 [-1] = 0
    rw [Sparse.matrix_identity, transpose_one, one_mulVec]
    funext i
    fin_cases i
    simp [entries, entry]
  · refine ⟨?_, trivial⟩
    intro i bound
    have first : i < 1 := bound
    interval_cases i
    rfl
  · exact ⟨trivial, trivial⟩
  · change entries 1 [0] ⬝ᵥ entries 1 [1] = 0
    simp [entries, entry, dotProduct]

end Solve

end ConicDerivative
