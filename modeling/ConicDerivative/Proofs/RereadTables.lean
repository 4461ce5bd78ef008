import ConicDerivative.Proofs.DrawnPrograms
import ConicDerivative.Proofs.OrderedBlocks
import ConicDerivative.Proofs.SufficientChecks
import ConicDerivative.Proofs.TableDimensions

/-!
The table of a program, read again. Blocks in the solver's order always have a table. It can be read
again just if no dimension is negative, and its blocks are then those of the program, with the empty
ones left out and adjacent runs of one kind joined. The check of a block list lets a negative side
of a semidefinite block pass, the reading of a table does not.
-/

namespace ConicDerivative

open Outcomes

namespace ConeTable

variable {cone : Cone}

theorem blocks_ofProduct {K : ConeProduct} {blocks : List Block}
    (sorted : (K.map Prod.fst).Pairwise (·.rank ≤ ·.rank))
    (laid : Block.layOut K.dims 0 = .ok blocks) :
    (ofProduct K).blocks = .ok (Block.merge (blocks.filter (0 < ·.dim))) := by
  have counted := isCounted_ofProduct K
  refine blocks_of_layOut counted.key (fun _ _ => counted.dimensions_eq) ?_
  rw [nonempty_product_ofProduct sorted]
  exact Block.layOut_merge (Block.layOut_nonempty laid)

theorem nonneg_of_blocks_gather {cones : List (Cone × Int)} {blocks : List Block} {dim : Int}
    (success : (gather cones).blocks = .ok blocks) (listed : cone.isListed = true)
    (stored : (cone, dim) ∈ cones) : 0 ≤ dim := by
  have kept : (cone, dim) ∈ cones.filter (·.1 = cone) :=
    List.mem_filter.2 ⟨stored, decide_eq_true rfl⟩
  rcases get?_gather cones cone with ⟨none, _⟩ | present
  · rw [none] at kept
    cases kept
  · rw [if_pos listed] at present
    rcases dims_of_blocks success cone with ⟨absent, _⟩ | ⟨extent, values, given, reads, _⟩
    · cases absent.symm.trans present
    · cases given.symm.trans present
      obtain rfl := reads.eq_of_integers rfl
      exact reads.nonneg dim (List.mem_map_of_mem kept)

end ConeTable

namespace Block

variable {blocks : List Block} {offset stop : Int}

theorem layOut_of_checkFrom (accepted : checkFrom blocks offset = .ok stop) :
    layOut (blocks.map fun block => (block.kind, block.dim)) offset = .ok blocks := by
  induction blocks generalizing offset with
  | nil => rfl
  | cons block rest ih =>
    obtain ⟨start, _, count, accepted⟩ := checkFrom_cons_ok.1 accepted
    have past : offset + block.size = block.stop := by
      rw [size]
      omega
    refine layOut_cons_ok.2 ⟨block.size, rest, count, ?_, ?_⟩
    · rw [past]
      exact ih accepted
    · rw [past, ← start]

theorem dim_nonneg_of_ne_semidefinite (accepted : checkFrom blocks offset = .ok stop)
    {block : Block} (listed : block ∈ blocks) {cone : Cone} (kind : block.kind = .cone cone)
    (flat : cone ≠ .semidefinite) : 0 ≤ block.dim := by
  have counted := rowCount_of_checkFrom accepted block listed
  obtain ⟨_, order, _⟩ := (bounds_of_checkFrom accepted).2 block listed
  rw [kind] at counted
  have same : block.dim = block.size := by
    cases cone with
    | semidefinite => exact absurd rfl flat
    | zero | free | nonnegative | secondOrder => exact Except.ok.inj counted
  rw [same]
  exact sub_nonneg.2 order

theorem size_of_dim_zero {block : Block} (none : block.dim = 0)
    (counted : block.kind.rowCount block.dim = .ok block.size) : block.size = 0 := by
  obtain ⟨cone, kind⟩ := Kind.exists_cone counted
  rw [none, kind] at counted
  exact Except.ok.inj (counted.symm.trans cone.rowCount_zero)

section

variable (nonneg : ∀ block ∈ blocks, 0 ≤ block.dim)

include nonneg

theorem checkFrom_filter (accepted : checkFrom blocks offset = .ok stop) :
    checkFrom (blocks.filter (0 < ·.dim)) offset = .ok stop := by
  induction blocks generalizing offset with
  | nil => exact accepted
  | cons block rest ih =>
    obtain ⟨start, order, count, accepted⟩ := checkFrom_cons_ok.1 accepted
    have others : ∀ other ∈ rest, 0 ≤ other.dim := fun other listed =>
      nonneg other (List.mem_cons_of_mem _ listed)
    by_cases positive : 0 < block.dim
    · rw [List.filter_cons_of_pos (by simpa using positive)]
      exact checkFrom_cons_ok.2 ⟨start, order, count, ih others accepted⟩
    · have none : block.dim = 0 := le_antisymm (not_lt.1 positive) (nonneg block List.mem_cons_self)
      have empty := size_of_dim_zero none count
      rw [size] at empty
      have same : block.stop = offset := by omega
      rw [same] at accepted
      rw [List.filter_cons_of_neg (by simpa using positive)]
      exact ih others accepted

theorem sameRows_merge_filter (accepted : checkFrom blocks offset = .ok stop) :
    SameRows blocks (merge (blocks.filter (0 < ·.dim))) := by
  intro row block listed other listed' holds holds'
  have positive : 0 < block.dim := by
    refine lt_of_le_of_ne (nonneg block listed) fun none => ?_
    have empty := size_of_dim_zero none.symm (rowCount_of_checkFrom accepted block listed)
    obtain ⟨above, below⟩ := holds
    rw [size] at empty
    omega
  exact sameRows_merge (checkFrom_filter nonneg accepted) row block
    (List.mem_filter.2 ⟨listed, by simpa using positive⟩) other listed' holds holds'

theorem exists_table_of_nonneg (accepted : checkFrom blocks 0 = .ok stop)
    (ordered : InSolverOrder blocks) : ∃ table, ConeTable.ofBlocks blocks = .ok table ∧
      table.blocks = .ok (merge (blocks.filter (0 < ·.dim))) := by
  obtain ⟨K, same⟩ := exists_dims accepted nonneg
  rw [InSolverOrder, cones_of_dims same] at ordered
  have laid := layOut_of_checkFrom accepted
  rw [same] at laid
  exact ⟨_, ConeTable.ofBlocks_ok same ordered, ConeTable.blocks_ofProduct ordered laid⟩

end

theorem exists_table (accepted : checkFrom blocks 0 = .ok stop) (ordered : InSolverOrder blocks) :
    ∃ table, ConeTable.ofBlocks blocks = .ok table ∧
      ((∃ again, table.blocks = .ok again) → ∀ block ∈ blocks, 0 ≤ block.dim) := by
  obtain ⟨cones, same⟩ := exists_cones accepted
  rw [InSolverOrder, cones_of_pairs same] at ordered
  refine ⟨_, ConeTable.ofBlocks_eq_gather same ordered, ?_⟩
  rintro ⟨again, read⟩ block listed
  have inside := List.mem_map_of_mem (f := fun block : Block => (block.kind, block.dim)) listed
  rw [same] at inside
  obtain ⟨⟨cone, dim⟩, stored, equal⟩ := List.mem_map.1 inside
  obtain ⟨kind, rfl⟩ := Prod.mk.inj equal
  by_cases flat : cone = .semidefinite
  · subst flat
    exact ConeTable.nonneg_of_blocks_gather read rfl stored
  · exact dim_nonneg_of_ne_semidefinite accepted listed kind.symm flat

end Block

namespace Program

variable {α : Type} {program : Program α}

/--
Another program with the same data, and the same cone on every row. The blocks are the same ones,
except for runs of rows.
-/
def Alike (program again : Program α) : Prop :=
  ∃ blocks tiling, again = ⟨program.A, program.b, program.c, blocks, tiling⟩ ∧
    Block.SameRows program.blocks blocks ∧ ∀ row, 0 ≤ row → row < (program.rows : Int) →
      ∃ block ∈ program.blocks, ∃ other ∈ blocks, block.HasRow row ∧ other.HasRow row

theorem alike_of_sameRows {blocks : List Block}
    (tiling : Block.checkTiling blocks program.rows = .ok ())
    (same : Block.SameRows program.blocks blocks) :
    program.Alike ⟨program.A, program.b, program.c, blocks, tiling⟩ := by
  refine ⟨blocks, tiling, rfl, same, ?_⟩
  intro row above below
  obtain ⟨block, listed, holds⟩ :=
    Block.exists_of_checkFrom (Block.checkTiling_ok.1 program.tiling) above below
  obtain ⟨other, listed', holds'⟩ :=
    Block.exists_of_checkFrom (Block.checkTiling_ok.1 tiling) above below
  exact ⟨block, listed, other, listed', holds, holds'⟩

variable [Scalar α] {A : Data α} {b c : Tensor α} {layout layout' : Layout}

theorem ofData_relaid (success : ofData A b c layout = .ok program) {again : Program α} :
    ofData A b c layout' = .ok again ↔
      ∃ blocks tiling, layout'.blocks = .ok blocks ∧
        again = ⟨program.A, program.b, program.c, blocks, tiling⟩ := by
  obtain ⟨matrix, first, rest⟩ := bind_eq_ok.1 success
  obtain ⟨side, second, rest⟩ := bind_eq_ok.1 rest
  obtain ⟨costs, third, rest⟩ := bind_eq_ok.1 rest
  obtain ⟨laid, _, rest⟩ := lift_bind_eq_ok.1 rest
  split at rest
  · cases rest
    constructor
    · intro success'
      obtain ⟨matrix', first', rest⟩ := bind_eq_ok.1 success'
      cases first.symm.trans first'
      obtain ⟨side', second', rest⟩ := bind_eq_ok.1 rest
      cases second.symm.trans second'
      obtain ⟨costs', third', rest⟩ := bind_eq_ok.1 rest
      cases third.symm.trans third'
      obtain ⟨blocks, read, rest⟩ := lift_bind_eq_ok.1 rest
      split at rest
      · next tiling =>
        cases rest
        exact ⟨blocks, tiling, read, rfl⟩
      · cases rest
    · rintro ⟨blocks, tiling, read, rfl⟩
      refine bind_eq_ok.2 ⟨matrix, first, bind_eq_ok.2 ⟨side, second, bind_eq_ok.2 ⟨costs, third,
        lift_bind_eq_ok.2 ⟨blocks, read, ?_⟩⟩⟩⟩
      split
      · rfl
      · next failed => cases tiling.symm.trans failed
  · cases rest

/--
A program of blocks in the solver's order has a table. The table can be used in place of the blocks
just if none of them has a negative dimension, and then makes the same program of it, where empty
blocks are left out and adjacent runs of rows joined.
-/
theorem table_rereads_iff {given : List (Option Block)}
    (success : ofData A b c (.rows given) = .ok program)
    (ordered : Block.InSolverOrder program.blocks) : ∃ table, program.table = .ok table ∧
      ((∃ again, ofData A b c (.table table) = .ok again) ↔
        ∀ block ∈ program.blocks, 0 ≤ block.dim) ∧
      ∀ again, ofData A b c (.table table) = .ok again → program.Alike again := by
  have accepted := Block.checkTiling_ok.1 program.tiling
  obtain ⟨table, made, readable⟩ := Block.exists_table accepted ordered
  have nonneg (again : Program α) (read : ofData A b c (.table table) = .ok again) :
      ∀ block ∈ program.blocks, 0 ≤ block.dim := by
    obtain ⟨blocks, _, laid, _⟩ := (ofData_relaid success).1 read
    exact readable ⟨blocks, laid⟩
  have reread (positive : ∀ block ∈ program.blocks, 0 ≤ block.dim) :
      ∃ blocks tiling, table.blocks = .ok blocks ∧
        program.Alike ⟨program.A, program.b, program.c, blocks, tiling⟩ := by
    obtain ⟨table', made', laid⟩ := Block.exists_table_of_nonneg positive accepted ordered
    cases made.symm.trans made'
    have tiling := Block.checkTiling_ok.2
      (Block.checkFrom_merge (Block.checkFrom_filter positive accepted))
    exact ⟨_, tiling, laid, alike_of_sameRows tiling (Block.sameRows_merge_filter positive accepted)⟩
  refine ⟨table, made, ⟨?_, ?_⟩, ?_⟩
  · rintro ⟨again, read⟩
    exact nonneg again read
  · intro positive
    obtain ⟨_, tiling, laid, _⟩ := reread positive
    exact ⟨_, (ofData_relaid success).2 ⟨_, tiling, laid, rfl⟩⟩
  · intro again read
    obtain ⟨_, tiling, laid, alike⟩ := reread (nonneg again read)
    obtain ⟨blocks, tiling', laid', rfl⟩ := (ofData_relaid success).1 read
    cases laid.symm.trans laid'
    exact alike

theorem table_rereads_of_twoBounds : ∃ (program again : Program ℝ) (table : ConeTable),
    ofData (.sparse 2 2 (.ofSparse (.identity 2))) (.ofVector (.replicate 2 1))
        (.ofVector (.replicate 2 1))
        (.rows [some ⟨.cone .nonnegative, 1, 0, 1⟩, some ⟨.cone .nonnegative, 1, 1, 2⟩]) =
      .ok program ∧ program.table = .ok table ∧
    ofData (.sparse 2 2 (.ofSparse (.identity 2))) (.ofVector (.replicate 2 1))
        (.ofVector (.replicate 2 1)) (.table table) = .ok again ∧ program.Alike again := by
  have made : ofData (.sparse 2 2 (.ofSparse (.identity 2))) (.ofVector (.replicate 2 (1 : ℝ)))
      (.ofVector (.replicate 2 1))
      (.rows [some ⟨.cone .nonnegative, 1, 0, 1⟩, some ⟨.cone .nonnegative, 1, 1, 2⟩]) =
        .ok ⟨_, _, _, _, _⟩ := ofData_ok (.identity 2) _ _ rfl rfl
  have ordered : Block.InSolverOrder
      [⟨.cone .nonnegative, 1, 0, 1⟩, ⟨.cone .nonnegative, 1, 1, 2⟩] := by
    unfold Block.InSolverOrder
    decide
  obtain ⟨table, written, reread, alike⟩ := table_rereads_iff made ordered
  obtain ⟨again, read⟩ := reread.2 (by decide)
  exact ⟨_, again, table, made, written, read, alike again read⟩

theorem tiling_of_negativeSide :
    Block.checkTiling [⟨.cone .semidefinite, -2, 0, 1⟩] (1 : Nat) = .ok () := by
  have value : ((-2 : Int) * (-2 + 1) / 2).toNat = 1 := rfl
  have single : Binary64.round 1 = some 1 := Binary64.round_of_lt (by norm_num)
  have size : packedSize (-2) = .ok 1 := by
    unfold packedSize
    rw [value, single]
  have counted : (Kind.cone .semidefinite).rowCount (-2) = .ok 1 := congrArg (·.map Int.ofNat) size
  exact Block.checkTiling_ok.2 (Block.checkFrom_cons_ok.2 ⟨rfl, by decide, counted, rfl⟩)

/-- Blocks accept it, and it has a table, but the table is refused. -/
theorem negativeSide_not_reread : ∃ (program : Program ℝ) (table : ConeTable),
    ofData (.sparse 1 1 (.ofSparse (.identity 1))) (.ofVector (.replicate 1 1))
        (.ofVector (.replicate 1 1)) (.rows [some ⟨.cone .semidefinite, -2, 0, 1⟩]) = .ok program ∧
      program.table = .ok table ∧ ∀ again : Program ℝ,
        ofData (.sparse 1 1 (.ofSparse (.identity 1))) (.ofVector (.replicate 1 1))
          (.ofVector (.replicate 1 1)) (.table table) ≠ .ok again := by
  have laid : (Layout.rows [some ⟨.cone .semidefinite, -2, 0, 1⟩]).blocks =
      .ok [⟨.cone .semidefinite, -2, 0, 1⟩] := rfl
  have made := ofData_ok (.identity 1) (.replicate 1 1) (.replicate 1 1) laid tiling_of_negativeSide
  refine ⟨_, ConeTable.gather [(.semidefinite, -2)], made, rfl, ?_⟩
  intro again read
  have nonneg := ConeTable.nonneg_of_blocks_gather (blocks_of_ofData read) rfl List.mem_cons_self
  exact absurd nonneg (by decide)

end Program

end ConicDerivative
