import ConicDerivative.Proofs.MergedTables
import ConicDerivative.Proofs.OptimalPoints

/-!
Programs whose blocks stand in the solver's order. Their cones have a table, which gives each row the
cone of its block. So over cones of rows the optimal pairs for the table are the optimal points of
the program.
-/

namespace ConicDerivative

open Scalar Matrix Loose

namespace ConeProduct

variable {packing : Packing} {K : ConeProduct} {f : Nat → ℝ}

theorem contains_iff_rowCones (polyhedral : ∀ cone ∈ rowCones K, cone.IsPolyhedral) :
    Contains packing K f ↔
      ∀ (i : Nat) (cone : Cone), (rowCones K)[i]? = some cone → cone.Allows (f i) := by
  induction K generalizing f with
  | nil => simp [Contains, rowCones]
  | cons block K ih =>
    obtain ⟨cone, dim⟩ := block
    rw [rowCones_cons] at polyhedral ⊢
    rw [Contains, ih fun other listed => polyhedral other (List.mem_append_right _ listed)]
    -- A cone without rows need not be one of rows, and contains everything.
    rcases Nat.eq_zero_or_pos dim with rfl | positive
    · simp [cone.rows_zero, cone.contains_empty]
    have first : cone.IsPolyhedral :=
      polyhedral cone (rowCones_cons cone dim K ▸ mem_rowCones List.mem_cons_self positive)
    have size : cone.rows dim = dim := by cases first <;> rfl
    rw [first.contains_iff, size]
    constructor
    · rintro ⟨upper, lower⟩ i other placed
      by_cases here : i < dim
      · rw [List.getElem?_append_left (by simpa using here), List.getElem?_replicate_of_lt here,
          Option.some.injEq] at placed
        exact placed ▸ upper i here
      · rw [List.getElem?_append_right (by simpa using here), List.length_replicate] at placed
        have row := lower _ other placed
        rwa [Nat.add_sub_cancel' (not_lt.1 here)] at row
    · intro row
      constructor
      · intro i here
        refine row i cone ?_
        rw [List.getElem?_append_left (by simpa using here), List.getElem?_replicate_of_lt here]
      · intro i other placed
        refine row (dim + i) other ?_
        rwa [List.getElem?_append_right (by simp), List.length_replicate, Nat.add_sub_cancel_left]

theorem flat_of_rowCones (polyhedral : ∀ cone ∈ rowCones K, cone.IsPolyhedral) :
    Block.Flat (nonempty K) := by
  intro block listed
  obtain ⟨stored, positive⟩ := List.mem_filter.1 listed
  exact (polyhedral _ (mem_rowCones stored (of_decide_eq_true positive))).ne_semidefinite

end ConeProduct

namespace Block

variable {blocks : List Block} {K : ConeProduct} {stop : Int}

def InSolverOrder (blocks : List Block) : Prop :=
  (blocks.filterMap (·.kind.cone?)).Pairwise (·.rank ≤ ·.rank)

theorem cones_of_pairs {cones : List (Cone × Int)}
    (same : blocks.map (fun block => (block.kind, block.dim)) =
      cones.map fun (cone, dim) => (.cone cone, dim)) :
    blocks.filterMap (·.kind.cone?) = cones.map Prod.fst := by
  calc
    _ = (blocks.map fun block => (block.kind, block.dim)).filterMap (·.1.cone?) := by
      rw [List.filterMap_map]
      rfl
    _ = cones.map Prod.fst := by
      rw [same, List.filterMap_map, ← List.filterMap_eq_map]
      rfl

theorem cones_of_dims (same : blocks.map (fun block => (block.kind, block.dim)) = K.dims) :
    blocks.filterMap (·.kind.cone?) = K.map Prod.fst := by
  have pairs : blocks.map (fun block => (block.kind, block.dim)) =
      (K.map fun block => (block.1, (block.2 : Int))).map fun (cone, dim) => (.cone cone, dim) := by
    rw [same, List.map_map]
    rfl
  rw [cones_of_pairs pairs, List.map_map]
  rfl

theorem exists_cones_of_kinds (kinds : ∀ block ∈ blocks, ∃ cone, block.kind = .cone cone) :
    ∃ cones : List (Cone × Int), blocks.map (fun block => (block.kind, block.dim)) =
      cones.map fun (cone, dim) => (.cone cone, dim) := by
  have named : blocks.map (fun block => (block.kind, block.dim)) ∈
      Set.range (List.map fun (cone, dim) => (Kind.cone cone, (dim : Int))) := by
    rw [Set.range_list_map]
    intro pair listed
    obtain ⟨block, stored, rfl⟩ := List.mem_map.1 listed
    obtain ⟨cone, kind⟩ := kinds block stored
    exact ⟨(cone, block.dim), Prod.ext kind.symm rfl⟩
  obtain ⟨cones, same⟩ := named
  exact ⟨cones, same.symm⟩

theorem exists_cones {offset : Int} (accepted : checkFrom blocks offset = .ok stop) :
    ∃ cones : List (Cone × Int), blocks.map (fun block => (block.kind, block.dim)) =
      cones.map fun (cone, dim) => (.cone cone, dim) :=
  exists_cones_of_kinds fun block listed =>
    Kind.exists_cone (rowCount_of_checkFrom accepted block listed)

theorem exists_dims {offset : Int} (accepted : checkFrom blocks offset = .ok stop)
    (nonneg : ∀ block ∈ blocks, 0 ≤ block.dim) :
    ∃ K : ConeProduct, blocks.map (fun block => (block.kind, block.dim)) = K.dims := by
  obtain ⟨cones, same⟩ := exists_cones accepted
  refine ⟨cones.map fun (cone, dim) => (cone, dim.toNat), same.trans ?_⟩
  rw [ConeProduct.dims, List.map_map]
  refine List.map_congr_left ?_
  rintro ⟨cone, dim⟩ stored
  have inside : (Kind.cone cone, dim) ∈ blocks.map fun block => (block.kind, block.dim) :=
    same ▸ List.mem_map.2 ⟨_, stored, rfl⟩
  obtain ⟨block, listed, equal⟩ := List.mem_map.1 inside
  obtain ⟨_, rfl⟩ := Prod.mk.inj equal
  exact Prod.ext rfl (Int.toNat_of_nonneg (nonneg block listed)).symm

theorem flat_of_polyhedral (polyhedral : ∀ block ∈ blocks, block.IsPolyhedral)
    (same : blocks.map (fun block => (block.kind, block.dim)) = K.dims) : Flat K := by
  rintro ⟨cone, dim⟩ listed
  have stored : (Kind.cone cone, (dim : Int)) ∈
      blocks.map fun block => (block.kind, block.dim) := by
    rw [same]
    exact List.mem_map_of_mem listed
  obtain ⟨block, stored, equal⟩ := List.mem_map.1 stored
  obtain ⟨other, kind, rowwise⟩ := polyhedral block stored
  cases kind.symm.trans (congrArg Prod.fst equal)
  exact rowwise.ne_semidefinite

theorem getElem?_rowCones (flat : Flat K)
    (same : blocks.map (fun block => (block.kind, block.dim)) = K.dims) {offset : Nat}
    (accepted : checkFrom blocks offset = .ok stop) :
    stop = offset + K.rows ∧ ∀ block ∈ blocks, ∀ cone, block.kind = .cone cone →
      ∀ row : Nat, block.start ≤ row → row < block.stop →
        (ConeProduct.rowCones K)[row - offset]? = some cone := by
  induction blocks generalizing K offset with
  | nil =>
    obtain rfl : K = [] := List.map_eq_nil_iff.1 same.symm
    rw [checkFrom, Except.ok.injEq] at accepted
    exact ⟨accepted.symm.trans (Int.add_zero _).symm,
      fun _ listed => absurd listed List.not_mem_nil⟩
  | cons first blocks ih =>
    obtain ⟨⟨cone, dim⟩, K, rfl, head, tail⟩ := List.map_eq_cons_iff.1 same.symm
    obtain ⟨kind, count⟩ := Prod.mk.inj head
    obtain ⟨start, _, counted, accepted⟩ := checkFrom_cons_ok.1 accepted
    have rows := rowCount_of_flat (flat _ List.mem_cons_self) dim
    rw [← kind, ← count] at counted
    have size : first.size = cone.rows dim := Except.ok.inj (counted.symm.trans rows)
    have past : first.stop = (offset + cone.rows dim : Nat) := by
      rw [Block.size] at size
      omega
    rw [past] at accepted
    obtain ⟨total, rest⟩ := ih (fun block listed => flat block (List.mem_cons_of_mem _ listed))
      tail.symm accepted
    rw [ConeProduct.rows_cons, ConeProduct.rowCones_cons]
    refine ⟨by omega, ?_⟩
    intro block listed other kind' row above below
    rcases List.mem_cons.1 listed with rfl | later
    · cases kind.trans kind'
      rw [List.getElem?_append_left (by rw [List.length_replicate]; omega),
        List.getElem?_replicate_of_lt (by omega)]
    · have order := (bounds_of_checkFrom accepted).2 block later
      have placed := rest block later other kind' row above below
      rw [List.getElem?_append_right (by rw [List.length_replicate]; omega), List.length_replicate]
      rwa [Nat.sub_sub]

end Block

namespace Program

variable {program : Program ℝ} {cones : List Cone}

structure RowsIn (program : Program ℝ) (cones : List Cone) : Prop where
  length : cones.length = program.rows
  row : ∀ block ∈ program.blocks, ∀ cone, block.kind = .cone cone →
    ∀ i, (block.span program.rows).Contains i → cones[i.val]? = some cone

namespace RowsIn

theorem exists_block (rows : program.RowsIn cones)
    (polyhedral : ∀ block ∈ program.blocks, block.IsPolyhedral) {i : Nat} {cone : Cone}
    (placed : cones[i]? = some cone) : ∃ bound : i < program.rows, ∃ block ∈ program.blocks,
      block.kind = .cone cone ∧ cone.IsPolyhedral ∧
        (block.span program.rows).Contains ⟨i, bound⟩ := by
  obtain ⟨bound, _⟩ := List.getElem?_eq_some_iff.1 placed
  rw [rows.length] at bound
  obtain ⟨block, listed, contained⟩ := Block.exists_span_contains program.tiling ⟨i, bound⟩
  obtain ⟨other, kind, rowwise⟩ := polyhedral block listed
  obtain rfl : other = cone :=
    Option.some.inj ((rows.row block listed other kind _ contained).symm.trans placed)
  exact ⟨bound, block, listed, kind, rowwise, contained⟩

theorem polyhedral (rows : program.RowsIn cones)
    (polyhedral : ∀ block ∈ program.blocks, block.IsPolyhedral) :
    ∀ cone ∈ cones, cone.IsPolyhedral := by
  intro cone listed
  obtain ⟨i, placed⟩ := List.mem_iff_getElem?.1 listed
  obtain ⟨_, _, _, _, rowwise, _⟩ := rows.exists_block polyhedral placed
  exact rowwise

theorem allows_iff (rows : program.RowsIn cones)
    (polyhedral : ∀ block ∈ program.blocks, block.IsPolyhedral) (dual : Bool)
    (x : Vector ℝ program.rows) :
    (∀ (i : Nat) (cone : Cone), cones[i]? = some cone →
        (if dual then cone.dual else cone).Allows (entry x.toList i)) ↔
      ∀ block ∈ program.blocks, block.Contains dual x := by
  have value (i : Fin program.rows) : entry x.toList i = x i := congrFun (entries_toList x) i
  constructor
  · intro row block listed
    obtain ⟨cone, kind, rowwise⟩ := polyhedral block listed
    refine (Block.contains_iff_rows program.tiling listed kind rowwise).2 ?_
    intro i contained
    rw [← value]
    exact row i cone (rows.row block listed cone kind i contained)
  · intro inside i cone placed
    obtain ⟨bound, block, listed, kind, rowwise, contained⟩ := rows.exists_block polyhedral placed
    have row := (Block.contains_iff_rows program.tiling listed kind rowwise).1 (inside block listed)
    rw [value ⟨i, bound⟩]
    exact row _ contained

section

variable {K : ConeProduct}

theorem contains_iff (rows : program.RowsIn K.rowCones)
    (polyhedral : ∀ block ∈ program.blocks, block.IsPolyhedral) (x : Vector ℝ program.rows) :
    K.Contains .lower (entry x.toList) ↔ ∀ block ∈ program.blocks, block.Contains false x := by
  rw [ConeProduct.contains_iff_rowCones (rows.polyhedral polyhedral)]
  exact rows.allows_iff polyhedral false x

end

theorem exists_blocks {table : ConeTable} (rows : program.RowsIn table.product.rowCones)
    (polyhedral : ∀ block ∈ program.blocks, block.IsPolyhedral) (counted : table.IsCounted) :
    ∃ blocks, table.blocks = .ok blocks ∧ Block.checkTiling blocks program.rows = .ok () := by
  have flat := ConeProduct.flat_of_rowCones (rows.polyhedral polyhedral)
  obtain ⟨blocks, read⟩ := counted.exists_blocks flat
  have accepted := Block.checkFrom_of_flat flat (ConeTable.blocks_ok counted.isPlain read)
  rw [ConeProduct.rows_nonempty, ← ConeProduct.length_rowCones, rows.length, zero_add] at accepted
  exact ⟨blocks, read, Block.checkTiling_ok.2 accepted⟩

end RowsIn

theorem exists_dims (polyhedral : ∀ block ∈ program.blocks, block.IsPolyhedral) :
    ∃ K : ConeProduct, program.blocks.map (fun block => (block.kind, block.dim)) = K.dims := by
  refine Block.exists_dims (Block.checkTiling_ok.1 program.tiling) ?_
  intro block listed
  obtain ⟨cone, kind, rowwise⟩ := polyhedral block listed
  exact Block.dim_nonneg_of_polyhedral program.tiling listed kind rowwise

theorem rowsIn_rowCones {K : ConeProduct} (polyhedral : ∀ block ∈ program.blocks, block.IsPolyhedral)
    (same : program.blocks.map (fun block => (block.kind, block.dim)) = K.dims) :
    program.RowsIn K.rowCones := by
  have accepted : Block.checkFrom program.blocks (0 : Nat) = .ok (program.rows : Int) :=
    Block.checkTiling_ok.1 program.tiling
  obtain ⟨total, row⟩ :=
    Block.getElem?_rowCones (Block.flat_of_polyhedral polyhedral same) same accepted
  refine ⟨?_, ?_⟩
  · rw [ConeProduct.length_rowCones]
    omega
  · intro block listed cone kind i contained
    obtain ⟨start, stop⟩ := Block.span_of_tiling program.tiling listed
    obtain ⟨above, below⟩ := contained
    exact row block listed cone kind i (by omega) (by omega)

/--
A program of cones of rows in the solver's order has a table, with the same cone on each row. It can
be read, and its blocks tile the rows again.
-/
theorem exists_table (polyhedral : ∀ block ∈ program.blocks, block.IsPolyhedral)
    (ordered : Block.InSolverOrder program.blocks) : ∃ table blocks, program.table = .ok table ∧
      table.IsPlain ∧ program.RowsIn table.product.rowCones ∧ table.blocks = .ok blocks ∧
        Block.checkTiling blocks program.rows = .ok () := by
  obtain ⟨K, same⟩ := exists_dims polyhedral
  rw [Block.InSolverOrder, Block.cones_of_dims same] at ordered
  have counted := ConeTable.isCounted_ofProduct K
  have rows : program.RowsIn (ConeTable.ofProduct K).product.rowCones := by
    rw [ConeTable.rowCones_product_ofProduct ordered]
    exact rowsIn_rowCones polyhedral same
  obtain ⟨blocks, read, tiling⟩ := rows.exists_blocks polyhedral counted
  exact ⟨_, blocks, ConeTable.ofBlocks_ok same ordered, counted.isPlain, rows, read, tiling⟩

end Program

end ConicDerivative
