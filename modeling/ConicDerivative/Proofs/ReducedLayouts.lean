import ConicDerivative.Proofs.PackedSizes
import ConicDerivative.Proofs.StartingPoints

/-!
The layout of what a solver gets. Without the free cones a table can still be read, and its blocks
tile the rows that are left. Their rows can be put in the order of the upper triangles just if the
size of no triangle is rounded.
-/

namespace ConicDerivative

open Scalar Matrix Outcomes Loose Consulting

variable {n : Nat}

def Kind.rows (kind : Kind) (dim : Int) : Int := (kind.rowCount dim).toOption.getD 0

theorem Kind.rows_eq {kind : Kind} {dim size : Int} (counted : kind.rowCount dim = .ok size) :
    kind.rows dim = size := by
  rw [rows, counted]
  rfl

namespace Block

variable {dims : List (Kind × Int)} {offset : Int} {blocks : List Block}

theorem exists_layOut_iff : (∃ blocks, layOut dims offset = .ok blocks) ↔
    ∀ pair ∈ dims, ∃ size, pair.1.rowCount pair.2 = .ok size := by
  induction dims generalizing offset with
  | nil => simp [layOut]
  | cons pair dims ih =>
    obtain ⟨kind, dim⟩ := pair
    rw [List.forall_mem_cons]
    constructor
    · rintro ⟨blocks, laid⟩
      obtain ⟨size, later, counted, laid, _⟩ := layOut_cons_ok.1 laid
      exact ⟨⟨size, counted⟩, ih.1 ⟨later, laid⟩⟩
    · rintro ⟨⟨size, counted⟩, rest⟩
      obtain ⟨later, laid⟩ := ih.2 rest
      exact ⟨_, layOut_cons_ok.2 ⟨size, later, counted, laid, rfl⟩⟩

/-- Where blocks end does not depend on how the rows are shared among them. -/
theorem checkFrom_of_layOut_sum (nonneg : ∀ pair ∈ dims, 0 ≤ pair.2)
    (laid : layOut dims offset = .ok blocks) : checkFrom blocks offset =
      .ok (offset + (dims.map fun pair => pair.1.rows pair.2).sum) := by
  induction dims generalizing offset blocks with
  | nil =>
    cases laid
    exact congrArg Except.ok (Int.add_zero offset).symm
  | cons pair dims ih =>
    obtain ⟨kind, dim⟩ := pair
    obtain ⟨first, rest⟩ := List.forall_mem_cons.1 nonneg
    obtain ⟨size, later, counted, others, rfl⟩ := layOut_cons_ok.1 laid
    rw [List.map_cons, List.sum_cons, Kind.rows_eq counted, ← add_assoc, checkFrom_cons_ok,
      Block.size, add_sub_cancel_left]
    exact ⟨rfl, le_add_of_nonneg_right (rowCount_nonneg first counted), counted, ih rest others⟩

end Block

namespace ConeProduct

variable {K : ConeProduct}

def IsExact (K : ConeProduct) : Prop :=
  ∀ dim, (.semidefinite, dim) ∈ K → packedSize dim = .ok (Packed.triangle dim)

theorem IsExact.rowCount (exact : K.IsExact) {block : Cone × Nat} (listed : block ∈ K) :
    (Kind.cone block.1).rowCount block.2 = .ok (block.1.rows block.2 : Int) := by
  obtain ⟨cone, dim⟩ := block
  by_cases flat : cone = .semidefinite
  · subst flat
    have counted := exact dim listed
    change (packedSize dim).map Int.ofNat = _
    rw [counted]
    rfl
  · exact Block.rowCount_of_flat flat dim

theorem IsExact.nonempty (exact : K.IsExact) : (nonempty K).IsExact :=
  fun dim listed => exact dim (List.mem_of_mem_filter listed)

theorem sum_rows_of_exact (exact : K.IsExact) :
    (K.dims.map fun pair => pair.1.rows pair.2).sum = (K.rows : Int) := by
  induction K with
  | nil => rfl
  | cons block K ih =>
    obtain ⟨cone, dim⟩ := block
    have counted := exact.rowCount List.mem_cons_self
    have rest := ih fun dim listed => exact dim (List.mem_cons_of_mem _ listed)
    change Kind.rows (.cone cone) dim + (dims K |>.map fun pair => pair.1.rows pair.2).sum = _
    rw [Kind.rows_eq counted, rest, rows_cons, Nat.cast_add]

theorem dims_nonneg (K : ConeProduct) : ∀ pair ∈ K.dims, 0 ≤ pair.2 := by
  intro pair listed
  obtain ⟨block, _, rfl⟩ := List.mem_map.1 listed
  exact Int.natCast_nonneg _

end ConeProduct

namespace ConeTable

variable {table : ConeTable} {blocks : List Block} {rows : Nat}

theorem exists_blocks_erase (success : table.blocks = .ok blocks) :
    ∃ blocks, (table.erase .free).blocks = .ok blocks := by
  obtain ⟨_, checked, rest⟩ := bind_eq_ok.1 success
  obtain ⟨dims, mapped, laid⟩ := bind_eq_ok.1 rest
  have keys : (table.erase .free).checkKeys = .ok () := by
    have same : (table.erase .free).filter (·.1.cone?.isNone) =
        table.filter (·.1.cone?.isNone) := by
      rw [erase, List.filter_filter]
      apply List.filter_congr
      rintro ⟨kind, extent⟩ _
      cases kind <;> simp [Kind.cone?]
    rw [checkKeys, same]
    exact checked
  choose parts read using fun cone =>
    exists_mapM_iff.1 ⟨dims, mapped⟩ cone (by cases cone <;> decide)
  have whole : dims.flatten = Cone.solverOrder.flatMap parts :=
    flatten_of_forall₂ ((mapM_eq_ok.1 mapped).imp fun cone result given =>
      Except.ok.inj (given.symm.trans (read cone)))
  -- All parts are read as before but the one of the free cones, which is empty now.
  let others : Cone → List (Kind × Int) := Function.update parts .free []
  have counted : ∀ pair ∈ Cone.solverOrder.flatMap others, ∃ size,
      pair.1.rowCount pair.2 = .ok size := by
    intro pair listed
    obtain ⟨cone, ordered, inside⟩ := List.mem_flatMap.1 listed
    refine Block.exists_layOut_iff.1 ⟨blocks, laid⟩ pair ?_
    rw [whole]
    refine List.mem_flatMap.2 ⟨cone, ordered, ?_⟩
    by_cases free : cone = .free
    · simp [others, free] at inside
    · simpa [others, free] using inside
  obtain ⟨later, laid⟩ : ∃ later, Block.layOut (Cone.solverOrder.flatMap others) 0 = .ok later :=
    Block.exists_layOut_iff.2 counted
  refine ⟨later, bind_eq_ok.2 ⟨(), keys, bind_eq_ok.2
    ⟨Cone.solverOrder.map others, mapM_eq_ok.2 ?_, laid⟩⟩⟩
  rw [List.forall₂_map_right_iff, List.forall₂_same]
  intro cone _
  by_cases free : cone = .free
  · subst free
    simp only [get?_erase_self, others, Function.update_self]
    rfl
  · simp only [get?_erase free, others, Function.update_of_ne free]
    exact read cone

theorem tiling_erase (plain : table.IsPlain) (success : table.blocks = .ok blocks)
    (tiling : Block.checkTiling blocks rows = .ok ()) {others : List Block}
    (read : (table.erase .free).blocks = .ok others) {k : Nat} (size : k + table.freeRows = rows) :
    Block.checkTiling others k = .ok () := by
  have all := Block.checkFrom_of_layOut_sum (ConeProduct.dims_nonneg _) (blocks_ok plain success)
  have left := Block.checkFrom_of_layOut_sum (ConeProduct.dims_nonneg _)
    (blocks_ok (plain.erase _) read)
  rw [Block.checkTiling_ok] at tiling ⊢
  rw [tiling] at all
  rw [left]
  apply congrArg Except.ok
  have total := Except.ok.inj all
  have free : ((ConeProduct.nonempty (table.part .free)).dims.map fun pair =>
      pair.1.rows pair.2).sum = (table.freeRows : Int) := by
    rw [ConeProduct.sum_rows_of_exact, ConeProduct.rows_nonempty, freeRows]
    intro dim listed
    cases kind_of_mem_part (List.mem_of_mem_filter listed)
  rw [product_eq] at total
  rw [product_erase_free]
  simp only [ConeProduct.nonempty, ConeProduct.dims, List.filter_append, List.map_append,
    List.sum_append] at total free ⊢
  omega

end ConeTable

namespace Constraints

variable {constraints reduced : Constraints ℝ n} {blocks : List Block} {keep : List Bool}

theorem rows_of_dropFree (plain : constraints.cones.IsPlain)
    (layout : constraints.cones.blocks = .ok blocks)
    (tiling : Block.checkTiling blocks constraints.rows = .ok ())
    (dropped : constraints.dropFree = .ok (reduced, keep)) :
    reduced.rows + constraints.cones.freeRows = constraints.rows := by
  have fits := ConeTable.rows_le plain layout tiling
  have kept : (places (kept blocks constraints.rows)).length + constraints.cones.freeRows =
      constraints.rows := by
    rw [places_kept plain layout fits, length_keptPlaces]
    omega
  rcases dropFree_ok layout dropped with ⟨rfl, ⟨all, rfl⟩ | ⟨_, A, b, _, _, rfl⟩⟩
  · rw [length_places_kept.2 all] at kept
    exact kept
  · exact kept

/-- What is left of constraints has a layout of its own. -/
theorem exists_blocks_reduced (plain : constraints.cones.IsPlain)
    (layout : constraints.cones.blocks = .ok blocks)
    (tiling : Block.checkTiling blocks constraints.rows = .ok ())
    (dropped : constraints.dropFree = .ok (reduced, keep)) : ∃ others,
      reduced.cones.blocks = .ok others ∧ Block.checkTiling others reduced.rows = .ok () := by
  have cones : reduced.cones = constraints.cones.erase .free := by
    rcases dropFree_ok layout dropped with ⟨_, ⟨_, rfl⟩ | ⟨_, A, b, _, _, rfl⟩⟩
    · rfl
    · rfl
  obtain ⟨others, read⟩ := ConeTable.exists_blocks_erase layout
  rw [cones]
  exact ⟨others, read, ConeTable.tiling_erase plain layout tiling read
    (rows_of_dropFree plain layout tiling dropped)⟩

end Constraints

namespace Clarabel

open Packed

variable {order : List Nat} {block : Block} {blocks : List Block} {rows : Nat}

theorem exists_placeBlock (exact : (block.span order.length).size = triangle block.dim.toNat) :
    ∃ placed, placeBlock order block = (.ok placed : Outcome ℝ (List Nat)) := by
  unfold placeBlock
  dsimp only
  split
  · exact ⟨_, rfl⟩
  · rw [if_neg]
    · exact ⟨_, rfl⟩
    · rw [not_not, List.length_map, RowOrder.length_upper, exact]

theorem placeBlock_of_ne (plural : triangle block.dim.toNat ≠ 1)
    (different : (block.span order.length).size ≠ triangle block.dim.toNat) :
    placeBlock order block = (.error (.invalid .value) : Outcome ℝ (List Nat)) := by
  have length : ((RowOrder.upper block.dim.toNat).map (block.start.toNat + ·)).length =
      triangle block.dim.toNat := by
    rw [List.length_map, RowOrder.length_upper]
  unfold placeBlock
  dsimp only
  split
  · next row single =>
    rw [single] at length
    exact absurd length.symm plural
  · rw [if_pos]
    · rfl
    · rw [length]
      exact different.symm

/-- The blocks are placed one after another up to the first one that has been rounded. -/
theorem foldlM_placeBlock (single : ∀ block ∈ blocks, triangle block.dim.toNat = 1 →
      (block.span rows).size = 1) (size : order.length = rows) :
    ((∀ block ∈ blocks, (block.span rows).size = triangle block.dim.toNat) →
      ∃ placed, blocks.foldlM placeBlock order = (.ok placed : Outcome ℝ (List Nat))) ∧
    ((∃ block ∈ blocks, (block.span rows).size ≠ triangle block.dim.toNat) →
      blocks.foldlM placeBlock order = (.error (.invalid .value) : Outcome ℝ (List Nat))) := by
  induction blocks generalizing order with
  | nil => exact ⟨fun _ => ⟨order, rfl⟩, fun ⟨_, listed, _⟩ => absurd listed List.not_mem_nil⟩
  | cons block rest ih =>
    subst size
    obtain ⟨first, others⟩ := List.forall_mem_cons.1 single
    by_cases exact : (block.span order.length).size = triangle block.dim.toNat
    · obtain ⟨next, placed⟩ := exists_placeBlock exact
      rw [List.foldlM_cons, placed]
      obtain ⟨whole, rounded⟩ := ih others (length_placeBlock placed)
      refine ⟨fun all => whole (List.forall_mem_cons.1 all).2, ?_⟩
      rintro ⟨other, listed, different⟩
      rcases List.mem_cons.1 listed with rfl | later
      · exact absurd exact different
      · exact rounded ⟨other, later, different⟩
    · refine ⟨fun all => absurd (List.forall_mem_cons.1 all).1 exact, fun _ => ?_⟩
      rw [List.foldlM_cons, placeBlock_of_ne _ exact]
      · rfl
      · -- A triangle of one row would fit any span, but its span has one row, too.
        intro unit
        exact exact ((first unit).trans unit.symm)

section

variable {table : ConeTable} (plain : table.IsPlain) (read : table.blocks = .ok blocks)
  (tiling : Block.checkTiling blocks rows = .ok ())

include tiling

theorem packedSize_of_tiling (listed : block ∈ blocks) (kind : block.kind = .cone .semidefinite) :
    packedSize block.dim = .ok (block.span rows).size := by
  have accepted := Block.checkTiling_ok.1 tiling
  obtain ⟨nonneg, order, inside⟩ := (Block.bounds_of_checkFrom accepted).2 block listed
  have counted := Block.rowCount_of_checkFrom accepted block listed
  rw [kind, ← Block.span_size nonneg order inside] at counted
  exact packedSize_of_rowCount counted

/-- Rows that are tiled can be ordered just if the size of no triangle is rounded. -/
theorem rowOrder_of_tiling :
    ((∀ block ∈ blocks, block.kind = .cone .semidefinite →
        packedSize block.dim = .ok (triangle block.dim.toNat)) →
      ∃ order, rowOrder blocks rows = (.ok order : Outcome ℝ (List Nat))) ∧
    ((∃ block ∈ blocks, block.kind = .cone .semidefinite ∧
        packedSize block.dim ≠ .ok (triangle block.dim.toNat)) →
      rowOrder blocks rows = (.error (.invalid .value) : Outcome ℝ (List Nat))) := by
  let triangles := blocks.filter (·.kind = .cone .semidefinite)
  have listed {block : Block} : block ∈ triangles ↔
      block ∈ blocks ∧ block.kind = .cone .semidefinite := by
    rw [List.mem_filter, decide_eq_true_eq]
  have single : ∀ block ∈ triangles, triangle block.dim.toNat = 1 → (block.span rows).size = 1 := by
    intro block member unit
    have side := eq_one_of_triangle unit
    have counted := packedSize_of_tiling tiling (listed.1 member).1 (listed.1 member).2
    have one : block.dim = 1 := by omega
    rw [one, packedSize_one] at counted
    exact (Except.ok.inj counted).symm
  have length : (List.range rows).length = rows := List.length_range
  obtain ⟨whole, rounded⟩ := foldlM_placeBlock single length
  refine ⟨fun exact => whole ?_, ?_⟩
  · intro block member
    obtain ⟨member, kind⟩ := listed.1 member
    have counted := packedSize_of_tiling tiling member kind
    rw [exact block member kind] at counted
    exact (Except.ok.inj counted).symm
  · rintro ⟨block, member, kind, different⟩
    refine rounded ⟨block, listed.2 ⟨member, kind⟩, fun same => different ?_⟩
    rw [packedSize_of_tiling tiling member kind, same]

include plain read

theorem exists_rowOrder (exact : table.product.IsExact) : ∃ order,
    rowOrder blocks rows = (.ok order : Outcome ℝ (List Nat)) ∧ ∀ row ∈ order, row < rows := by
  have laid := ConeTable.blocks_ok plain read
  have covers : ConeProduct.rows (ConeProduct.nonempty table.product) = rows := by
    have stop := Block.checkFrom_of_layOut_sum (ConeProduct.dims_nonneg _) laid
    rw [Block.checkTiling_ok.1 tiling, ConeProduct.sum_rows_of_exact exact.nonempty] at stop
    have same := Except.ok.inj stop
    omega
  obtain ⟨order, placed⟩ := (rowOrder_of_tiling tiling).1 fun block listed kind => by
    obtain ⟨⟨cone, dim⟩, stored, same⟩ := List.mem_map.1 (Block.kind_mem_of_layOut laid listed)
    obtain ⟨kind', side⟩ := Prod.mk.inj same
    obtain rfl := Kind.cone.inj (kind'.trans kind)
    rw [← side, Int.toNat_natCast]
    exact exact.nonempty dim stored
  refine ⟨order, placed, ?_⟩
  have positive : ∀ block ∈ ConeProduct.nonempty table.product, 0 < block.2 :=
    fun block listed => of_decide_eq_true (List.mem_filter.1 listed).2
  have whole : rowOrder blocks (ConeProduct.rows (ConeProduct.nonempty table.product)) =
      (.ok order : Outcome ℝ (List Nat)) := by
    rw [covers]
    exact placed
  obtain ⟨length, arranged⟩ := rowOrder_ok positive laid whole
  intro row listed
  obtain ⟨k, bound, rfl⟩ := List.mem_iff_getElem.1 listed
  have inside : k < ConeProduct.rows (ConeProduct.nonempty table.product) := length ▸ bound
  have place := arranged k inside
  rw [List.getElem?_eq_getElem bound] at place
  rw [Option.some.inj place, ← covers]
  exact ConeProduct.arranged_lt inside

theorem rowOrder_of_rounded {dim : Nat} (listed : (.semidefinite, dim) ∈ table.product)
    (rounded : packedSize dim ≠ .ok (triangle dim)) :
    rowOrder blocks rows = (.error (.invalid .value) : Outcome ℝ (List Nat)) := by
  have laid := ConeTable.blocks_ok plain read
  have positive : 0 < dim := by
    refine Nat.pos_of_ne_zero fun none => rounded ?_
    subst none
    exact packedSize_of_rowCount (rowCount_triangle (d := 0) (by decide))
  have stored : (Kind.cone .semidefinite, (dim : Int)) ∈
      (ConeProduct.nonempty table.product).dims :=
    List.mem_map_of_mem (List.mem_filter.2 ⟨listed, by simpa using positive⟩)
  rw [← Block.kinds_of_layOut laid] at stored
  obtain ⟨block, member, same⟩ := List.mem_map.1 stored
  obtain ⟨kind, side⟩ := Prod.mk.inj same
  refine (rowOrder_of_tiling tiling).2 ⟨block, member, kind, ?_⟩
  rw [side, Int.toNat_natCast]
  exact rounded

end

end Clarabel

end ConicDerivative
