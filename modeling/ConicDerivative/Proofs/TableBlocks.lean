import ConicDerivative.Proofs.OptimalPairs
import ConicDerivative.Proofs.Tiling

/-!
The blocks of a table of whole numbers. They are the cones of its product, one after another, except
for cones of dimension zero. Up to the first semidefinite cone every block starts where the rows of
the cones before it end.
-/

namespace ConicDerivative

open Outcomes

theorem Binary64.round_of_lt {n : Nat} (small : n < 2 ^ 53) : round n = some n := by
  have narrow : width n - 53 = 0 := by
    unfold width
    split_ifs with zero
    · rfl
    · have := (Nat.log2_lt zero).2 small
      omega
  have whole : roundShift n 0 = n := by
    simp [roundShift, Nat.mod_one]
  have power (k : Nat) (large : 53 ≤ k) : n < Nat.pow 2 k :=
    small.trans_le (Nat.pow_le_pow_right (by norm_num) large)
  have same : n * Nat.pow 2 0 = n := Nat.mul_one n
  unfold round
  simp only [narrow, whole, same]
  refine if_pos ?_
  apply power
  norm_num

theorem packedSize_one : packedSize 1 = .ok 1 := by
  have value : ((1 : Int) * (1 + 1) / 2).toNat = 1 := rfl
  have single : Binary64.round 1 = some 1 := Binary64.round_of_lt (by norm_num)
  unfold packedSize
  rw [value, single]

def ConeProduct.dims (K : ConeProduct) : List (Kind × Int) :=
  K.map fun (cone, dim) => (.cone cone, (dim : Int))

namespace Block

variable {kind : Kind} {dim offset : Int} {rest : List (Kind × Int)} {blocks : List Block}

theorem layOut_cons_ok : layOut ((kind, dim) :: rest) offset = .ok blocks ↔
    ∃ size later, kind.rowCount dim = .ok size ∧ layOut rest (offset + size) = .ok later ∧
      blocks = ⟨kind, dim, offset, offset + size⟩ :: later := by
  rw [layOut, bind_eq_ok]
  constructor
  · rintro ⟨size, counted, rest⟩
    obtain ⟨later, laid, joined⟩ := bind_eq_ok.1 rest
    exact ⟨size, later, counted, laid, (pure_eq_ok.1 joined).symm⟩
  · rintro ⟨size, later, counted, laid, rfl⟩
    exact ⟨size, counted, bind_eq_ok.2 ⟨later, laid, rfl⟩⟩

theorem kinds_of_layOut {dims : List (Kind × Int)} (success : layOut dims offset = .ok blocks) :
    blocks.map (fun block => (block.kind, block.dim)) = dims := by
  induction dims generalizing offset blocks with
  | nil =>
    cases success
    rfl
  | cons pair dims ih =>
    obtain ⟨size, later, _, laid, rfl⟩ := layOut_cons_ok.1 success
    rw [List.map_cons, ih laid]

theorem kind_mem_of_layOut {dims : List (Kind × Int)} (success : layOut dims offset = .ok blocks)
    {block : Block} (listed : block ∈ blocks) : (block.kind, block.dim) ∈ dims := by
  rw [← kinds_of_layOut success]
  exact List.mem_map_of_mem listed

theorem rowCount_nonneg {size : Int} (nonneg : 0 ≤ dim) (counted : kind.rowCount dim = .ok size) :
    0 ≤ size := by
  unfold Kind.rowCount at counted
  split at counted
  · cases rows : packedSize dim with
    | error cause =>
      rw [rows] at counted
      cases counted
    | ok value =>
      rw [rows] at counted
      cases counted
      exact Int.natCast_nonneg value
  · cases counted
    exact nonneg
  · cases counted

theorem checkFrom_of_layOut {dims : List (Kind × Int)} (nonneg : ∀ pair ∈ dims, 0 ≤ pair.2)
    (success : layOut dims offset = .ok blocks) :
    checkFrom blocks offset = .ok (blocks.foldl (fun rows block => rows + block.size) offset) := by
  induction dims generalizing offset blocks with
  | nil =>
    cases success
    rfl
  | cons pair dims ih =>
    obtain ⟨size, later, counted, laid, rfl⟩ := layOut_cons_ok.1 success
    have first := rowCount_nonneg (nonneg _ List.mem_cons_self) counted
    have rows : (offset + size) - offset = size := add_sub_cancel_left offset size
    rw [List.foldl_cons, checkFrom_cons_ok, Block.size, rows]
    exact ⟨rfl, le_add_of_nonneg_right first, counted,
      ih (fun pair listed => nonneg pair (List.mem_cons_of_mem _ listed)) laid⟩

def Flat (K : ConeProduct) : Prop := ∀ block ∈ K, block.1 ≠ .semidefinite

theorem rowCount_of_flat {cone : Cone} (flat : cone ≠ .semidefinite) (dim : Nat) :
    (Kind.cone cone).rowCount dim = .ok (cone.rows dim : Int) := by
  cases cone with
  | semidefinite => exact absurd rfl flat
  | zero | free | nonnegative | secondOrder => rfl

theorem exists_layOut_of_flat {K : ConeProduct} (flat : Flat K) (offset : Int) :
    ∃ blocks, layOut K.dims offset = .ok blocks := by
  induction K generalizing offset with
  | nil => exact ⟨[], rfl⟩
  | cons block K ih =>
    obtain ⟨cone, dim⟩ := block
    have size := rowCount_of_flat (flat _ List.mem_cons_self) dim
    obtain ⟨later, laid⟩ := ih (fun block listed => flat block (List.mem_cons_of_mem _ listed))
      (offset + cone.rows dim)
    exact ⟨_, layOut_cons_ok.2 ⟨_, later, size, laid, rfl⟩⟩

theorem layOut_flat {K : ConeProduct} (flat : Flat K)
    (success : layOut (K.dims ++ rest) offset = .ok blocks) :
    ∃ earlier later, blocks = earlier ++ later ∧ layOut K.dims offset = .ok earlier ∧
      layOut rest (offset + ConeProduct.rows K) = .ok later ∧
      ∀ row, (∃ block ∈ earlier, block.start ≤ row ∧ row < block.stop) ↔
        offset ≤ row ∧ row < offset + ConeProduct.rows K := by
  induction K generalizing offset blocks with
  | nil =>
    have same : offset + (ConeProduct.rows [] : Int) = offset := Int.add_zero offset
    rw [same]
    refine ⟨[], blocks, rfl, rfl, success, ?_⟩
    intro row
    simp
  | cons block K ih =>
    obtain ⟨cone, dim⟩ := block
    obtain ⟨size, tail, counted, laid, rfl⟩ := layOut_cons_ok.1 success
    have exact := rowCount_of_flat (flat _ List.mem_cons_self) dim
    obtain rfl : size = cone.rows dim := Except.ok.inj (counted.symm.trans exact)
    obtain ⟨earlier, later, rfl, laid, laid', covered⟩ :=
      ih (fun block listed => flat block (List.mem_cons_of_mem _ listed)) laid
    rw [ConeProduct.rows_cons]
    refine ⟨_ :: earlier, later, rfl, layOut_cons_ok.2 ⟨_, earlier, counted, laid, rfl⟩, ?_, ?_⟩
    · rw [Nat.cast_add, ← add_assoc]
      exact laid'
    · intro row
      rw [List.exists_mem_cons_iff, covered]
      dsimp only
      push_cast
      omega

theorem checkFrom_of_flat {K : ConeProduct} (flat : Flat K)
    (success : layOut K.dims offset = .ok blocks) :
    checkFrom blocks offset = .ok (offset + K.rows) := by
  induction K generalizing offset blocks with
  | nil =>
    cases success
    exact congrArg Except.ok (Int.add_zero offset).symm
  | cons block K ih =>
    obtain ⟨cone, dim⟩ := block
    obtain ⟨size, later, counted, laid, rfl⟩ := layOut_cons_ok.1 success
    have exact := rowCount_of_flat (flat _ List.mem_cons_self) dim
    obtain rfl : size = cone.rows dim := Except.ok.inj (counted.symm.trans exact)
    have rest := ih (fun block listed => flat block (List.mem_cons_of_mem _ listed)) laid
    rw [add_assoc, ← Nat.cast_add, ← ConeProduct.rows_cons] at rest
    rw [checkFrom_cons_ok, Block.size, add_sub_cancel_left]
    exact ⟨rfl, le_add_of_nonneg_right (Int.natCast_nonneg _), counted, rest⟩

end Block

namespace ConeTable

open Block

variable {table : ConeTable} {cone : Cone} {extent : Extent} {blocks : List Block}

/-- The dimensions in an entry; none of them is negative. -/
structure Reads (extent : Extent) (values : List Int) : Prop where
  items : extent.items.mapM Extent.toInteger = .ok values
  nonneg : ∀ dim ∈ values, 0 ≤ dim

theorem exists_reads {parts : List (Kind × Int)} (success : dimensions cone extent = .ok parts) :
    ∃ values, Reads extent values ∧ parts = (values.filter (0 < ·)).map (.cone cone, ·) := by
  obtain ⟨values, mapped, kept⟩ := bind_eq_ok.1 success
  have each (item : Extent) (value : Int) (read : (do
      let dim ← item.toInteger
      if dim < 0 then throw (.negativeDimension cone dim)
      return dim : Except LayoutError Int) = .ok value) :
      item.toInteger = .ok value ∧ 0 ≤ value := by
    obtain ⟨dim, whole, rest⟩ := bind_eq_ok.1 read
    split_ifs at rest with negative
    · cases rest
    · cases pure_eq_ok.1 rest
      exact ⟨whole, not_lt.1 negative⟩
  refine ⟨values, ⟨?_, ?_⟩, (pure_eq_ok.1 kept).symm⟩
  · exact mapM_eq_ok.2 ((mapM_eq_ok.1 mapped).imp fun item value read => (each item value read).1)
  · intro value listed
    obtain ⟨item, read⟩ := exists_of_mem_mapM mapped listed
    exact (each item value read).2

theorem Reads.eq_of_integers {values dims : List Int} (reads : Reads extent values)
    (items : extent.items = dims.map .integer) : values = dims := by
  have read : (dims.map Extent.integer).mapM Extent.toInteger = .ok dims := by
    rw [mapM_eq_ok, List.forall₂_map_left_iff, List.forall₂_same]
    intro dim _
    rfl
  rw [← items] at read
  exact Except.ok.inj (reads.items.symm.trans read)

theorem pos_of_dimensions {dims : List (Kind × Int)} (success : dimensions cone extent = .ok dims) :
    ∀ pair ∈ dims, 0 < pair.2 := by
  obtain ⟨values, _, rfl⟩ := exists_reads success
  intro pair listed
  obtain ⟨dim, filtered, rfl⟩ := List.mem_map.1 listed
  exact of_decide_eq_true (List.mem_filter.1 filtered).2

theorem exists_layOut (success : table.blocks = .ok blocks) :
    ∃ dims, layOut dims 0 = .ok blocks ∧ ∀ pair ∈ dims, 0 < pair.2 := by
  obtain ⟨_, _, rest⟩ := bind_eq_ok.1 success
  obtain ⟨dims, mapped, laid⟩ := bind_eq_ok.1 rest
  refine ⟨dims.flatten, laid, ?_⟩
  intro pair listed
  obtain ⟨part, member, inside⟩ := List.mem_flatten.1 listed
  obtain ⟨cone, read⟩ := exists_of_mem_mapM mapped member
  cases present : table.get? cone with
  | none =>
    rw [present] at read
    rw [← pure_eq_ok.1 read] at inside
    cases inside
  | some extent =>
    rw [present] at read
    exact pos_of_dimensions read pair inside

theorem dim_pos_of_blocks (success : table.blocks = .ok blocks) {block : Block}
    (listed : block ∈ blocks) : 0 < block.dim := by
  obtain ⟨dims, laid, positive⟩ := exists_layOut success
  exact positive _ (kind_mem_of_layOut laid listed)

theorem tiling_of_blocks (success : table.blocks = .ok blocks) : checkTiling blocks
    (blocks.foldl (fun rows block => rows + block.size) (0 : Int)).toNat = .ok () := by
  obtain ⟨dims, laid, positive⟩ := exists_layOut success
  have accepted := checkFrom_of_layOut (fun pair listed => (positive pair listed).le) laid
  obtain ⟨nonneg, _⟩ := bounds_of_checkFrom accepted
  rw [checkTiling_ok, accepted, Int.toNat_of_nonneg nonneg]

theorem dims_of_sizes {dims : List Int} (nonneg : ∀ dim ∈ dims, 0 ≤ dim) :
    (dims.filter (0 < ·)).map (Kind.cone cone, ·) =
      (ConeProduct.nonempty (dims.map fun dim => (cone, dim.toNat))).dims := by
  induction dims with
  | nil => rfl
  | cons dim dims ih =>
    have rest := ih fun other listed => nonneg other (List.mem_cons_of_mem _ listed)
    have value : (dim.toNat : Int) = dim := Int.toNat_of_nonneg (nonneg dim List.mem_cons_self)
    rw [List.map_cons]
    by_cases positive : 0 < dim
    · rw [List.filter_cons_of_pos (by simpa using positive), List.map_cons, rest,
        ConeProduct.nonempty_cons (by omega)]
      exact congrArg (fun dim : Int => (Kind.cone cone, dim) :: _) value.symm
    · have none : dim.toNat = 0 := by omega
      rw [List.filter_cons_of_neg (by simpa using positive), rest, none,
        ConeProduct.nonempty_cons_zero]

theorem dimensions_of_sizes (dims : List Nat)
    (items : extent.items = dims.map fun dim : Nat => .integer dim) :
    dimensions cone extent = .ok (ConeProduct.nonempty (dims.map (cone, ·))).dims := by
  unfold dimensions
  rw [items]
  refine bind_eq_ok.2 ⟨dims.map Nat.cast, mapM_eq_ok.2 ?_, ?_⟩
  · rw [List.forall₂_map_left_iff, List.forall₂_map_right_iff, List.forall₂_same]
    intro dim _
    rfl
  · rw [pure_eq_ok, dims_of_sizes, List.map_map]
    · rfl
    · simp

theorem dimensions_ok {dims : List (Kind × Int)}
    (present : table.get? cone = some extent) (plain : extent.IsPlain cone)
    (success : dimensions cone extent = .ok dims) :
    dims = (ConeProduct.nonempty (table.part cone)).dims := by
  obtain ⟨values, read, cones⟩ : ∃ values : List Int, extent.items = values.map .integer ∧
      table.part cone = values.map fun dim => (cone, dim.toNat) := by
    unfold Extent.IsPlain at plain
    split_ifs at plain with listed
    · obtain ⟨values, rfl⟩ := plain
      exact ⟨values, rfl, part_of_list present⟩
    · obtain ⟨value, rfl⟩ := plain
      exact ⟨[value], rfl, part_of_integer present⟩
  obtain ⟨result, reads, rfl⟩ := exists_reads success
  obtain rfl := reads.eq_of_integers read
  rw [cones]
  exact dims_of_sizes reads.nonneg

theorem flatten_of_forall₂ {β γ : Type} {f : β → List γ} {items : List β} {results : List (List γ)}
    (same : List.Forall₂ (fun item result => result = f item) items results) :
    results.flatten = items.flatMap f := by
  induction same with
  | nil => rfl
  | cons first _ ih => rw [List.flatten_cons, List.flatMap_cons, first, ih]

theorem dims_nonempty_product (table : ConeTable) : (ConeProduct.nonempty table.product).dims =
    Cone.solverOrder.flatMap fun cone => (ConeProduct.nonempty (table.part cone)).dims := by
  rw [product, ConeProduct.nonempty, List.filter_flatMap, ConeProduct.dims, List.map_flatMap]
  rfl

theorem blocks_ok (plain : table.IsPlain) (success : table.blocks = .ok blocks) :
    layOut (ConeProduct.nonempty table.product).dims 0 = .ok blocks := by
  obtain ⟨_, _, rest⟩ := bind_eq_ok.1 success
  obtain ⟨dims, mapped, laid⟩ := bind_eq_ok.1 rest
  have parts : dims.flatten = Cone.solverOrder.flatMap fun cone =>
      (ConeProduct.nonempty (table.part cone)).dims := by
    apply flatten_of_forall₂
    refine (mapM_eq_ok.1 mapped).imp ?_
    intro cone result read
    cases present : table.get? cone with
    | none =>
      rw [present] at read
      rw [part_of_none present, ← pure_eq_ok.1 read]
      rfl
    | some extent =>
      rw [present] at read
      exact dimensions_ok present (plain cone extent present) read
  rw [dims_nonempty_product, ← parts]
  exact laid

/-- A table can be read if its keys are cones and the sizes of each cone can be read. -/
theorem blocks_of_layOut (keys : ∀ entry ∈ table, ∃ cone, entry.1 = .cone cone)
    (read : ∀ cone extent, table.get? cone = some extent →
      dimensions cone extent = .ok (ConeProduct.nonempty (table.part cone)).dims)
    (laid : layOut (ConeProduct.nonempty table.product).dims 0 = .ok blocks) :
    table.blocks = .ok blocks := by
  have known : table.filter (·.1.cone?.isNone) = [] := by
    rw [List.filter_eq_nil_iff]
    intro entry listed
    obtain ⟨cone, key⟩ := keys entry listed
    simp [key, Kind.cone?]
  have checked : table.checkKeys = .ok () := by
    unfold checkKeys
    rw [known]
    rfl
  refine bind_eq_ok.2 ⟨(), checked, bind_eq_ok.2 ⟨Cone.solverOrder.map fun cone =>
    (ConeProduct.nonempty (table.part cone)).dims, mapM_eq_ok.2 ?_, ?_⟩⟩
  · rw [List.forall₂_map_right_iff, List.forall₂_same]
    intro cone _
    cases present : table.get? cone with
    | none =>
      rw [part_of_none present]
      rfl
    | some extent => exact read cone extent present
  · rw [dims_nonempty_product] at laid
    exact laid

end ConeTable

end ConicDerivative
