import ConicDerivative.Proofs.TableBlocks
import ConicDerivative.Solve

/-!
The rows of a product rearranged for a solver that stores upper triangles. The rearrangement is
known place by place, block after block; it is one to one, and takes the vectors of a product with
upper triangles to those of the same product with lower ones.
-/

namespace ConicDerivative

open Scalar Outcomes

namespace RowOrder

open Packed

variable {d : Nat}

theorem length_columns (g : Nat → Nat → Nat) (d : Nat) :
    ((List.range d).flatMap fun j => (List.range (j + 1)).map (g j)).length = triangle d := by
  induction d with
  | zero => rfl
  | succ d ih =>
    rw [List.range_succ, List.flatMap_append, List.length_append, ih, List.flatMap_singleton,
      List.length_map, List.length_range, triangle, Nat.add_comm]

theorem getElem?_columns (g : Nat → Nat → Nat) {i j : Nat} (order : i ≤ j) (bound : j < d) :
    ((List.range d).flatMap fun j => (List.range (j + 1)).map (g j))[triangle j + i]? =
      some (g j i) := by
  induction d with
  | zero => omega
  | succ d ih =>
    rw [List.range_succ, List.flatMap_append]
    rcases Nat.lt_or_eq_of_le (Nat.le_of_lt_succ bound) with earlier | last
    · have inside : triangle j + i < triangle d := Packing.triangle_add_lt order earlier
      rw [List.getElem?_append_left (by rw [length_columns]; exact inside)]
      exact ih earlier
    · subst last
      rw [List.getElem?_append_right (by rw [length_columns]; omega), length_columns,
        Nat.add_sub_cancel_left, List.flatMap_singleton, List.getElem?_map,
        List.getElem?_range (by omega), Option.map_some]

theorem length_upper (d : Nat) : (upper d).length = triangle d :=
  length_columns (fun j i => position d i j) d

theorem getElem?_upper {i j : Nat} (order : i ≤ j) (bound : j < d) :
    (upper d)[triangle j + i]? = some (position d i j) :=
  getElem?_columns (fun j i => position d i j) order bound

theorem exists_column {k : Nat} (bound : k < triangle d) :
    ∃ i j, i ≤ j ∧ j < d ∧ k = triangle j + i := by
  induction d with
  | zero => exact absurd bound (Nat.not_lt_zero k)
  | succ d ih =>
    by_cases earlier : k < triangle d
    · obtain ⟨i, j, order, inside, same⟩ := ih earlier
      exact ⟨i, j, order, by omega, same⟩
    · rw [triangle] at bound
      exact ⟨k - triangle d, d, by omega, by omega, by omega⟩

end RowOrder

namespace Cone

open Packed

def arranged (cone : Cone) (dim k : Nat) : Nat :=
  match cone with
  | semidefinite => (RowOrder.upper dim).getD k 0
  | _ => k

variable {cone : Cone} {dim : Nat}

theorem arranged_column {d i j : Nat} (order : i ≤ j) (bound : j < d) :
    semidefinite.arranged d (triangle j + i) = position d i j := by
  rw [arranged, List.getD_eq_getElem?_getD, RowOrder.getElem?_upper order bound, Option.getD_some]

theorem arranged_lt {k : Nat} (bound : k < cone.rows dim) : cone.arranged dim k < cone.rows dim := by
  cases cone with
  | semidefinite =>
    obtain ⟨i, j, order, inside, rfl⟩ := RowOrder.exists_column bound
    rw [arranged_column order inside]
    exact position_lt order inside
  | zero | free | nonnegative | secondOrder => exact bound

theorem arranged_injective {k l : Nat} (bound : k < cone.rows dim) (bound' : l < cone.rows dim)
    (same : cone.arranged dim k = cone.arranged dim l) : k = l := by
  cases cone with
  | semidefinite =>
    obtain ⟨i, j, order, inside, rfl⟩ := RowOrder.exists_column bound
    obtain ⟨i', j', order', inside', rfl⟩ := RowOrder.exists_column bound'
    rw [arranged_column order inside, arranged_column order' inside'] at same
    have cells := congrArg (cell dim) same
    rw [cell_position order inside, cell_position order' inside', Prod.mk.injEq] at cells
    rw [cells.1, cells.2]
  | zero | free | nonnegative | secondOrder => exact same

theorem contains_of_arranged {f g : Nat → ℝ} (inside : cone.Contains .upper dim f)
    (same : ∀ k < cone.rows dim, f k = g (cone.arranged dim k)) : cone.Contains .lower dim g := by
  cases cone with
  | semidefinite =>
    have matrices : Packing.upper.matrix dim f = Packing.lower.matrix dim g := by
      apply Packing.matrix_congr
      intro i j order bound
      have place := same _ (Packing.triangle_add_lt order bound)
      rw [arranged_column order bound] at place
      exact place
    rw [Contains, ← matrices]
    exact inside
  | zero | free | nonnegative | secondOrder => exact (inside.repack (by decide)).of_eq same

end Cone

namespace ConeProduct

def arranged : ConeProduct → Nat → Nat
  | [], k => k
  | (cone, dim) :: rest, k =>
    if k < cone.rows dim then cone.arranged dim k
    else cone.rows dim + arranged rest (k - cone.rows dim)

variable {K : ConeProduct}

theorem arranged_of_lt {cone : Cone} {dim k : Nat} (bound : k < cone.rows dim) :
    arranged ((cone, dim) :: K) k = cone.arranged dim k := if_pos bound

theorem arranged_add (cone : Cone) (dim k : Nat) :
    arranged ((cone, dim) :: K) (cone.rows dim + k) = cone.rows dim + arranged K k := by
  rw [arranged, if_neg (by omega), Nat.add_sub_cancel_left]

theorem arranged_lt {k : Nat} (bound : k < rows K) : arranged K k < rows K := by
  induction K generalizing k with
  | nil => exact bound
  | cons block K ih =>
    obtain ⟨cone, dim⟩ := block
    rw [rows_cons] at bound ⊢
    by_cases first : k < cone.rows dim
    · rw [arranged_of_lt first]
      have := cone.arranged_lt first
      omega
    · obtain ⟨l, rfl⟩ := Nat.exists_eq_add_of_le (not_lt.1 first)
      rw [arranged_add]
      have := ih (k := l) (by omega)
      omega

theorem arranged_injective {k l : Nat} (bound : k < rows K) (bound' : l < rows K)
    (same : arranged K k = arranged K l) : k = l := by
  induction K generalizing k l with
  | nil => exact same
  | cons block K ih =>
    obtain ⟨cone, dim⟩ := block
    rw [rows_cons] at bound bound'
    by_cases first : k < cone.rows dim
    · have image := cone.arranged_lt first
      by_cases second : l < cone.rows dim
      · rw [arranged_of_lt first, arranged_of_lt second] at same
        exact cone.arranged_injective first second same
      · obtain ⟨l, rfl⟩ := Nat.exists_eq_add_of_le (not_lt.1 second)
        rw [arranged_of_lt first, arranged_add] at same
        omega
    · obtain ⟨k, rfl⟩ := Nat.exists_eq_add_of_le (not_lt.1 first)
      by_cases second : l < cone.rows dim
      · have image := cone.arranged_lt second
        rw [arranged_of_lt second, arranged_add] at same
        omega
      · obtain ⟨l, rfl⟩ := Nat.exists_eq_add_of_le (not_lt.1 second)
        rw [arranged_add, arranged_add] at same
        rw [ih (by omega) (by omega) (Nat.add_left_cancel same)]

/-- A vector read at the places of the rearranged product is in it if the vector is in the product. -/
theorem contains_of_arranged {f g : Nat → ℝ} (inside : Contains .upper K f)
    (same : ∀ k < rows K, f k = g (arranged K k)) : Contains .lower K g := by
  induction K generalizing f g with
  | nil => exact trivial
  | cons block K ih =>
    obtain ⟨cone, dim⟩ := block
    rw [rows_cons] at same
    obtain ⟨first, rest⟩ := inside
    refine ⟨cone.contains_of_arranged first ?_, ih rest ?_⟩
    · intro k bound
      rw [same k (by omega), arranged_of_lt bound]
    · intro k bound
      rw [same _ (by omega), arranged_add]

end ConeProduct

namespace Clarabel

open Packed

variable {α : Type} {order order' : List Nat} {offset : Nat}

theorem eq_one_of_triangle {d : Nat} (single : triangle d = 1) : d = 1 := by
  cases d with
  | zero => cases single
  | succ d =>
    rw [triangle] at single
    omega

/-- A block that is placed takes the rows of its triangle, or all rows that are left. -/
theorem placeBlock_ok {d size : Nat} (bounded : offset + triangle d ≤ order.length)
    (counted : packedSize d = .ok size) (success : placeBlock order
      ⟨.cone .semidefinite, d, offset, offset + size⟩ = (.ok order' : Outcome α (List Nat))) :
    (size = triangle d ∨ order.length = offset + triangle d) ∧
      order' = order.take offset ++ (RowOrder.upper d).map (offset + ·) ++
        order.drop (offset + triangle d) := by
  let span : Vec.Span order.length := .between order.length offset (offset + size)
  let rows := (RowOrder.upper d).map (offset + ·)
  have length : rows.length = triangle d := by rw [List.length_map, RowOrder.length_upper]
  have start : span.start = offset := by
    simp only [span, Vec.Span.between, Vec.Span.edge]
    split_ifs <;> omega
  have stop : span.stop = max offset (min order.length (offset + size)) := by
    simp only [span, Vec.Span.between, Vec.Span.edge]
    split_ifs <;> omega
  have extent : span.size = span.stop - span.start := rfl
  have whole : rows.length = span.size ∧
      order' = order.take span.start ++ rows ++ order.drop span.stop := by
    unfold placeBlock at success
    dsimp only at success
    split at success
    · next row single =>
      have single : rows = [row] := single
      rw [single] at length
      obtain rfl := eq_one_of_triangle length.symm
      rw [Nat.cast_one, packedSize_one] at counted
      obtain rfl : 1 = size := Except.ok.inj counted
      have unit : triangle 1 = 1 := rfl
      have one : span.size = 1 := by omega
      have joined : order.take span.start ++ List.replicate span.size row ++
          order.drop span.stop = order' := Except.ok.inj success
      rw [one] at joined
      rw [single, one]
      exact ⟨rfl, joined.symm⟩
    · split_ifs at success with different
      · cases success
      · exact ⟨not_not.1 different, (Except.ok.inj success).symm⟩
  obtain ⟨fits, joined⟩ := whole
  refine ⟨by omega, ?_⟩
  have last : span.stop = offset + triangle d := by omega
  rw [joined, start, last]

theorem rows_pos {cone : Cone} {dim : Nat} (positive : 0 < dim) : 0 < cone.rows dim := by
  cases cone with
  | semidefinite =>
    obtain ⟨d, rfl⟩ := Nat.exists_eq_add_one.2 positive
    exact Nat.add_pos_left (Nat.succ_pos d) _
  | zero | free | nonnegative | secondOrder => exact positive

theorem getElem?_placed {d : Nat} (bounded : offset + triangle d ≤ order.length)
    (joined : order' = order.take offset ++ (RowOrder.upper d).map (offset + ·) ++
      order.drop (offset + triangle d)) :
    order'.length = order.length ∧
      (∀ k < offset, order'[k]? = order[k]?) ∧
      (∀ k < triangle d, order'[offset + k]? = some (offset + Cone.semidefinite.arranged d k)) ∧
      ∀ k, order'[offset + triangle d + k]? = order[offset + triangle d + k]? := by
  have length := RowOrder.length_upper d
  have first : (order.take offset).length = offset := by
    rw [List.length_take]
    omega
  have middle : (order.take offset ++ (RowOrder.upper d).map (offset + ·)).length =
      offset + triangle d := by
    rw [List.length_append, first, List.length_map, length]
  refine ⟨?_, ?_, ?_, ?_⟩
  · rw [joined, List.length_append, middle, List.length_drop]
    omega
  · intro k bound
    rw [joined, List.getElem?_append_left (by omega), List.getElem?_append_left (by omega),
      List.getElem?_take_of_lt bound]
  · intro k bound
    rw [joined, List.getElem?_append_left (by omega), List.getElem?_append_right (by omega), first,
      Nat.add_sub_cancel_left, List.getElem?_map, List.getElem?_eq_getElem (by omega),
      Option.map_some, Cone.arranged, List.getD_eq_getElem _ _ (by omega)]
  · intro k
    rw [joined, List.getElem?_append_right (by omega), middle, Nat.add_sub_cancel_left,
      List.getElem?_drop]

theorem exists_placed {cone : Cone} {dim : Nat} {K : ConeProduct}
    (positive : ∀ block ∈ K, 0 < block.2) {blocks : List Block}
    (laid : Block.layOut (ConeProduct.dims ((cone, dim) :: K)) offset = .ok blocks)
    (size : order.length = offset + (cone.rows dim + K.rows))
    (fresh : ∀ k < cone.rows dim, order[offset + k]? = some (offset + k))
    (placed : (blocks.filter (·.kind = .cone .semidefinite)).foldlM placeBlock order =
      (.ok order' : Outcome α (List Nat))) :
    ∃ next later, Block.layOut K.dims ((offset + cone.rows dim : Nat) : Int) = .ok later ∧
      (later.filter (·.kind = .cone .semidefinite)).foldlM placeBlock next =
        (.ok order' : Outcome α (List Nat)) ∧
      next.length = order.length ∧ (∀ k < offset, next[k]? = order[k]?) ∧
      (∀ k < cone.rows dim, next[offset + k]? = some (offset + cone.arranged dim k)) ∧
      ∀ k, next[offset + cone.rows dim + k]? = order[offset + cone.rows dim + k]? := by
  obtain ⟨extent, later, counted, rest, rfl⟩ := Block.layOut_cons_ok.1 laid
  by_cases flat : cone = .semidefinite
  · subst flat
    rw [List.filter_cons_of_pos (by simp)] at placed
    obtain ⟨next, written, folded⟩ := foldlM_cons_eq_ok.1 placed
    obtain ⟨whole, packed, rfl⟩ : ∃ whole, packedSize dim = .ok whole ∧ extent = (whole : Int) := by
      have counted : (packedSize dim).map Int.ofNat = .ok extent := counted
      cases packed : packedSize dim with
      | error cause => simp [packed, Except.map] at counted
      | ok whole =>
        rw [packed] at counted
        exact ⟨whole, rfl, (Except.ok.inj counted).symm⟩
    have rows : Cone.semidefinite.rows dim = triangle dim := rfl
    rw [rows] at size ⊢
    have bounded : offset + triangle dim ≤ order.length := by omega
    obtain ⟨exact, joined⟩ := placeBlock_ok bounded packed written
    refine ⟨next, later, ?_, folded, getElem?_placed bounded joined⟩
    rcases exact with exact | last
    · rw [Nat.cast_add, ← exact]
      exact rest
    · -- nothing is left for a further block, so there is none
      cases K with
      | nil => exact rest
      | cons block K =>
        have more : 0 < block.1.rows block.2 := rows_pos (positive block List.mem_cons_self)
        rw [ConeProduct.rows_cons] at size
        omega
  · rw [List.filter_cons_of_neg (by simpa using flat)] at placed
    have exact := Block.rowCount_of_flat flat dim
    obtain rfl : extent = cone.rows dim := Except.ok.inj (counted.symm.trans exact)
    refine ⟨order, later, by exact_mod_cast rest, placed, rfl, fun k _ => rfl, ?_, fun k => rfl⟩
    intro k bound
    rw [fresh k bound]
    cases cone with
    | semidefinite => exact absurd rfl flat
    | zero | free | nonnegative | secondOrder => rfl

/-- Placing the blocks of a product one after another arranges the rows that it covers. -/
theorem getElem?_of_foldlM {K : ConeProduct} (positive : ∀ block ∈ K, 0 < block.2)
    {blocks : List Block} (laid : Block.layOut K.dims offset = .ok blocks)
    (size : order.length = offset + K.rows)
    (fresh : ∀ k < K.rows, order[offset + k]? = some (offset + k))
    (placed : (blocks.filter (·.kind = .cone .semidefinite)).foldlM placeBlock order =
      (.ok order' : Outcome α (List Nat))) :
    order'.length = order.length ∧ (∀ k < offset, order'[k]? = order[k]?) ∧
      ∀ k < K.rows, order'[offset + k]? = some (offset + K.arranged k) := by
  induction K generalizing offset order blocks with
  | nil =>
    cases laid
    cases pure_eq_ok.1 placed
    exact ⟨rfl, fun k _ => rfl, fun k bound => absurd bound (Nat.not_lt_zero k)⟩
  | cons block K ih =>
    obtain ⟨cone, dim⟩ := block
    have rest : ∀ block ∈ K, 0 < block.2 :=
      fun block listed => positive block (List.mem_cons_of_mem _ listed)
    rw [ConeProduct.rows_cons] at size fresh ⊢
    obtain ⟨next, later, laid, placed, length, before, inside, after⟩ :=
      exists_placed rest laid size (fun k bound => fresh k (by omega)) placed
    obtain ⟨length', before', inside'⟩ := ih rest laid (by omega)
      (fun k bound => by
        rw [after, Nat.add_assoc, fresh _ (by omega)])
      placed
    refine ⟨length'.trans length, ?_, ?_⟩
    · intro k bound
      rw [before' k (by omega), before k bound]
    · intro k bound
      by_cases first : k < cone.rows dim
      · rw [before' _ (by omega), inside k first, ConeProduct.arranged_of_lt first]
      · obtain ⟨l, rfl⟩ := Nat.exists_eq_add_of_le (not_lt.1 first)
        rw [← Nat.add_assoc, inside' l (by omega), ConeProduct.arranged_add, Nat.add_assoc]

theorem rowOrder_ok {K : ConeProduct} (positive : ∀ block ∈ K, 0 < block.2)
    {blocks : List Block} (laid : Block.layOut K.dims 0 = .ok blocks)
    (success : rowOrder blocks K.rows = (.ok order : Outcome α (List Nat))) :
    order.length = K.rows ∧ ∀ k < K.rows, order[k]? = some (K.arranged k) := by
  have laid : Block.layOut K.dims (0 : Nat) = .ok blocks := laid
  obtain ⟨length, _, inside⟩ := getElem?_of_foldlM positive laid (by simp)
    (fun k bound => by rw [Nat.zero_add, List.getElem?_range bound]) success
  rw [List.length_range] at length
  refine ⟨length, ?_⟩
  intro k bound
  have entry := inside k bound
  rw [Nat.zero_add, Nat.zero_add] at entry
  exact entry

end Clarabel

end ConicDerivative
