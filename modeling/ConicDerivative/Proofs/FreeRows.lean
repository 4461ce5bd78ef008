import ConicDerivative.Proofs.TableBlocks
import ConicDerivative.Solve

/-!
The rows of free cones, which no solver sees. They stand between the equations and all other rows.
An optimal pair of the other rows is one of all rows when every free row gets its slack and no price.
-/

namespace ConicDerivative

open Scalar Matrix Outcomes Loose

namespace ConeTable

variable {table : ConeTable} {blocks : List Block} {rows : Nat}

def equationRows (table : ConeTable) : Nat := ConeProduct.rows (table.part .zero)

def freeRows (table : ConeTable) : Nat := ConeProduct.rows (table.part .free)

def tailProduct (table : ConeTable) : ConeProduct :=
  table.part .nonnegative ++ (table.part .secondOrder ++ table.part .semidefinite)

theorem flat_part {cone : Cone} (flat : cone ≠ .semidefinite) :
    Block.Flat (ConeProduct.nonempty (table.part cone)) := by
  intro block listed
  rw [kind_of_mem_part (List.mem_of_mem_filter listed)]
  exact flat

theorem kind_of_layOut {K : ConeProduct} {offset : Int} {block : Block}
    (laid : Block.layOut (ConeProduct.nonempty K).dims offset = .ok blocks)
    (listed : block ∈ blocks) : ∃ pair ∈ K, block.kind = .cone pair.1 := by
  obtain ⟨pair, stored, same⟩ := List.mem_map.1 (Block.kind_mem_of_layOut laid listed)
  exact ⟨pair, List.mem_of_mem_filter stored, (congrArg Prod.fst same).symm⟩

theorem exists_runs (plain : table.IsPlain) (success : table.blocks = .ok blocks) :
    ∃ first middle last, blocks = first ++ (middle ++ last) ∧
      (∀ row : Int, (∃ block ∈ first, block.start ≤ row ∧ row < block.stop) ↔
        0 ≤ row ∧ row < table.equationRows) ∧
      (∀ row : Int, (∃ block ∈ middle, block.start ≤ row ∧ row < block.stop) ↔
        table.equationRows ≤ row ∧ row < table.equationRows + table.freeRows) ∧
      (∀ block ∈ first, block.kind ≠ .cone .free) ∧ (∀ block ∈ middle, block.kind = .cone .free) ∧
      ∀ block ∈ last, block.kind ≠ .cone .free := by
  have laid := blocks_ok plain success
  have split : (ConeProduct.nonempty table.product).dims =
      (ConeProduct.nonempty (table.part .zero)).dims ++
        ((ConeProduct.nonempty (table.part .free)).dims ++
          (ConeProduct.nonempty table.tailProduct).dims) := by
    simp only [product_eq, ConeProduct.nonempty, ConeProduct.dims, tailProduct, List.filter_append,
      List.map_append]
  rw [split] at laid
  obtain ⟨first, rest, rfl, zeros, laid', covered⟩ := Block.layOut_flat (flat_part (by decide)) laid
  obtain ⟨middle, last, rfl, frees, others, covered'⟩ :=
    Block.layOut_flat (flat_part (by decide)) laid'
  rw [ConeProduct.rows_nonempty] at covered covered' others
  rw [ConeProduct.rows_nonempty] at covered'
  refine ⟨first, middle, last, rfl, ?_, ?_, ?_, ?_, ?_⟩
  · intro row
    rw [covered, equationRows]
    omega
  · intro row
    rw [covered', equationRows, freeRows]
    omega
  · intro block listed
    obtain ⟨pair, stored, kind⟩ := kind_of_layOut zeros listed
    rw [kind, kind_of_mem_part stored]
    decide
  · intro block listed
    obtain ⟨pair, stored, kind⟩ := kind_of_layOut frees listed
    rw [kind, kind_of_mem_part stored]
  · intro block listed
    obtain ⟨pair, stored, kind⟩ := kind_of_layOut others listed
    rw [kind]
    simp only [tailProduct, List.mem_append] at stored
    rcases stored with stored | stored | stored
    all_goals
      rw [kind_of_mem_part stored]
      decide

theorem bounds_of_free {block : Block} (plain : table.IsPlain) (success : table.blocks = .ok blocks)
    (listed : block ∈ blocks) (free : block.kind = .cone .free) {row : Int}
    (above : block.start ≤ row) (below : row < block.stop) :
    table.equationRows ≤ row ∧ row < table.equationRows + table.freeRows := by
  obtain ⟨first, middle, last, rfl, _, covered, outside, _, outside'⟩ := exists_runs plain success
  rcases List.mem_append.1 listed with listed | listed
  · exact absurd free (outside block listed)
  · rcases List.mem_append.1 listed with listed | listed
    · exact (covered row).1 ⟨block, listed, above, below⟩
    · exact absurd free (outside' block listed)

theorem rows_le (plain : table.IsPlain) (success : table.blocks = .ok blocks)
    (tiling : Block.checkTiling blocks rows = .ok ()) :
    table.equationRows + table.freeRows ≤ rows := by
  obtain ⟨first, middle, last, rfl, covered, covered', _⟩ := exists_runs plain success
  obtain ⟨_, bounds⟩ := Block.bounds_of_checkFrom (Block.checkTiling_ok.1 tiling)
  have inside {row : Int} {part : List Block} (listed : ∀ block ∈ part, block ∈ first ++ (middle ++ last))
      (some : ∃ block ∈ part, block.start ≤ row ∧ row < block.stop) : row < rows := by
    obtain ⟨block, member, _, below⟩ := some
    have := bounds block (listed block member)
    omega
  by_cases free : 0 < table.freeRows
  · have last := inside (by simp +contextual)
      ((covered' (table.equationRows + table.freeRows - 1)).2 (by omega))
    omega
  · by_cases zero : 0 < table.equationRows
    · have last := inside (by simp +contextual) ((covered (table.equationRows - 1)).2 (by omega))
      omega
    · omega

end ConeTable

namespace Constraints

variable {n : Nat} {table : ConeTable} {blocks : List Block} {rows : Nat}

/-- The places of the rows that are kept: the equations, and what follows the free rows. -/
def keptPlaces (table : ConeTable) (rows : Nat) : List Nat :=
  List.range table.equationRows ++
    (List.range (rows - (table.equationRows + table.freeRows))).map
      (table.equationRows + table.freeRows + ·)

theorem kept_eq (plain : table.IsPlain) (success : table.blocks = .ok blocks) (rows : Nat) :
    kept blocks rows = (List.range rows).map fun i =>
      !decide (table.equationRows ≤ i ∧ i < table.equationRows + table.freeRows) := by
  apply List.map_congr_left
  intro i _
  congr 1
  rw [Bool.eq_iff_iff, List.any_eq_true, decide_eq_true_eq]
  simp only [Bool.and_eq_true, decide_eq_true_eq, and_assoc]
  constructor
  · rintro ⟨block, listed, kind, above, below⟩
    have := ConeTable.bounds_of_free plain success listed kind above below
    omega
  · intro bounds
    obtain ⟨first, middle, last, rfl, _, covered, _, inside, _⟩ :=
      ConeTable.exists_runs plain success
    obtain ⟨block, listed, above, below⟩ := (covered i).2 (by omega)
    exact ⟨block, by simp [listed], inside block listed, above, below⟩

theorem places_map_range (p : Nat → Bool) (n : Nat) :
    places ((List.range n).map p) = (List.range n).filter p := by
  unfold places
  induction n with
  | zero => rfl
  | succ n ih =>
    rw [List.range_succ, List.map_append, List.zipIdx_append, List.filter_append, List.map_append,
      ih, List.filter_append]
    congr 1
    by_cases kept : p n
    · simp [kept]
    · simp [kept]

theorem places_kept (plain : table.IsPlain) (success : table.blocks = .ok blocks)
    (fits : table.equationRows + table.freeRows ≤ rows) :
    places (kept blocks rows) = keptPlaces table rows := by
  obtain ⟨rest, rfl⟩ := Nat.exists_eq_add_of_le fits
  rw [kept_eq plain success, places_map_range, keptPlaces, Nat.add_sub_cancel_left, List.range_add,
    List.range_add, List.filter_append, List.filter_append]
  have first : (List.range table.equationRows).filter (fun i =>
      !decide (table.equationRows ≤ i ∧ i < table.equationRows + table.freeRows)) =
      List.range table.equationRows := by
    apply List.filter_eq_self.2
    intro i listed
    have := List.mem_range.1 listed
    simp only [Bool.not_eq_true', decide_eq_false_iff_not]
    omega
  have middle : ((List.range table.freeRows).map (table.equationRows + ·)).filter (fun i =>
      !decide (table.equationRows ≤ i ∧ i < table.equationRows + table.freeRows)) = [] := by
    apply List.filter_eq_nil_iff.2
    intro i listed
    obtain ⟨k, inside, rfl⟩ := List.mem_map.1 listed
    have := List.mem_range.1 inside
    simp only [Bool.not_eq_true', decide_eq_false_iff_not, not_not]
    omega
  have last : ((List.range rest).map (table.equationRows + table.freeRows + ·)).filter (fun i =>
      !decide (table.equationRows ≤ i ∧ i < table.equationRows + table.freeRows)) =
      (List.range rest).map (table.equationRows + table.freeRows + ·) := by
    apply List.filter_eq_self.2
    intro i listed
    obtain ⟨k, _, rfl⟩ := List.mem_map.1 listed
    simp only [Bool.not_eq_true', decide_eq_false_iff_not]
    omega
  rw [first, middle, last, List.append_nil]

theorem length_keptPlaces (table : ConeTable) (rows : Nat) : (keptPlaces table rows).length =
    table.equationRows + (rows - (table.equationRows + table.freeRows)) := by
  rw [keptPlaces, List.length_append, List.length_map, List.length_range, List.length_range]

theorem getElem_keptPlaces {i : Nat} (inside : i < (keptPlaces table rows).length) :
    (keptPlaces table rows)[i] = if i < table.equationRows then i else i + table.freeRows := by
  split_ifs with first
  · simp only [keptPlaces]
    rw [List.getElem_append_left (by simpa using first), List.getElem_range]
  · simp only [keptPlaces]
    rw [List.getElem_append_right (by simpa using first), List.getElem_map, List.getElem_range,
      List.length_range]
    omega

theorem mem_keptPlaces (fits : table.equationRows + table.freeRows ≤ rows) {i : Nat} :
    i ∈ keptPlaces table rows ↔
      i < rows ∧ ¬(table.equationRows ≤ i ∧ i < table.equationRows + table.freeRows) := by
  rw [keptPlaces, List.mem_append, List.mem_range, List.mem_map]
  constructor
  · rintro (first | ⟨k, inside, rfl⟩)
    · omega
    · have := List.mem_range.1 inside
      omega
  · rintro ⟨bound, outside⟩
    by_cases first : i < table.equationRows
    · exact .inl first
    · exact .inr ⟨i - (table.equationRows + table.freeRows), List.mem_range.2 (by omega), by omega⟩

theorem nodup_keptPlaces (table : ConeTable) (rows : Nat) : (keptPlaces table rows).Nodup := by
  rw [List.nodup_iff_injective_get]
  intro i j same
  apply Fin.ext
  simp only [List.get_eq_getElem, getElem_keptPlaces] at same
  split_ifs at same <;> omega

theorem dropFree_ok {constraints reduced : Constraints ℝ n} {keep : List Bool}
    (success : constraints.cones.blocks = .ok blocks)
    (dropped : constraints.dropFree = .ok (reduced, keep)) :
    keep = kept blocks constraints.rows ∧
      (keep.all id = true ∧
          reduced = ⟨constraints.A, constraints.b, constraints.cones.erase .free⟩ ∨
        keep.all id = false ∧ ∃ A b, takeRows constraints.A (places keep) = .ok A ∧
          gather constraints.b (places keep) = .ok b ∧
          reduced = ⟨A, b, constraints.cones.erase .free⟩) := by
  obtain ⟨other, read, rest⟩ := lift_bind_eq_ok.1 dropped
  obtain rfl : blocks = other := Except.ok.inj (success.symm.trans read)
  dsimp only at rest
  by_cases all : (kept blocks constraints.rows).all id = true
  · rw [if_pos all] at rest
    cases pure_eq_ok.1 rest
    exact ⟨rfl, .inl ⟨all, rfl⟩⟩
  · rw [if_neg all] at rest
    obtain ⟨A, taken, rest⟩ := bind_eq_ok.1 rest
    split_ifs at rest with length
    · cases rest
    · obtain ⟨b, gathered, rest⟩ := bind_eq_ok.1 rest
      cases pure_eq_ok.1 rest
      exact ⟨rfl, .inr ⟨by simpa using all, A, b, taken, gathered, rfl⟩⟩

end Constraints

namespace ConeProduct

variable {packing : Packing} {Z F L : ConeProduct} {f g : Nat → ℝ}

theorem contains_free (all : ∀ block ∈ F, block.1 = .free) (f : Nat → ℝ) :
    Contains packing F f := by
  induction F generalizing f with
  | nil => exact trivial
  | cons block F ih =>
    obtain ⟨cone, dim⟩ := block
    obtain rfl : cone = .free := all _ List.mem_cons_self
    exact ⟨trivial, ih (fun block listed => all block (List.mem_cons_of_mem _ listed)) _⟩

theorem contains_zero (all : ∀ block ∈ F, block.1 = .zero) (zeros : ∀ i < rows F, f i = 0) :
    Contains packing F f := by
  induction F generalizing f with
  | nil => exact trivial
  | cons block F ih =>
    obtain ⟨cone, dim⟩ := block
    obtain rfl : cone = .zero := all _ List.mem_cons_self
    rw [rows_cons] at zeros
    have size : Cone.zero.rows dim = dim := rfl
    refine ⟨fun i bound => zeros i (by omega), ?_⟩
    exact ih (fun block listed => all block (List.mem_cons_of_mem _ listed)) fun i bound =>
      zeros _ (by omega)

theorem contains_insert (inside : Contains packing (Z ++ L) f) (first : ∀ i < rows Z, f i = g i)
    (middle : Contains packing F fun i => g (rows Z + i))
    (last : ∀ i < rows L, f (rows Z + i) = g (rows Z + (rows F + i))) :
    Contains packing (Z ++ (F ++ L)) g := by
  obtain ⟨upper, lower⟩ := contains_append.1 inside
  refine contains_append.2 ⟨upper.of_eq first, contains_append.2 ⟨middle, lower.of_eq last⟩⟩

end ConeProduct

namespace OptimalPair

variable {m k n : Nat} {table : ConeTable}

/-- The rows of a pair without free rows, moved to their places, with a slack for every free row. -/
theorem restore {A : Sparse ℝ m n} {S : Sparse ℝ k n} {b b' c x y y' s s' : List ℝ}
    (pair : OptimalPair .lower (table.erase .free).product S b' c x y' s')
    (prices : y.length = m) (slacks : s.length = m)
    (equations : A.matrix *ᵥ entries n x + entries m s = entries m b ∧
      A.matrixᵀ *ᵥ entries m y + entries n c = 0 ∧ entries m s ⬝ᵥ entries m y = 0)
    (selected : k + table.freeRows = m)
    (slack_eq : ∀ i < k, entry s' i =
      entry s (if i < table.equationRows then i else i + table.freeRows))
    (price_eq : ∀ i < k, entry y' i =
      entry y (if i < table.equationRows then i else i + table.freeRows))
    (unpriced : ∀ i < table.freeRows, entry y (table.equationRows + i) = 0) :
    OptimalPair .lower table.product A b c x y s := by
  obtain ⟨primal, dual, complementary⟩ := equations
  have whole : table.product = table.part .zero ++ (table.part .free ++ table.tailProduct) :=
    table.product_eq
  have reduced : (table.erase .free).product = table.part .zero ++ table.tailProduct :=
    table.product_erase_free
  have covers := pair.covers
  rw [reduced, ConeProduct.rows_append] at covers
  have zeros : ConeProduct.rows (table.part .zero) = table.equationRows := rfl
  have frees : ConeProduct.rows (table.part .free) = table.freeRows := rfl
  have moved {v v' : List ℝ} (same : ∀ i < k, entry v' i =
      entry v (if i < table.equationRows then i else i + table.freeRows)) :
      (∀ i < table.equationRows, entry v' i = entry v i) ∧
        ∀ i < ConeProduct.rows table.tailProduct, entry v' (table.equationRows + i) =
          entry v (table.equationRows + (table.freeRows + i)) := by
    constructor
    · intro i bound
      rw [same i (by omega), if_pos bound]
    · intro i bound
      rw [same _ (by omega), if_neg (by omega)]
      congr 1
      omega
  obtain ⟨first, last⟩ := moved slack_eq
  obtain ⟨first', last'⟩ := moved price_eq
  refine ⟨pair.columns, prices, slacks, ?_, primal, dual, ?_, ?_, complementary⟩
  · rw [whole, ConeProduct.rows_append, ConeProduct.rows_append]
    omega
  · have inside := pair.slack_mem
    rw [reduced] at inside
    rw [whole]
    exact ConeProduct.contains_insert inside first
      (ConeProduct.contains_free (fun block => ConeTable.kind_of_mem_part) _) last
  · have inside := pair.price_mem
    rw [reduced, ConeProduct.dual_append] at inside
    rw [whole, ConeProduct.dual_append, ConeProduct.dual_append]
    apply ConeProduct.contains_insert inside
    · rw [ConeProduct.rows_dual]
      exact first'
    · rw [ConeProduct.rows_dual]
      refine ConeProduct.contains_zero ?_ ?_
      · intro block listed
        obtain ⟨⟨cone, dim⟩, stored, rfl⟩ := List.mem_map.1 listed
        obtain rfl : cone = .free := ConeTable.kind_of_mem_part stored
        rfl
      · rw [ConeProduct.rows_dual]
        exact unpriced
    · rw [ConeProduct.rows_dual, ConeProduct.rows_dual, ConeProduct.rows_dual]
      exact last'

end OptimalPair

namespace Constraints

variable {n : Nat} {blocks : List Block}

theorem slack_eq_ok {constraints : Constraints ℝ n} {x : List ℝ} (columns : x.length = n)
    (size : constraints.b.length = constraints.rows) : ∃ s, constraints.slack x = .ok s ∧
      s.length = constraints.rows ∧ ∀ i : Fin constraints.rows,
        entry s i = entry constraints.b i - (constraints.A.matrix *ᵥ entries n x) i := by
  obtain ⟨w, product, length, same⟩ := mulVec_eq_ok (A := constraints.A) columns
  refine ⟨_, bind_eq_ok.2 ⟨w, product, zipWith_eq_ok _ (size.trans length.symm)⟩, ?_, ?_⟩
  · rw [List.length_zipWith, size, length, Nat.min_self]
  · intro i
    have bound := i.isLt
    rw [← same, entries, entry_of_lt (by rw [List.length_zipWith]; omega), List.getElem_zipWith,
      entry_of_lt (by omega), entry_of_lt (by omega)]

/-- Every free row gets its slack and no price, and the other rows keep what they have. -/
theorem restoreFree_ok {constraints : Constraints ℝ n} {keep : List Bool} {values : Values ℝ}
    {A : Sparse ℝ (places keep).length n} {b c : List ℝ}
    (order : places keep = keptPlaces constraints.cones constraints.rows)
    (fits : constraints.cones.equationRows + constraints.cones.freeRows ≤ constraints.rows)
    (size : constraints.b.length = constraints.rows)
    (taken : takeRows constraints.A (places keep) = .ok A)
    (gathered : gather constraints.b (places keep) = .ok b)
    (pair : OptimalPair .lower (constraints.cones.erase .free).product A b c values.x values.y
      values.s) :
    ∃ whole, constraints.restoreFree keep values = .ok whole ∧
      OptimalPair .lower constraints.cones.product constraints.A constraints.b c whole.x whole.y
        whole.s ∧
      ∀ i < constraints.cones.freeRows, entry whole.y (constraints.cones.equationRows + i) = 0 := by
  have distinct : (places keep).Nodup := by
    rw [order]
    exact nodup_keptPlaces _ _
  have listed (i : Nat) : i ∈ places keep ↔ i < constraints.rows ∧
      ¬(constraints.cones.equationRows ≤ i ∧
        i < constraints.cones.equationRows + constraints.cones.freeRows) := by
    rw [order]
    exact mem_keptPlaces fits
  have length : (places keep).length + constraints.cones.freeRows = constraints.rows := by
    rw [order, length_keptPlaces]
    omega
  obtain ⟨e, placed, rows⟩ := takeRows_ok taken
  obtain ⟨_, sides⟩ := gather_ok gathered
  obtain ⟨s, computed, slacks, slack⟩ := slack_eq_ok pair.columns size
  obtain ⟨y, priced, prices, kept, unkept⟩ :=
    scatter_eq_ok (x := List.replicate constraints.b.length 0) distinct
      (fun i member => by rw [List.length_replicate, size]; exact ((listed i).1 member).1)
      pair.prices
  obtain ⟨s', stored, slacks', kept', unkept'⟩ := scatter_eq_ok (x := s) distinct
    (fun i member => by rw [slacks]; exact ((listed i).1 member).1) pair.slacks
  rw [List.length_replicate, size] at prices
  have unpriced (i : Nat) (absent : i ∉ places keep) : entry y i = 0 := by
    rw [unkept i absent, entry, List.getD_eq_getElem?_getD, List.getElem?_getD_replicate_default_eq]
  have outside {i : Fin constraints.rows} (absent : i ∉ Set.range e) : i.val ∉ places keep := by
    intro member
    obtain ⟨l, bound, same⟩ := List.mem_iff_getElem.1 member
    exact absent ⟨⟨l, bound⟩, Fin.ext ((placed _).trans same)⟩
  have free (i : Nat) (bound : i < constraints.cones.freeRows) :
      entry y (constraints.cones.equationRows + i) = 0 := by
    apply unpriced
    rw [listed]
    omega
  refine ⟨⟨values.x, y, s'⟩, bind_eq_ok.2 ⟨s, computed, bind_eq_ok.2 ⟨y, priced,
    bind_eq_ok.2 ⟨s', stored, rfl⟩⟩⟩, ?_, free⟩
  have place (i : Nat) (bound : i < (places keep).length) : (places keep)[i] =
      if i < constraints.cones.equationRows then i else i + constraints.cones.freeRows := by
    rw [List.getElem_of_eq order, getElem_keptPlaces]
  refine pair.restore prices (slacks'.trans slacks) ?_ length ?_ ?_ free
  · apply OptimalPair.equations_of_selected (injective_of_nodup distinct placed) rows pair.primal
      pair.dual pair.complementary
    · intro i
      rw [entries, entries, sides i i.isLt, placed]
    · intro i
      rw [entries, entries, placed, kept i i.isLt]
    · intro i
      rw [entries, entries, placed, kept' i i.isLt]
    · intro i absent
      exact unpriced i (outside absent)
    · intro i absent
      rw [entries, entries, unkept' i (outside absent), slack]
  · intro i bound
    rw [← place i bound, kept' i bound]
  · intro i bound
    rw [← place i bound, kept i bound]

/-- An optimal pair of what is left when free rows are dropped becomes one of all rows. -/
theorem exists_restored {constraints reduced : Constraints ℝ n} {keep : List Bool}
    {values : Values ℝ} {c : List ℝ} (plain : constraints.cones.IsPlain)
    (success : constraints.cones.blocks = .ok blocks)
    (tiling : Block.checkTiling blocks constraints.rows = .ok ())
    (size : constraints.b.length = constraints.rows)
    (dropped : constraints.dropFree = .ok (reduced, keep))
    (pair : OptimalPair .lower reduced.cones.product reduced.A reduced.b c values.x values.y
      values.s) :
    ∃ whole, (if keep.all id then .ok values else constraints.restoreFree keep values) = .ok whole ∧
      OptimalPair .lower constraints.cones.product constraints.A constraints.b c whole.x whole.y
        whole.s ∧
      ∀ i < constraints.cones.freeRows, entry whole.y (constraints.cones.equationRows + i) = 0 := by
  have fits := ConeTable.rows_le plain success tiling
  rcases dropFree_ok success dropped with
    ⟨same, ⟨all, rfl⟩ | ⟨some, A, b, taken, gathered, rfl⟩⟩
  · refine ⟨values, if_pos all, ?_⟩
    have none : constraints.cones.freeRows = 0 := by
      by_contra positive
      have free := List.all_eq_true.1 all false (by
        rw [same, kept_eq plain success, List.mem_map]
        refine ⟨constraints.cones.equationRows, List.mem_range.2 (by omega), ?_⟩
        rw [decide_eq_true (by omega)]
        rfl)
      cases free
    have still (v : List ℝ) (i : Nat) : entry v i = entry v
        (if i < constraints.cones.equationRows then i else i + constraints.cones.freeRows) := by
      rw [none, Nat.add_zero, ite_self]
    have unpriced (i : Nat) (bound : i < constraints.cones.freeRows) :
        entry values.y (constraints.cones.equationRows + i) = 0 := absurd bound (by omega)
    exact ⟨pair.restore pair.prices pair.slacks ⟨pair.primal, pair.dual, pair.complementary⟩
      (by rw [none]; rfl) (fun i _ => still _ i) (fun i _ => still _ i) unpriced, unpriced⟩
  · rw [if_neg (by rw [some]; decide)]
    exact restoreFree_ok (by rw [same, places_kept plain success fits]) fits size taken gathered pair

end Constraints

end ConicDerivative
