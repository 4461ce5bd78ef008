import ConicDerivative.Proofs.JoinedBlocks

/-!
Tables that are made of cones one after another. A table merges cones of one kind, but it does not
move a row or change its cone: in the solver's order its product has the cones it was made of, row
by row, and it can be read back.
-/

namespace ConicDerivative

open Outcomes

namespace ConeProduct

variable {K : ConeProduct}

def rowCones (K : ConeProduct) : List Cone :=
  K.flatMap fun (cone, dim) => List.replicate (cone.rows dim) cone

theorem rowCones_cons (cone : Cone) (dim : Nat) (K : ConeProduct) :
    rowCones ((cone, dim) :: K) = List.replicate (cone.rows dim) cone ++ rowCones K :=
  List.flatMap_cons

theorem rowCones_nonempty (K : ConeProduct) : rowCones (nonempty K) = rowCones K := by
  induction K with
  | nil => rfl
  | cons block K ih =>
    obtain ⟨cone, dim⟩ := block
    rcases Nat.eq_zero_or_pos dim with rfl | positive
    · rw [nonempty_cons_zero, rowCones_cons, Cone.rows_zero, ih]
      rfl
    · rw [nonempty_cons positive, rowCones_cons, rowCones_cons, ih]

theorem rowCones_join (block : Cone × Nat) (K : ConeProduct) :
    rowCones (join block K) = rowCones (block :: K) := by
  cases K with
  | nil => rfl
  | cons next K =>
    obtain ⟨cone, dim⟩ := block
    obtain ⟨other, size⟩ := next
    by_cases joined : cone = other ∧ cone.isListed = false
    · obtain ⟨rfl, run⟩ := joined
      have sum : cone.rows (dim + size) = cone.rows dim + cone.rows size := by
        cases cone <;> first | rfl | cases run
      rw [join, if_pos ⟨rfl, run⟩, rowCones_cons, rowCones_cons, rowCones_cons, sum,
        List.replicate_add, List.append_assoc]
    · rw [join, if_neg joined]

theorem rowCones_merge (K : ConeProduct) : rowCones (merge K) = rowCones K := by
  induction K with
  | nil => rfl
  | cons block K ih =>
    rw [merge_cons, rowCones_join, rowCones_cons, ih, rowCones_cons]

theorem length_rowCones (K : ConeProduct) : (rowCones K).length = rows K := by
  induction K with
  | nil => rfl
  | cons block K ih =>
    obtain ⟨cone, dim⟩ := block
    rw [rowCones_cons, List.length_append, List.length_replicate, ih, rows_cons]

theorem mem_rowCones {block : Cone × Nat} (listed : block ∈ K) (positive : 0 < block.2) :
    block.1 ∈ rowCones K := by
  refine List.mem_flatMap.2 ⟨block, listed, List.mem_replicate.2 ⟨?_, rfl⟩⟩
  obtain ⟨cone, dim⟩ := block
  obtain ⟨dim, rfl⟩ := Nat.exists_eq_succ_of_ne_zero positive.ne'
  cases cone with
  | semidefinite => exact (Nat.add_pos_left dim.succ_pos _).ne'
  | zero | free | nonnegative | secondOrder => exact dim.succ_ne_zero

end ConeProduct

namespace ConeTable

variable {table : ConeTable} {cone other : Cone} {extent : Extent}

theorem get?_insert : (table.insert (.cone cone) extent).get? other =
    if other = cone then some extent else table.get? other := by
  unfold insert get?
  by_cases present : table.any (·.1 = .cone cone)
  · have keys : ((fun entry : Kind × Extent => decide (entry.1 = .cone other)) ∘ fun entry =>
        if entry.1 = .cone cone then (.cone cone, extent) else entry) =
          fun entry => decide (entry.1 = .cone other) := by
      funext entry
      by_cases here : entry.1 = .cone cone <;> simp [here]
    rw [if_pos present, List.find?_map, keys, Option.map_map]
    split_ifs with same
    · subst same
      obtain ⟨entry, found⟩ :=
        Option.isSome_iff_exists.1 (List.find?_isSome.2 (List.any_eq_true.1 present))
      have here : entry.1 = .cone other := by simpa using List.find?_some found
      rw [found]
      simp [here]
    · refine Option.map_congr fun entry found => ?_
      have here : entry.1 = .cone other := by simpa using List.find?_some found
      simp [here, same]
  · rw [if_neg present, List.find?_append]
    split_ifs with same
    · subst same
      have absent : table.find? (·.1 = .cone other) = none := by
        rw [List.find?_eq_none]
        exact fun entry listed here => present (List.any_eq_true.2 ⟨entry, listed, here⟩)
      rw [absent]
      simp
    · have single : [(Kind.cone cone, extent)].find? (·.1 = .cone other) = none := by
        simpa using Ne.symm same
      rw [single, Option.or_none]

theorem exists_cone_of_mem_insert (keys : ∀ entry ∈ table, ∃ cone, entry.1 = .cone cone) :
    ∀ entry ∈ table.insert (.cone cone) extent, ∃ cone, entry.1 = .cone cone := by
  intro entry listed
  unfold insert at listed
  split_ifs at listed
  · obtain ⟨old, stored, rfl⟩ := List.mem_map.1 listed
    split_ifs
    · exact ⟨cone, rfl⟩
    · exact keys old stored
  · rcases List.mem_append.1 listed with stored | new
    · exact keys entry stored
    · rw [List.mem_singleton.1 new]
      exact ⟨cone, rfl⟩

/--
The keys of the table are cones, and the entry of each is a number of rows, or a list of sizes where
the cone asks for one.
-/
structure IsCounted (table : ConeTable) : Prop where
  key : ∀ entry ∈ table, ∃ cone, entry.1 = .cone cone
  extent : ∀ cone extent, table.get? cone = some extent →
    if cone.isListed then ∃ dims : List Nat, extent = .list (dims.map fun dim : Nat => .integer dim)
    else ∃ rows : Nat, extent = .integer rows

namespace IsCounted

theorem list (counted : table.IsCounted) (listed : cone.isListed = true)
    (present : table.get? cone = some extent) :
    ∃ dims : List Nat, extent = .list (dims.map fun dim : Nat => .integer dim) := by
  simpa [listed] using counted.extent cone extent present

theorem integer (counted : table.IsCounted) (listed : cone.isListed = false)
    (present : table.get? cone = some extent) : ∃ rows : Nat, extent = .integer rows := by
  simpa [listed] using counted.extent cone extent present

theorem isPlain (counted : table.IsCounted) : table.IsPlain := by
  intro cone extent present
  unfold Extent.IsPlain
  split_ifs with listed
  · obtain ⟨dims, rfl⟩ := counted.list listed present
    exact ⟨dims.map Nat.cast, by rw [List.map_map]; rfl⟩
  · obtain ⟨rows, rfl⟩ := counted.integer (by simpa using listed) present
    exact ⟨rows, rfl⟩

end IsCounted

theorem part_of_sizes {dims : List Nat}
    (present : table.get? cone = some (.list (dims.map fun dim : Nat => .integer dim))) :
    table.part cone = dims.map (cone, ·) := by
  have integers : (dims.map fun dim : Nat => Extent.integer dim) = (dims.map Nat.cast).map .integer := by
    rw [List.map_map]
    rfl
  rw [integers] at present
  rw [part_of_list present, List.map_map]
  rfl

theorem IsCounted.dimensions_eq (counted : table.IsCounted)
    (present : table.get? cone = some extent) :
    dimensions cone extent = .ok (ConeProduct.nonempty (table.part cone)).dims := by
  cases listed : cone.isListed with
  | true =>
    obtain ⟨dims, rfl⟩ := counted.list listed present
    rw [part_of_sizes present]
    exact dimensions_of_sizes dims rfl
  | false =>
    obtain ⟨rows, rfl⟩ := counted.integer listed present
    rw [part_of_integer present]
    exact dimensions_of_sizes [rows] rfl

theorem IsCounted.exists_blocks (counted : table.IsCounted)
    (flat : Block.Flat (ConeProduct.nonempty table.product)) :
    ∃ blocks, table.blocks = .ok blocks := by
  obtain ⟨blocks, laid⟩ := Block.exists_layOut_of_flat flat 0
  exact ⟨blocks, blocks_of_layOut counted.key (fun _ _ => counted.dimensions_eq) laid⟩

def gather (cones : List (Cone × Int)) : ConeTable :=
  cones.foldl (fun table (cone, dim) => table.addBlock cone dim) []

def ofProduct (K : ConeProduct) : ConeTable :=
  K.foldl (fun table (cone, dim) => table.addBlock cone dim) []

theorem gather_concat (cones : List (Cone × Int)) (block : Cone × Int) :
    gather (cones ++ [block]) = (gather cones).addBlock block.1 block.2 := List.foldl_append

theorem ofProduct_eq_gather (K : ConeProduct) :
    ofProduct K = gather (K.map fun (cone, dim) => (cone, (dim : Int))) := by
  rw [gather, List.foldl_map]
  rfl

/-- What a table of cones has for a kind: nothing, the dimensions one by one, or their sum. -/
theorem get?_gather (cones : List (Cone × Int)) (cone : Cone) :
    (cones.filter (·.1 = cone) = [] ∧ (gather cones).get? cone = none) ∨
      (gather cones).get? cone = some (
        if cone.isListed then .list (((cones.filter (·.1 = cone)).map Prod.snd).map .integer)
        else .integer ((cones.filter (·.1 = cone)).map Prod.snd).sum) := by
  induction cones using List.reverseRecOn with
  | nil => exact .inl ⟨rfl, rfl⟩
  | append_singleton cones block ih =>
    obtain ⟨other, dim⟩ := block
    rw [gather_concat, List.filter_append]
    by_cases same : other = cone
    · subst same
      right
      rw [addBlock, get?_insert, if_pos rfl]
      rcases ih with ⟨none, absent⟩ | present
      · rw [absent, none]
        simp
      · rw [present]
        split_ifs <;> simp [Extent.items]
    · rw [addBlock, get?_insert, if_neg (Ne.symm same)]
      simpa [same] using ih

theorem exists_cone_of_mem_gather (cones : List (Cone × Int)) :
    ∀ entry ∈ gather cones, ∃ cone, entry.1 = .cone cone := by
  induction cones using List.reverseRecOn with
  | nil => exact fun entry listed => absurd listed List.not_mem_nil
  | append_singleton cones block ih =>
    rw [gather_concat]
    exact exists_cone_of_mem_insert ih

theorem get?_ofProduct (K : ConeProduct) (cone : Cone) :
    (K.filter (·.1 = cone) = [] ∧ (ofProduct K).get? cone = none) ∨
      (ofProduct K).get? cone = some (
        if cone.isListed then
          .list (((K.filter (·.1 = cone)).map Prod.snd).map fun dim : Nat => .integer dim)
        else .integer (((K.filter (·.1 = cone)).map Prod.snd).sum : Nat)) := by
  have dims : ((K.map fun (cone, dim) => (cone, (dim : Int))).filter (·.1 = cone)).map Prod.snd =
      ((K.filter (·.1 = cone)).map Prod.snd).map Nat.cast := by
    rw [List.filter_map, List.map_map, List.map_map]
    rfl
  rw [ofProduct_eq_gather]
  rcases get?_gather (K.map fun (cone, dim) => (cone, (dim : Int))) cone with ⟨none, absent⟩ | present
  · rw [none] at dims
    exact .inl ⟨List.map_eq_nil_iff.1 (List.map_eq_nil_iff.1 dims.symm), absent⟩
  · rw [present, dims, List.map_map, Nat.cast_list_sum]
    exact .inr rfl

theorem isCounted_ofProduct (K : ConeProduct) : (ofProduct K).IsCounted := by
  refine ⟨ofProduct_eq_gather K ▸ exists_cone_of_mem_gather _, ?_⟩
  intro cone extent present
  rcases get?_ofProduct K cone with ⟨_, absent⟩ | given
  · rw [absent] at present
    cases present
  · rw [given, Option.some.injEq] at present
    subst present
    split_ifs
    · exact ⟨_, rfl⟩
    · exact ⟨_, rfl⟩

theorem part_ofProduct_of_listed (listed : cone.isListed = true) (K : ConeProduct) :
    (ofProduct K).part cone = K.filter (·.1 = cone) := by
  rcases get?_ofProduct K cone with ⟨none, absent⟩ | given
  · rw [part_of_none absent, none]
  · rw [if_pos listed] at given
    rw [part_of_sizes given, List.map_map]
    refine (List.map_congr_left fun block stored => ?_).trans (List.map_id _)
    exact Prod.ext (of_decide_eq_true (List.mem_filter.1 stored).2).symm rfl

theorem nonempty_part_ofProduct (K : ConeProduct) (cone : Cone) :
    ConeProduct.nonempty ((ofProduct K).part cone) =
      ConeProduct.merge (ConeProduct.nonempty (K.filter (·.1 = cone))) := by
  have kinds : ∀ block ∈ K.filter (·.1 = cone), block.1 = cone := fun _ stored =>
    of_decide_eq_true (List.mem_filter.1 stored).2
  cases listed : cone.isListed with
  | true =>
    rw [part_ofProduct_of_listed listed, ConeProduct.merge_of_listed]
    intro block stored
    rw [kinds block (List.mem_filter.1 stored).1]
    exact listed
  | false =>
    rw [ConeProduct.merge_nonempty_of_run listed kinds]
    rcases get?_ofProduct K cone with ⟨none, absent⟩ | given
    · rw [part_of_none absent, none]
      rfl
    · rw [listed, if_neg Bool.false_ne_true] at given
      rw [part_of_integer given, Int.toNat_natCast]

theorem nonempty_product_ofProduct {K : ConeProduct}
    (sorted : (K.map Prod.fst).Pairwise (·.rank ≤ ·.rank)) :
    ConeProduct.nonempty (ofProduct K).product =
      ConeProduct.merge (ConeProduct.nonempty K) := by
  rw [List.pairwise_map] at sorted
  have kept : (ConeProduct.nonempty K).Pairwise fun block other => block.1.rank ≤ other.1.rank :=
    sorted.filter _
  rw [ConeProduct.merge_of_sorted kept, product, ConeProduct.nonempty, List.filter_flatMap]
  refine List.flatMap_congr fun cone _ => ?_
  refine (nonempty_part_ofProduct K cone).trans (congrArg ConeProduct.merge ?_)
  exact List.filter_comm _ _ _

theorem rowCones_product_ofProduct {K : ConeProduct}
    (sorted : (K.map Prod.fst).Pairwise (·.rank ≤ ·.rank)) :
    ConeProduct.rowCones (ofProduct K).product = ConeProduct.rowCones K := by
  rw [← ConeProduct.rowCones_nonempty, nonempty_product_ofProduct sorted,
    ConeProduct.rowCones_merge, ConeProduct.rowCones_nonempty]

theorem any_descent_eq_false_iff {ranks : List Nat} :
    ((ranks.zip ranks.tail).any fun (first, second) => second < first) = false ↔
      ranks.Pairwise (· ≤ ·) := by
  rw [← List.isChain_iff_pairwise]
  induction ranks with
  | nil => simp
  | cons rank ranks ih =>
    cases ranks with
    | nil => simp
    | cons next ranks =>
      rw [List.isChain_cons_cons, ← ih, List.tail_cons, List.zip_cons_cons, List.any_cons]
      simp

/-- Blocks of cones have the table of these if they stand in the solver's order, and none if not. -/
theorem ofBlocks_eq {cones : List (Cone × Int)} {blocks : List Block}
    (same : blocks.map (fun block => (block.kind, block.dim)) =
      cones.map fun (cone, dim) => (.cone cone, dim)) :
    ofBlocks blocks = if (cones.map Prod.fst).Pairwise (·.rank ≤ ·.rank)
      then Except.ok (gather cones) else Except.error .outOfOrder := by
  have paired : List.Forall₂ Eq (blocks.map fun block => (block.kind, block.dim))
      (cones.map fun (cone, dim) => (.cone cone, dim)) := by
    rw [List.forall₂_eq_eq_eq]
    exact same
  rw [List.forall₂_map_left_iff, List.forall₂_map_right_iff] at paired
  have ranks : (cones.map (·.1.rank)).Pairwise (· ≤ ·) ↔
      (cones.map Prod.fst).Pairwise (·.rank ≤ ·.rank) := by
    rw [List.pairwise_map, List.pairwise_map]
  unfold ofBlocks
  rw [mapM_eq_ok.2 (paired.imp ?_)]
  · split_ifs with sorted
    · rw [← ranks, ← any_descent_eq_false_iff] at sorted
      refine (if_neg ?_).trans rfl
      rw [sorted]
      exact Bool.false_ne_true
    · rw [← ranks, ← any_descent_eq_false_iff, Bool.not_eq_false] at sorted
      exact (if_pos sorted).trans rfl
  · rintro ⟨kind, dim, start, stop⟩ ⟨cone, count⟩ equal
    cases equal
    rfl

theorem ofBlocks_eq_gather {cones : List (Cone × Int)} {blocks : List Block}
    (same : blocks.map (fun block => (block.kind, block.dim)) =
      cones.map fun (cone, dim) => (.cone cone, dim))
    (sorted : (cones.map Prod.fst).Pairwise (·.rank ≤ ·.rank)) :
    ofBlocks blocks = .ok (gather cones) := (ofBlocks_eq same).trans (if_pos sorted)

theorem ofBlocks_ok {K : ConeProduct} {blocks : List Block}
    (same : blocks.map (fun block => (block.kind, block.dim)) = K.dims)
    (sorted : (K.map Prod.fst).Pairwise (·.rank ≤ ·.rank)) :
    ofBlocks blocks = .ok (ofProduct K) := by
  rw [ofProduct_eq_gather]
  refine ofBlocks_eq_gather ?_ ?_
  · rw [same, List.map_map]
    rfl
  · rwa [List.map_map]

end ConeTable

end ConicDerivative
