import ConicDerivative.Proofs.OrderedBlocks
import ConicDerivative.Proofs.PackedSizes
import ConicDerivative.Proofs.TableDimensions

/-!
The layout of a table. Its blocks follow one another from row zero, cone by cone in the solver's
order, one for each dimension in the table that is not zero; they tile as many rows as they have and
no other number of rows. In which order the keys of the table stand makes no difference.
-/

namespace ConicDerivative

open Outcomes

namespace Block

variable {blocks : List Block} {dims : List (Kind × Int)} {offset stop : Int}

def AreAdjacent (blocks : List Block) : Prop :=
  blocks.IsChain fun block next => next.start = block.stop

theorem areAdjacent_of_layOut (success : layOut dims offset = .ok blocks) :
    (∀ block ∈ blocks.head?, block.start = offset) ∧ AreAdjacent blocks := by
  induction dims generalizing offset blocks with
  | nil =>
    cases success
    exact ⟨nofun, List.IsChain.nil⟩
  | cons pair dims ih =>
    obtain ⟨size, later, _, laid, rfl⟩ := layOut_cons_ok.1 success
    obtain ⟨start, adjacent⟩ := ih laid
    refine ⟨?_, adjacent.cons start⟩
    intro block first
    cases first
    rfl

theorem size_pos {block : Block} (positive : 0 < block.dim)
    (counted : block.kind.rowCount block.dim = .ok block.size) : 0 < block.size := by
  have nonneg := rowCount_nonneg positive.le counted
  refine lt_of_le_of_ne nonneg ?_
  obtain ⟨cone, kind⟩ := Kind.exists_cone counted
  rw [kind] at counted
  cases cone with
  | zero | free | nonnegative | secondOrder =>
    rw [← Except.ok.inj counted]
    exact positive.ne
  | semidefinite =>
    obtain ⟨size, natural⟩ := Int.eq_ofNat_of_zero_le nonneg
    rw [natural] at counted ⊢
    have nonzero := packedSize_ne_zero (packedSize_of_rowCount counted) positive
    exact_mod_cast nonzero.symm

theorem checkTiling_iff (accepted : checkFrom blocks 0 = .ok stop) (rows : Int) :
    checkTiling blocks rows = .ok () ↔ rows = stop := by
  rw [checkTiling_ok, accepted, Except.ok.injEq]
  exact eq_comm

theorem foldl_size (blocks : List Block) (start : Int) :
    blocks.foldl (fun rows block => rows + block.size) start =
      start + (blocks.map Block.size).sum := by
  induction blocks generalizing start with
  | nil => exact (Int.add_zero start).symm
  | cons block rest ih => rw [List.foldl_cons, ih, List.map_cons, List.sum_cons, add_assoc]

end Block

namespace ConeTable

variable {table other : ConeTable} {blocks : List Block} {cone : Cone} {extent : Extent}

theorem nodup_insert {kind : Kind} (distinct : (table.map Prod.fst).Nodup) :
    ((table.insert kind extent).map Prod.fst).Nodup := by
  unfold insert
  split_ifs with present
  · have keys : (table.map fun entry => if entry.1 = kind then (kind, extent) else entry).map
        Prod.fst = table.map Prod.fst := by
      rw [List.map_map]
      refine List.map_congr_left fun entry _ => ?_
      by_cases here : entry.1 = kind <;> simp [here]
    rwa [keys]
  · rw [List.map_append, List.nodup_append_comm]
    refine List.nodup_cons.2 ⟨?_, distinct⟩
    intro listed
    obtain ⟨entry, stored, same⟩ := List.mem_map.1 listed
    exact present (List.any_eq_true.2 ⟨entry, stored, decide_eq_true same⟩)

theorem nodup_ofPairs (pairs : List (Kind × Extent)) : ((ofPairs pairs).map Prod.fst).Nodup := by
  induction pairs using List.reverseRecOn with
  | nil => exact List.nodup_nil
  | append_singleton pairs pair ih =>
    rw [ofPairs, List.foldl_append]
    exact nodup_insert ih

theorem get?_eq_some_iff (distinct : (table.map Prod.fst).Nodup) :
    table.get? cone = some extent ↔ (.cone cone, extent) ∈ table := by
  induction table with
  | nil => exact iff_of_false nofun List.not_mem_nil
  | cons entry rest ih =>
    obtain ⟨fresh, distinct⟩ := List.nodup_cons.1 distinct
    have rest := ih distinct
    unfold get? at rest ⊢
    by_cases here : entry.1 = .cone cone
    · rw [List.find?_cons_of_pos (by simpa using here), Option.map_some, Option.some.injEq,
        List.mem_cons]
      constructor
      · rintro rfl
        exact .inl (Prod.ext here.symm rfl)
      · rintro (rfl | later)
        · rfl
        · exact absurd (List.mem_map_of_mem (f := Prod.fst) later) (here ▸ fresh)
    · rw [List.find?_cons_of_neg (by simpa using here), rest, List.mem_cons]
      refine (or_iff_right ?_).symm
      rintro rfl
      exact here rfl

theorem get?_perm (distinct : (table.map Prod.fst).Nodup) (same : other.Perm table) :
    other.get? cone = table.get? cone := by
  have distinct' : (other.map Prod.fst).Nodup := (same.map _).nodup_iff.2 distinct
  apply Option.ext
  intro extent
  rw [get?_eq_some_iff distinct, get?_eq_some_iff distinct', same.mem_iff]

/-- Every value of a key that is no cone can be added up. -/
def AddsUp (table : ConeTable) : Prop :=
  ∀ entry ∈ table, entry.1.cone? = none → ∃ empty, entry.2.isEmpty = .ok empty

def refused (table : ConeTable) : List (Kind × Extent) :=
  table.filter fun entry => entry.2.isEmpty.toOption = some false && entry.1.cone?.isNone

theorem mem_refused {entry : Kind × Extent} : entry ∈ table.refused ↔
    entry ∈ table ∧ entry.1.cone? = none ∧ entry.2.isEmpty = .ok false := by
  have found : entry.2.isEmpty.toOption = some false ↔ entry.2.isEmpty = .ok false := by
    cases entry.2.isEmpty with
    | error cause => exact iff_of_false nofun nofun
    | ok empty => simp [Except.toOption]
  rw [refused, List.mem_filter, Bool.and_eq_true, decide_eq_true_iff, found,
    Option.isNone_iff_eq_none, and_comm (a := entry.2.isEmpty = .ok false)]

theorem filterM_foreign {kept : List (Kind × Extent)} :
    ((table.filter (·.1.cone?.isNone)).filterM fun entry => not <$> entry.2.isEmpty) = .ok kept ↔
      table.AddsUp ∧ table.refused = kept := by
  have tested (x : Except LayoutError Bool) :
      (∃ keep, not <$> x = .ok keep) ↔ ∃ empty, x = .ok empty := by
    cases x with
    | error cause => exact iff_of_false nofun nofun
    | ok empty => exact iff_of_true ⟨_, rfl⟩ ⟨_, rfl⟩
  have turned (x : Except LayoutError Bool) :
      (not <$> x).toOption = some true ↔ x.toOption = some false := by
    cases x with
    | error cause => exact iff_of_false nofun nofun
    | ok empty => cases empty <;> simp [Functor.map, Except.map, Except.toOption]
  rw [filterM_eq_ok, List.filter_filter]
  simp only [tested, turned, List.mem_filter, Option.isNone_iff_eq_none, and_imp, AddsUp, refused]

/-- The first key that is found to be refused is named, if all the values can be added up. -/
theorem checkKeys_of_addsUp (summed : table.AddsUp) : table.checkKeys =
    table.refused.head?.elim (.ok ()) fun entry => .error (.unsupported entry.1) := by
  refine (bind_of_eq_ok (filterM_foreign.2 ⟨summed, rfl⟩)).trans ?_
  cases table.refused <;> rfl

theorem checkKeys_eq_ok : table.checkKeys = .ok () ↔
    ∀ entry ∈ table, entry.1.cone? = none → entry.2.isEmpty = .ok true := by
  constructor
  · intro accepted
    obtain ⟨_, filtered, _⟩ := bind_eq_ok.1 accepted
    obtain ⟨summed, _⟩ := filterM_foreign.1 filtered
    rw [checkKeys_of_addsUp summed] at accepted
    intro entry listed foreign
    obtain ⟨empty, found⟩ := summed entry listed foreign
    cases empty with
    | true => exact found
    | false =>
      obtain ⟨first, others, kept⟩ :=
        List.exists_cons_of_ne_nil (List.ne_nil_of_mem (mem_refused.2 ⟨listed, foreign, found⟩))
      rw [kept] at accepted
      cases accepted
  · intro empty
    have none : table.refused = [] := by
      refine List.eq_nil_iff_forall_not_mem.2 fun entry member => ?_
      obtain ⟨listed, foreign, found⟩ := mem_refused.1 member
      rw [empty entry listed foreign] at found
      cases found
    rw [checkKeys_of_addsUp fun entry listed foreign => ⟨true, empty entry listed foreign⟩, none]
    rfl

theorem blocks_perm (distinct : (table.map Prod.fst).Nodup) (same : other.Perm table)
    (success : table.blocks = .ok blocks) : other.blocks = .ok blocks := by
  have entries : other.get? = table.get? := funext fun cone => get?_perm distinct same
  obtain ⟨_, checked, rest⟩ := bind_eq_ok.1 success
  have checked' : other.checkKeys = .ok () :=
    checkKeys_eq_ok.2 fun entry listed => checkKeys_eq_ok.1 checked entry (same.mem_iff.1 listed)
  rw [← entries] at rest
  exact bind_eq_ok.2 ⟨(), checked', rest⟩

def values (table : ConeTable) (cone : Cone) : Except LayoutError (List Int) :=
  (table.get? cone).elim (.ok []) fun extent => extent.items.mapM Extent.toInteger

/--
The blocks are those of the table: in the solver's order, one for each dimension that is not zero,
on rows that follow one another from row zero. They tile just as many rows as they have, and stay
the same if the keys of the table are put in another order.
-/
structure IsLaidOut (table : ConeTable) (blocks : List Block) : Prop where
  start_eq : ∀ block ∈ blocks.head?, block.start = 0
  adjacent : Block.AreAdjacent blocks
  start_lt_stop : ∀ block ∈ blocks, block.start < block.stop
  ordered : Block.InSolverOrder blocks
  dim_pos : ∀ block ∈ blocks, 0 < block.dim
  rowCount_eq : ∀ block ∈ blocks, block.kind.rowCount block.dim = .ok block.size
  dims_eq : ∀ cone, ∃ values, table.values cone = .ok values ∧
    Block.dims cone blocks = values.filter (· ≠ 0)
  tiling_iff : ∀ rows : Int,
    Block.checkTiling blocks rows = .ok () ↔ rows = (blocks.map Block.size).sum
  blocks_perm : (table.map Prod.fst).Nodup → ∀ other : ConeTable, other.Perm table →
    other.blocks = .ok blocks

theorem inSolverOrder_of_blocks (success : table.blocks = .ok blocks) :
    Block.InSolverOrder blocks := by
  obtain ⟨parts, laid, lays⟩ := exists_parts success
  have cones : blocks.filterMap (·.kind.cone?) =
      (Cone.solverOrder.flatMap parts).filterMap (·.1.cone?) := by
    rw [← Block.kinds_of_layOut laid, List.filterMap_map]
    rfl
  have ranks (cone : Cone) : ∀ pair ∈ parts cone, ∀ found ∈ pair.1.cone?, found = cone := by
    intro pair listed found same
    rw [(lays cone).kind pair listed] at same
    exact (Option.some.inj same).symm
  rw [Block.InSolverOrder, cones, List.pairwise_filterMap, List.pairwise_flatMap]
  constructor
  · intro cone _
    refine List.pairwise_of_forall_mem_list fun pair listed next listed' => ?_
    intro found same found' same'
    rw [ranks cone pair listed found same, ranks cone next listed' found' same']
  · have sorted : Cone.solverOrder.Pairwise (·.rank ≤ ·.rank) := by decide
    refine sorted.imp fun below pair listed next listed' found same found' same' => ?_
    rwa [ranks _ pair listed found same, ranks _ next listed' found' same']

theorem dims_of_values (success : table.blocks = .ok blocks) (cone : Cone) :
    ∃ values, table.values cone = .ok values ∧ Block.dims cone blocks = values.filter (· ≠ 0) := by
  unfold values
  rcases dims_of_blocks success cone with ⟨absent, none⟩ | ⟨extent, values, present, reads, same⟩
  · exact ⟨[], by rw [absent]; rfl, none⟩
  · refine ⟨values, by rw [present]; exact reads.items, same.trans ?_⟩
    refine List.filter_congr fun dim listed => ?_
    have nonneg := reads.nonneg dim listed
    exact decide_eq_decide.2 ⟨ne_of_gt, fun nonzero => lt_of_le_of_ne nonneg (Ne.symm nonzero)⟩

/-- Whenever a table can be read, its blocks are laid out as described. -/
theorem isLaidOut_of_blocks (success : table.blocks = .ok blocks) : table.IsLaidOut blocks := by
  obtain ⟨dims, laid, positive⟩ := exists_layOut success
  obtain ⟨start, adjacent⟩ := Block.areAdjacent_of_layOut laid
  have accepted := Block.checkFrom_of_layOut (fun pair listed => (positive pair listed).le) laid
  have counted := Block.rowCount_of_checkFrom accepted
  have dim_pos : ∀ block ∈ blocks, 0 < block.dim := fun block => dim_pos_of_blocks success
  rw [Block.foldl_size, zero_add] at accepted
  exact {
    start_eq := start
    adjacent := adjacent
    start_lt_stop := fun block listed =>
      sub_pos.1 (Block.size_pos (dim_pos block listed) (counted block listed))
    ordered := inSolverOrder_of_blocks success
    dim_pos := dim_pos
    rowCount_eq := counted
    dims_eq := dims_of_values success
    tiling_iff := Block.checkTiling_iff accepted
    blocks_perm := fun distinct other same => blocks_perm distinct same success }

def shuffled : ConeTable := ofPairs
  [(.cone .semidefinite, .list [.integer 2, .integer 0, .text "1"]), (.other "ep", .integer 0),
    (.cone .zero, .flag true)]

def shuffledBlocks : List Block :=
  [⟨.cone .zero, 1, 0, 1⟩, ⟨.cone .semidefinite, 2, 1, 4⟩, ⟨.cone .semidefinite, 1, 4, 5⟩]

theorem blocks_shuffled : shuffled.blocks = .ok shuffledBlocks := by
  have two : (Kind.cone .semidefinite).rowCount 2 = .ok 3 :=
    rowCount_triangle (d := 2) (by decide)
  have one : (Kind.cone .semidefinite).rowCount 1 = .ok 1 :=
    rowCount_triangle (d := 1) (by decide)
  refine bind_eq_ok.2 ⟨(), rfl, bind_eq_ok.2 ⟨[[(.cone .zero, 1)], [], [], [],
    [(.cone .semidefinite, 2), (.cone .semidefinite, 1)]], rfl, ?_⟩⟩
  exact Block.layOut_cons_ok.2 ⟨1, _, rfl, Block.layOut_cons_ok.2 ⟨3, _, two,
    Block.layOut_cons_ok.2 ⟨1, _, one, rfl, rfl⟩, rfl⟩, rfl⟩

theorem isLaidOut_of_shuffled : shuffled.blocks = .ok shuffledBlocks ∧
    shuffled.IsLaidOut shuffledBlocks ∧ ConeTable.blocks shuffled.reverse = .ok shuffledBlocks := by
  have laidOut := isLaidOut_of_blocks blocks_shuffled
  exact ⟨blocks_shuffled, laidOut,
    laidOut.blocks_perm (nodup_ofPairs _) _ (List.reverse_perm _)⟩

end ConeTable

end ConicDerivative
