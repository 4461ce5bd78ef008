import ConicDerivative.Proofs.JoinedProducts
import ConicDerivative.Proofs.RereadTables
import ConicDerivative.Proofs.TableLayouts

/-!
Block lists written as a table and read back. In the solver's order nothing is lost but the borders
between adjacent runs of one kind: the blocks that are read have the same table again, and the same
projection and derivative. Out of that order there is no table.
-/

namespace ConicDerivative

open Outcomes

namespace ConeTable

variable {cone : Cone}

theorem insert_insert (table : ConeTable) (kind : Kind) (first second : Extent) :
    (table.insert kind first).insert kind second = table.insert kind second := by
  by_cases present : table.any (·.1 = kind)
  · have still : (table.map fun entry =>
        if entry.1 = kind then (kind, first) else entry).any (·.1 = kind) = true := by
      obtain ⟨entry, listed, here⟩ := List.any_eq_true.1 present
      exact List.any_eq_true.2 ⟨_, List.mem_map_of_mem listed, by simp [of_decide_eq_true here]⟩
    unfold insert
    rw [if_pos present, if_pos still, if_pos present, List.map_map]
    refine List.map_congr_left fun entry _ => ?_
    by_cases here : entry.1 = kind <;> simp [here]
  · have absent : ∀ entry ∈ table, entry.1 ≠ kind := by
      intro entry listed here
      exact present (List.any_eq_true.2 ⟨entry, listed, decide_eq_true here⟩)
    have added : (table ++ [(kind, first)]).any (·.1 = kind) = true := by simp
    have kept : (table.map fun entry => if entry.1 = kind then (kind, second) else entry) = table :=
      (List.map_congr_left fun entry listed => if_neg (absent entry listed)).trans (List.map_id _)
    unfold insert
    rw [if_neg present, if_pos added, if_neg present, List.map_append, kept]
    simp

theorem addBlock_addBlock (run : cone.isListed = false) (table : ConeTable) (first second : Int) :
    (table.addBlock cone first).addBlock cone second = table.addBlock cone (first + second) := by
  obtain ⟨count, added, joined⟩ : ∃ count,
      table.addBlock cone first = table.insert (.cone cone) (.integer (count + first)) ∧
        table.addBlock cone (first + second) =
          table.insert (.cone cone) (.integer (count + (first + second))) := by
    unfold addBlock
    rw [run]
    cases table.get? cone with
    | none => exact ⟨0, by simp, by simp⟩
    | some extent =>
      cases extent with
      | integer count => exact ⟨count, rfl, rfl⟩
      | real | flag | text | absent | list => exact ⟨0, by simp, by simp⟩
  have present : (table.addBlock cone first).get? cone = some (.integer (count + first)) := by
    rw [added, get?_insert, if_pos rfl]
  rw [joined, addBlock, present, run, added, insert_insert]
  simp [add_assoc]

theorem foldl_merge (K : ConeProduct) (table : ConeTable) :
    (ConeProduct.merge K).foldl (fun table block => table.addBlock block.1 block.2) table =
      K.foldl (fun table block => table.addBlock block.1 block.2) table := by
  induction K generalizing table with
  | nil => rfl
  | cons block K ih =>
    rw [ConeProduct.merge_cons, List.foldl_cons, ← ih]
    cases ConeProduct.merge K with
    | nil => rfl
    | cons next rest =>
      by_cases joined : block.1 = next.1 ∧ block.1.isListed = false
      · obtain ⟨same, run⟩ := joined
        rw [ConeProduct.join, if_pos ⟨same, run⟩, List.foldl_cons, List.foldl_cons, ← same,
          addBlock_addBlock run, Nat.cast_add]
      · rw [ConeProduct.join, if_neg joined, List.foldl_cons]

theorem ofProduct_merge (K : ConeProduct) : ofProduct (ConeProduct.merge K) = ofProduct K := foldl_merge K []

end ConeTable

namespace Block

variable {blocks : List Block}

/--
The blocks have a table. It is read as the same blocks with adjacent runs joined, and these have the
same table, projection and derivative.
-/
structure RoundTrips (blocks : List Block) (table : ConeTable) : Prop where
  written : ConeTable.ofBlocks blocks = .ok table
  read : table.blocks = .ok (merge blocks)
  rewritten : ConeTable.ofBlocks (merge blocks) = .ok table
  project_eq : ∀ {α : Type} [Scalar α] [EigenSolver α] {n : Nat} (x : Vector α n) (dual : Bool),
    ProductCone.project (merge blocks) x dual = ProductCone.project blocks x dual
  derivativeMatrix_eq : ∀ {α : Type} [Scalar α] [EigenSolver α] {n : Nat} (x : Vector α n)
    (dual : Bool),
    ProductCone.derivativeMatrix (merge blocks) x dual = ProductCone.derivativeMatrix blocks x dual

theorem exists_roundTrips {pairs : List (Kind × Int)} (positive : ∀ pair ∈ pairs, 0 < pair.2)
    (laid : layOut pairs 0 = .ok blocks) (ordered : InSolverOrder blocks) :
    ∃ table, RoundTrips blocks table := by
  have accepted := checkFrom_of_layOut (fun pair listed => (positive pair listed).le) laid
  have dim_pos : ∀ block ∈ blocks, 0 < block.dim := fun block listed =>
    positive _ (kind_mem_of_layOut laid listed)
  obtain ⟨K, same⟩ := exists_dims accepted fun block listed => (dim_pos block listed).le
  have sorted := ordered
  rw [InSolverOrder, cones_of_dims same] at sorted
  rw [← kinds_of_layOut laid, same] at laid
  have whole : blocks.filter (0 < ·.dim) = blocks :=
    List.filter_eq_self.2 fun block listed => decide_eq_true (dim_pos block listed)
  have read := ConeTable.blocks_ofProduct sorted laid
  rw [whole] at read
  have same' := kinds_of_layOut (layOut_merge laid)
  have sorted' := ConeTable.inSolverOrder_of_blocks read
  rw [InSolverOrder, cones_of_dims same'] at sorted'
  refine ⟨ConeTable.ofProduct K, ConeTable.ofBlocks_ok same sorted, read, ?_, ?_, ?_⟩
  · rw [ConeTable.ofBlocks_ok same' sorted', ConeTable.ofProduct_merge]
  · intro α _ _ n x dual
    exact ProductCone.project_merge accepted le_rfl x dual
  · intro α _ _ n x dual
    exact ProductCone.derivativeMatrix_merge accepted le_rfl x dual

/--
Blocks of cones that are laid out in the solver's order, none of them of dimension zero, go through a
table and back. Blocks of cones out of that order have no table.
-/
theorem roundTrips_or_outOfOrder (kinds : ∀ block ∈ blocks, ∃ cone, block.kind = .cone cone) :
    (InSolverOrder blocks → ∀ pairs : List (Kind × Int), (∀ pair ∈ pairs, 0 < pair.2) →
      layOut pairs 0 = .ok blocks → ∃ table, RoundTrips blocks table) ∧
    (¬InSolverOrder blocks → ConeTable.ofBlocks blocks = .error .outOfOrder) := by
  refine ⟨fun ordered pairs positive laid => exists_roundTrips positive laid ordered, ?_⟩
  intro disordered
  obtain ⟨cones, same⟩ := exists_cones_of_kinds kinds
  rw [InSolverOrder, cones_of_pairs same] at disordered
  rw [ConeTable.ofBlocks_eq same, if_neg disordered]

def boundsAndCones : List Block :=
  [⟨.cone .nonnegative, 1, 0, 1⟩, ⟨.cone .nonnegative, 2, 1, 3⟩, ⟨.cone .secondOrder, 2, 3, 5⟩,
    ⟨.cone .secondOrder, 1, 5, 6⟩]

def boundAndEquation : List Block := [⟨.cone .nonnegative, 2, 0, 2⟩, ⟨.cone .zero, 1, 2, 3⟩]

theorem roundTrips_boundsAndCones :
    (∃ table, RoundTrips boundsAndCones table ∧ table.blocks = .ok [⟨.cone .nonnegative, 3, 0, 3⟩,
      ⟨.cone .secondOrder, 2, 3, 5⟩, ⟨.cone .secondOrder, 1, 5, 6⟩]) ∧
    ConeTable.ofBlocks boundAndEquation = .error .outOfOrder := by
  have kinds : ∀ block ∈ boundsAndCones, ∃ cone, block.kind = .cone cone := by
    simp [boundsAndCones]
  have kinds' : ∀ block ∈ boundAndEquation, ∃ cone, block.kind = .cone cone := by
    simp [boundAndEquation]
  have ordered : InSolverOrder boundsAndCones := by
    unfold InSolverOrder boundsAndCones
    decide
  have disordered : ¬InSolverOrder boundAndEquation := by
    unfold InSolverOrder boundAndEquation
    decide
  have laid : layOut (boundsAndCones.map fun block => (block.kind, block.dim)) 0 =
      .ok boundsAndCones := rfl
  obtain ⟨table, trips⟩ := (roundTrips_or_outOfOrder kinds).1 ordered _ (by decide) laid
  exact ⟨⟨table, trips, trips.read⟩, (roundTrips_or_outOfOrder kinds').2 disordered⟩

end Block

end ConicDerivative
