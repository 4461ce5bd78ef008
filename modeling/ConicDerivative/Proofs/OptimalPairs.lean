import ConicDerivative.Proofs.ConeProducts
import ConicDerivative.Proofs.SelectedRows

/-!
Optimal pairs: a primal and a dual solution of a program over a product of cones. A pair of a part of
the rows, in any order, is one of all rows where the other ones carry their slack and no price.
-/

namespace ConicDerivative

open Scalar Matrix Loose

variable {m n k : Nat}

/-- The conditions of optimality for vectors given as lists, which have the lengths they must have. -/
structure OptimalPair (packing : Packing) (K : ConeProduct) (A : Sparse ℝ m n)
    (b c x y s : List ℝ) : Prop where
  columns : x.length = n
  prices : y.length = m
  slacks : s.length = m
  covers : K.rows = m
  primal : A.matrix *ᵥ entries n x + entries m s = entries m b
  dual : A.matrixᵀ *ᵥ entries m y + entries n c = 0
  slack_mem : K.Contains packing (entry s)
  price_mem : K.dual.Contains packing (entry y)
  complementary : entries m s ⬝ᵥ entries m y = 0

namespace OptimalPair

theorem equations_of_selected {A : Sparse ℝ m n} {S : Sparse ℝ k n} {e : Fin k → Fin m}
    (distinct : Function.Injective e) (rows : S.matrix = A.matrix.submatrix e id)
    {x : Fin n → ℝ} {c : Fin n → ℝ} {b y s : Fin m → ℝ} {b' y' s' : Fin k → ℝ}
    (primal : S.matrix *ᵥ x + s' = b') (dual : S.matrixᵀ *ᵥ y' + c = 0)
    (complementary : s' ⬝ᵥ y' = 0) (sides : ∀ i, b' i = b (e i)) (prices : ∀ i, y (e i) = y' i)
    (slacks : ∀ i, s (e i) = s' i) (unpriced : ∀ i ∉ Set.range e, y i = 0)
    (elsewhere : ∀ i ∉ Set.range e, s i = b i - (A.matrix *ᵥ x) i) :
    A.matrix *ᵥ x + s = b ∧ A.matrixᵀ *ᵥ y + c = 0 ∧ s ⬝ᵥ y = 0 := by
  refine ⟨?_, ?_, ?_⟩
  · funext i
    by_cases selected : i ∈ Set.range e
    · obtain ⟨l, rfl⟩ := selected
      have equation := congrFun primal l
      rw [rows, Pi.add_apply, sides] at equation
      rw [Pi.add_apply, slacks]
      exact equation
    · rw [Pi.add_apply, elsewhere i selected, add_sub_cancel]
  · rw [transpose_mulVec_of_selected distinct A.matrix prices unpriced, ← rows, dual]
  · rw [dotProduct_of_selected distinct slacks prices unpriced, complementary]

end OptimalPair

/-- The whole numbers of an entry of a table: one number of rows, or sizes one by one. -/
def Extent.sizes (extent : Extent) : List Nat :=
  extent.items.filterMap fun
    | .integer n => some n.toNat
    | _ => none

def Extent.IsPlain (cone : Cone) (extent : Extent) : Prop :=
  if cone.isListed then ∃ dims : List Int, extent = .list (dims.map .integer)
  else ∃ dim : Int, extent = .integer dim

namespace ConeTable

variable {table : ConeTable} {cone : Cone}

/-- The entries of all cones are whole numbers or lists of them, as the cone asks for. -/
def IsPlain (table : ConeTable) : Prop :=
  ∀ cone extent, table.get? cone = some extent → extent.IsPlain cone

def part (table : ConeTable) (cone : Cone) : ConeProduct :=
  ((table.get? cone).elim [] Extent.sizes).map (cone, ·)

def product (table : ConeTable) : ConeProduct := Cone.solverOrder.flatMap table.part

theorem product_eq (table : ConeTable) : table.product = table.part .zero ++ (table.part .free ++
    (table.part .nonnegative ++ (table.part .secondOrder ++ table.part .semidefinite))) := by
  simp [product, Cone.solverOrder]

theorem part_of_none (absent : table.get? cone = none) : table.part cone = [] := by
  rw [part, absent]
  rfl

theorem part_of_list {dims : List Int} (present : table.get? cone = some (.list (dims.map .integer))) :
    table.part cone = dims.map fun dim => (cone, dim.toNat) := by
  have sizes : (Extent.list (dims.map .integer)).sizes = dims.map Int.toNat := by
    clear present
    induction dims with
    | nil => rfl
    | cons dim dims ih => exact congrArg (dim.toNat :: ·) ih
  rw [part, present, Option.elim_some, sizes, List.map_map]
  rfl

theorem part_of_integer {dim : Int} (present : table.get? cone = some (.integer dim)) :
    table.part cone = [(cone, dim.toNat)] := by
  rw [part, present]
  rfl

theorem get?_erase {other : Cone} (different : cone ≠ other) :
    (table.erase other).get? cone = table.get? cone := by
  rw [get?, get?, erase, List.find?_filter]
  congr 2
  funext entry
  by_cases here : entry.1 = .cone cone
  · simp [here, different]
  · simp [here]

theorem get?_erase_self : (table.erase cone).get? cone = none := by
  rw [get?, erase, List.find?_filter, Option.map_eq_none_iff, List.find?_eq_none]
  intro entry _
  simp

theorem part_erase {other : Cone} (different : cone ≠ other) :
    (table.erase other).part cone = table.part cone := by
  rw [part, part, get?_erase different]

theorem product_erase_free (table : ConeTable) : (table.erase .free).product =
    table.part .zero ++ (table.part .nonnegative ++
      (table.part .secondOrder ++ table.part .semidefinite)) := by
  rw [product_eq, part_of_none get?_erase_self, List.nil_append,
    part_erase (by decide), part_erase (by decide), part_erase (by decide), part_erase (by decide)]

theorem IsPlain.erase (plain : table.IsPlain) (other : Cone) : (table.erase other).IsPlain := by
  intro cone extent present
  by_cases same : cone = other
  · subst same
    rw [get?_erase_self] at present
    cases present
  · rw [get?_erase same] at present
    exact plain cone extent present

theorem kind_of_mem_part {block : Cone × Nat} (listed : block ∈ table.part cone) :
    block.1 = cone := by
  obtain ⟨dim, _, rfl⟩ := List.mem_map.1 listed
  rfl

theorem kind_ne_of_mem_product {block : Cone × Nat} (empty : table.part cone = [])
    (listed : block ∈ table.product) : block.1 ≠ cone := by
  rintro rfl
  obtain ⟨other, _, stored⟩ := List.mem_flatMap.1 listed
  rw [← kind_of_mem_part stored, empty] at stored
  exact absurd stored List.not_mem_nil

end ConeTable

end ConicDerivative
