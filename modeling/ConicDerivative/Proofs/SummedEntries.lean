import ConicDerivative.Proofs.DoubleSums
import ConicDerivative.Proofs.DrawnPrograms

/-!
NaNs in the matrix of a program. The entries that are handed in are searched for a NaN before those
of one cell are added up, except for a listed matrix, which is summed as it is read. So a program can
hold a NaN that was not handed in, where the entries of one cell add up to one.
-/

namespace ConicDerivative

open Outcomes

namespace Double

/-- Two infinities on different sides of zero. -/
def Opposed (x y : Float) : Prop := x.isInf = true ∧ y.isInf = true ∧ side x ≠ side y

/-- A running total meets the infinity opposed to it. -/
def Clashes : Float → List Float → Prop
  | _, [] => False
  | total, x :: rest => Opposed total x ∨ Clashes (total + x) rest

/-- A total is a NaN if one of the doubles is, or if the total meets an infinity opposed to it. -/
theorem side_foldl_eq_none {total : Float} {rest : List Float} :
    side (rest.foldl (· + ·) total) = none ↔
      side total = none ∨ (∃ x ∈ rest, side x = none) ∨ Clashes total rest := by
  induction rest generalizing total with
  | nil => simp [Clashes]
  | cons x rest ih =>
    rw [List.foldl_cons, ih, side_add_eq_none, Clashes, List.exists_mem_cons_iff]
    grind [Opposed]

end Double

namespace Sparse

open Scalar

section

variable {α : Type} [Scalar α] {m n : Nat}

def onRow (column : List (Fin m × α)) (i : Fin m) : List α :=
  (column.filter (·.1 = i)).map (·.2)

theorem mem_collect {column : List (Fin m × α)} {i : Fin m} {v : α} : (i, v) ∈ collect column ↔
    ∃ first rest, onRow column i = first :: rest ∧ rest.foldl (· + ·) first = v := by
  unfold collect
  rw [List.mem_filterMap]
  constructor
  · rintro ⟨l, _, found⟩
    split at found
    · cases found
    · next first rest stored =>
      cases found
      exact ⟨first, rest, stored, rfl⟩
  · rintro ⟨first, rest, stored, rfl⟩
    unfold onRow at stored
    exact ⟨i, List.mem_finRange i, by rw [stored]⟩

omit [Scalar α] in
theorem mem_values {A : Sparse α m n} {v : α} :
    v ∈ A.values ↔ ∃ j, ∃ entry ∈ A.columns j, entry.2 = v := by
  unfold values
  rw [List.mem_flatMap]
  constructor
  · rintro ⟨column, stored, inside⟩
    obtain ⟨entry, member, same⟩ := List.mem_map.1 inside
    obtain ⟨j, bound, rfl⟩ := Vector.mem_iff_getElem.1 (Vector.mem_toList_iff.1 stored)
    exact ⟨⟨j, bound⟩, entry, member, same⟩
  · rintro ⟨j, entry, member, rfl⟩
    exact ⟨A.columns j, Vector.mem_toList_iff.2 (Vector.getElem_mem j.isLt),
      List.mem_map_of_mem member⟩

theorem hasNaN_iff {A : Sparse α m n} :
    A.hasNaN = true ↔ ∃ j, ∃ entry ∈ A.columns j, isNaN entry.2 = true := by
  unfold hasNaN
  rw [List.any_eq_true]
  constructor
  · rintro ⟨v, listed, undefined⟩
    obtain ⟨j, entry, member, rfl⟩ := mem_values.1 listed
    exact ⟨j, entry, member, undefined⟩
  · rintro ⟨j, entry, member, undefined⟩
    exact ⟨entry.2, mem_values.2 ⟨j, entry, member, rfl⟩, undefined⟩

def IsDistinct (A : Sparse α m n) : Prop := ∀ j, ((A.columns j).map (·.1)).Nodup

theorem columns_sumDuplicates (A : Sparse α m n) (j : Fin n) :
    A.sumDuplicates.columns j = collect (A.columns j) := Vec.map_apply ..

theorem columns_dropZeros (A : Sparse α m n) (j : Fin n) :
    A.dropZeros.columns j = (A.columns j).filter (!isZero ·.2) := Vec.map_apply ..

theorem pairwise_collect (column : List (Fin m × α)) :
    (collect column).Pairwise fun entry entry' => entry.1 < entry'.1 := by
  rw [collect, List.pairwise_filterMap]
  apply (List.pairwise_lt_finRange m).imp
  intro i l order entry found entry' found'
  have row : entry.1 = i := by
    split at found
    · cases found
    · cases found
      rfl
  have row' : entry'.1 = l := by
    split at found'
    · cases found'
    · cases found'
      rfl
  rw [row, row']
  exact order

theorem isDistinct_sumDuplicates (A : Sparse α m n) : A.sumDuplicates.IsDistinct := by
  intro j
  rw [columns_sumDuplicates, List.Nodup, List.pairwise_map]
  exact (pairwise_collect _).imp fun order => order.ne

omit [Scalar α] in
theorem onRow_of_isDistinct {A : Sparse α m n} (distinct : A.IsDistinct) {i : Fin m} {j : Fin n}
    {first : α} {rest : List α} (stored : onRow (A.columns j) i = first :: rest) : rest = [] := by
  have single := distinct j
  rw [List.Nodup, List.pairwise_map] at single
  have kept := single.filter (·.1 = i)
  have rows : ∀ entry ∈ (A.columns j).filter (·.1 = i), entry.1 = i := fun entry listed =>
    of_decide_eq_true (List.mem_filter.1 listed).2
  unfold onRow at stored
  generalize (A.columns j).filter (·.1 = i) = entries at kept rows stored
  rcases entries with _ | ⟨entry, _ | ⟨next, others⟩⟩
  · cases stored
  · cases stored
    rfl
  · have other := (List.pairwise_cons.1 kept).1 next List.mem_cons_self
    have same := rows next (List.mem_cons_of_mem _ List.mem_cons_self)
    exact absurd ((rows entry List.mem_cons_self).trans same.symm) other

end

variable {m n : Nat}

theorem hasNaN_sumDuplicates {A : Sparse Float m n} (clean : A.hasNaN = false) :
    A.sumDuplicates.hasNaN = true ↔ ∃ i j first rest,
      onRow (A.columns j) i = first :: rest ∧ Double.Clashes first rest := by
  rw [hasNaN_iff]
  have defined (i : Fin m) (j : Fin n) : ∀ v ∈ onRow (A.columns j) i, Double.side v ≠ none := by
    intro v listed undefined
    obtain ⟨entry, stored, rfl⟩ := List.mem_map.1 listed
    have found := hasNaN_iff.2
      ⟨j, entry, (List.mem_filter.1 stored).1, Double.isNaN_iff.2 undefined⟩
    rw [clean] at found
    cases found
  have total {i : Fin m} {j : Fin n} {first : Float} {rest : List Float}
      (stored : onRow (A.columns j) i = first :: rest) :
      Double.side (rest.foldl (· + ·) first) = none ↔ Double.Clashes first rest := by
    have plain := defined i j
    rw [stored, List.forall_mem_cons] at plain
    rw [Double.side_foldl_eq_none, or_iff_right plain.1, or_iff_right]
    rintro ⟨v, listed, undefined⟩
    exact plain.2 v listed undefined
  constructor
  · rintro ⟨j, ⟨i, v⟩, listed, undefined⟩
    rw [columns_sumDuplicates, mem_collect] at listed
    obtain ⟨first, rest, stored, rfl⟩ := listed
    exact ⟨i, j, first, rest, stored, (total stored).1 (Double.isNaN_iff.1 undefined)⟩
  · rintro ⟨i, j, first, rest, stored, clash⟩
    refine ⟨j, (i, rest.foldl (· + ·) first), ?_, Double.isNaN_iff.2 ((total stored).2 clash)⟩
    rw [columns_sumDuplicates, mem_collect]
    exact ⟨first, rest, stored, rfl⟩

theorem hasNaN_sumDuplicates_of_isDistinct {A : Sparse Float m n} (clean : A.hasNaN = false)
    (distinct : A.IsDistinct) : A.sumDuplicates.hasNaN = false := by
  rw [Bool.eq_false_iff, ne_eq, hasNaN_sumDuplicates clean]
  rintro ⟨i, j, first, rest, stored, clash⟩
  rw [onRow_of_isDistinct distinct stored] at clash
  exact clash

end Sparse

def Listed.cell {α : Type} {m n : Nat} (A : Listed α m n) (i : Fin m) (j : Fin n) : List α :=
  A.entries.filterMap fun entry => if entry.1 = i ∧ entry.2.1 = j then some entry.2.2 else none

theorem Listed.onRow_toSparse {α : Type} {m n : Nat} (A : Listed α m n) (i : Fin m)
    (j : Fin n) : Sparse.onRow (A.toSparse.columns j) i = A.cell i j := by
  rw [toSparse, Sparse.ofEntries, Vec.ofFn_apply, Sparse.onRow, cell, List.filter_filterMap,
    List.map_filterMap]
  congr 1
  funext entry
  by_cases column : entry.2.1 = j <;> by_cases row : entry.1 = i <;> simp [column, row]

/--
A matrix by columns or by rows in which the entries of one cell add up to a NaN: their running total
meets the infinity opposed to it.
-/
def Data.Clashes : Data Float → Prop
  | .dense _ => False
  | .sparse _ _ A => A.storage ≠ .listed ∧
    ∃ i j first rest, A.cell i j = first :: rest ∧ Double.Clashes first rest

theorem Stored.hasNaN_sumDuplicates {m n : Nat} {A : Stored Float m n}
    (clean : A.toSparse.hasNaN = false) :
    A.toSparse.sumDuplicates.hasNaN = true ↔ (Data.sparse m n A).Clashes := by
  by_cases listed : A.storage = .listed
  · have summed : A.toSparse = A.toListed.toSparse.sumDuplicates := by
      simp only [toSparse, listed]
    have distinct : A.toSparse.IsDistinct := summed ▸ Sparse.isDistinct_sumDuplicates _
    refine iff_of_false ?_ fun clashes => clashes.1 listed
    rw [Sparse.hasNaN_sumDuplicates_of_isDistinct clean distinct]
    exact Bool.false_ne_true
  · have kept : A.toSparse = A.toListed.toSparse := by
      unfold toSparse
      split
      · contradiction
      · rfl
      · rfl
    rw [kept] at clean ⊢
    rw [Sparse.hasNaN_sumDuplicates clean]
    simp only [Listed.onRow_toSparse, Data.Clashes, listed, ne_eq, not_false_eq_true, true_and]

namespace Program

section

variable {α : Type} [Scalar α] {A : Data α} {b c : Tensor α} {layout : Layout}
  {program : Program α}

theorem matrixOf_of_ofData (success : ofData A b c layout = .ok program) :
    matrixOf A = .ok ⟨program.A⟩ := by
  obtain ⟨matrix, read, rest⟩ := bind_eq_ok.1 success
  obtain ⟨_, _, rest⟩ := bind_eq_ok.1 rest
  obtain ⟨_, _, rest⟩ := bind_eq_ok.1 rest
  obtain ⟨_, _, rest⟩ := lift_bind_eq_ok.1 rest
  split at rest
  · cases rest
    exact read
  · cases rest

theorem exists_of_matrixOf {M : Sized (Sparse α)} (success : matrixOf A = .ok M) :
    ∃ given, A.toSparse = .ok given ∧ given.value.hasNaN = false ∧
      M = ⟨given.value.sumDuplicates.dropZeros⟩ := by
  obtain ⟨given, read, rest⟩ := bind_eq_ok.1 success
  cases undefined : given.value.hasNaN with
  | true =>
    rw [undefined] at rest
    cases rest
  | false =>
    rw [undefined] at rest
    exact ⟨given, read, undefined, (Except.ok.inj rest).symm⟩

end

variable {A : Data Float} {b c : Tensor Float} {layout : Layout} {program : Program Float}

end Program

end ConicDerivative
