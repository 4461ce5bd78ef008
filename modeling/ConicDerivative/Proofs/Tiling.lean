import ConicDerivative.Projection
import ConicDerivative.Proofs.Outcomes
import ConicDerivative.Proofs.Reals

/-!
Blocks that tile the rows of a vector. Blocks that pass the check follow one another from row zero
to the last one, so every row lies in a block and a vector is known from its runs of rows.
-/

namespace ConicDerivative

open Scalar Outcomes

theorem Kind.exists_cone {kind : Kind} {dim size : Int} (counted : kind.rowCount dim = .ok size) :
    ∃ cone, kind = .cone cone := by
  cases kind with
  | cone cone => exact ⟨cone, rfl⟩
  | other | literal | unnamed => cases counted

namespace Block

variable {blocks rest : List Block} {block : Block} {offset stop : Int}

theorem checkFrom_cons (block : Block) (rest : List Block) (offset : Int) :
    checkFrom (block :: rest) offset =
      if block.start ≠ offset then .error (.misplaced block offset)
      else if block.stop < block.start then .error (.negativeSize block)
      else block.kind.rowCount block.dim >>= fun expected =>
        if block.size ≠ expected then .error (.wrongSpan block expected)
        else checkFrom rest block.stop := by
  rw [checkFrom]
  split_ifs <;> rfl

theorem checkFrom_cons_ok : checkFrom (block :: rest) offset = .ok stop ↔
    block.start = offset ∧ block.start ≤ block.stop ∧
      block.kind.rowCount block.dim = .ok block.size ∧ checkFrom rest block.stop = .ok stop := by
  rw [checkFrom_cons]
  split_ifs with moved negative
  · simp [moved]
  · simp [negative]
  · rw [bind_eq_ok]
    constructor
    · rintro ⟨expected, counted, accepted⟩
      split_ifs at accepted with same
      exact ⟨not_not.1 moved, not_lt.1 negative, by rw [counted, not_not.1 same], accepted⟩
    · rintro ⟨_, _, counted, accepted⟩
      exact ⟨block.size, counted, by simpa using accepted⟩

theorem checkTiling_eq (blocks : List Block) (rows : Int) :
    checkTiling blocks rows = checkFrom blocks 0 >>= fun covered =>
      if covered ≠ rows then .error (.wrongTotal covered rows) else .ok () := by
  rw [checkTiling]
  congr 1

theorem checkTiling_ok {rows : Int} :
    checkTiling blocks rows = .ok () ↔ checkFrom blocks 0 = .ok rows := by
  rw [checkTiling_eq, bind_eq_ok]
  constructor
  · rintro ⟨covered, accepted, total⟩
    split_ifs at total with same
    rw [accepted, not_not.1 same]
  · intro accepted
    exact ⟨rows, accepted, by simp⟩

theorem bounds_of_checkFrom (accepted : checkFrom blocks offset = .ok stop) :
    offset ≤ stop ∧
      ∀ block ∈ blocks, offset ≤ block.start ∧ block.start ≤ block.stop ∧ block.stop ≤ stop := by
  induction blocks generalizing offset with
  | nil =>
    rw [checkFrom, Except.ok.injEq] at accepted
    exact ⟨accepted.le, fun block listed => absurd listed List.not_mem_nil⟩
  | cons first rest ih =>
    obtain ⟨start, order, _, accepted⟩ := checkFrom_cons_ok.1 accepted
    obtain ⟨below, inside⟩ := ih accepted
    refine ⟨by omega, ?_⟩
    intro block listed
    rcases List.mem_cons.1 listed with same | later
    · subst same
      omega
    · have bounds := inside block later
      omega

theorem rowCount_of_checkFrom (accepted : checkFrom blocks offset = .ok stop) :
    ∀ block ∈ blocks, block.kind.rowCount block.dim = .ok block.size := by
  induction blocks generalizing offset with
  | nil => exact fun block listed => absurd listed List.not_mem_nil
  | cons first rest ih =>
    obtain ⟨_, _, counted, accepted⟩ := checkFrom_cons_ok.1 accepted
    exact List.forall_mem_cons.2 ⟨counted, ih accepted⟩

theorem exists_of_checkFrom (accepted : checkFrom blocks offset = .ok stop) {row : Int}
    (above : offset ≤ row) (below : row < stop) :
    ∃ block ∈ blocks, block.start ≤ row ∧ row < block.stop := by
  induction blocks generalizing offset with
  | nil =>
    rw [checkFrom, Except.ok.injEq] at accepted
    omega
  | cons first rest ih =>
    obtain ⟨start, _, _, accepted⟩ := checkFrom_cons_ok.1 accepted
    by_cases here : row < first.stop
    · exact ⟨first, List.mem_cons_self, by omega, here⟩
    · obtain ⟨block, listed, inside⟩ := ih accepted (not_lt.1 here)
      exact ⟨block, List.mem_cons_of_mem _ listed, inside⟩

end Block

namespace Vec

variable {α : Type} {k l n : Nat}

theorem slice_apply (x : Vector α n) (s : Span n) (i : Fin s.size) : slice x s i = x (s.index i) :=
  ofFn_apply ..

theorem Span.index_offset (s : Span n) (i : Fin n) (inside : s.Contains i) :
    s.index (s.offset i inside) = i := by
  obtain ⟨above, _⟩ := inside
  apply Fin.ext
  simp only [Span.index, Span.offset]
  omega

theorem Span.contains_index (s : Span n) (i : Fin s.size) : s.Contains (s.index i) := by
  have bound := i.isLt
  simp only [Span.size] at bound
  simp only [Span.Contains, Span.index]
  omega

theorem overwrite_of_contains {x : Vector α n} {s : Span n} {w : Vector α s.size} {i : Fin n}
    (inside : s.Contains i) : overwrite x s w i = w (s.offset i inside) := by
  rw [overwrite, ofFn_apply, dif_pos inside]

theorem overwrite_of_not_contains {x : Vector α n} {s : Span n} {w : Vector α s.size} {i : Fin n}
    (outside : ¬s.Contains i) : overwrite x s w i = x i := by
  rw [overwrite, ofFn_apply, dif_neg outside]

theorem slice_overwrite (x : Vector α n) (s : Span n) (w : Vector α s.size) :
    slice (overwrite x s w) s = w := by
  apply ext
  intro i
  rw [slice_apply, overwrite_of_contains (s.contains_index i)]
  congr 1
  apply Fin.ext
  simp only [Span.offset, Span.index]
  omega

def window (x : Vector α n) (start size : Nat) (fits : start + size ≤ n) : Vector α size :=
  Vector.ofFn fun i => x ⟨start + i, by omega⟩

theorem window_apply (x : Vector α n) (start size : Nat) (fits : start + size ≤ n) (i : Fin size) :
    window x start size fits i = x ⟨start + i, by omega⟩ := ofFn_apply ..

theorem window_zero (x : Vector α n) (fits : 0 + n ≤ n) : window x 0 n fits = x := by
  apply ext
  intro i
  rw [window_apply]
  congr 1
  exact Fin.ext (Nat.zero_add i.val)

theorem left_window (x : Vector α n) (start : Nat) (fits : start + (k + l) ≤ n) :
    left (window x start (k + l) fits) = window x start k (by omega) := by
  apply ext
  intro i
  rw [left_apply, window_apply, window_apply]
  rfl

theorem right_window (x : Vector α n) (start : Nat) (fits : start + (k + l) ≤ n) :
    right (window x start (k + l) fits) = window x (start + k) l (by omega) := by
  apply ext
  intro i
  rw [right_apply, window_apply, window_apply]
  congr 1
  exact Fin.ext (Nat.add_assoc start k i).symm

theorem slice_eq_window (x : Vector α n) (s : Span n) {start : Nat} (same : s.start = start)
    (fits : start + s.size ≤ n) : slice x s = window x start s.size fits := by
  subst same
  apply ext
  intro i
  rw [slice_apply, window_apply]
  rfl

end Vec

namespace Block

variable {blocks : List Block} {block : Block} {n : Nat}

theorem span_eq (nonneg : 0 ≤ block.start) (order : block.start ≤ block.stop)
    (inside : block.stop ≤ n) :
    ((block.span n).start : Int) = block.start ∧ ((block.span n).stop : Int) = block.stop := by
  simp only [span, Vec.Span.between, Vec.Span.edge]
  split_ifs <;> omega

theorem span_size (nonneg : 0 ≤ block.start) (order : block.start ≤ block.stop)
    (inside : block.stop ≤ n) : ((block.span n).size : Int) = block.size := by
  obtain ⟨start, stop⟩ := span_eq nonneg order inside
  have := (block.span n).start_le
  simp only [Vec.Span.size, size]
  omega

theorem span_of_tiling (tiling : checkTiling blocks n = .ok ()) (listed : block ∈ blocks) :
    ((block.span n).start : Int) = block.start ∧ ((block.span n).stop : Int) = block.stop := by
  obtain ⟨_, inside⟩ := bounds_of_checkFrom (checkTiling_ok.1 tiling)
  obtain ⟨nonneg, order, below⟩ := inside block listed
  exact span_eq nonneg order below

theorem exists_span_contains (tiling : checkTiling blocks n = .ok ()) (i : Fin n) :
    ∃ block ∈ blocks, (block.span n).Contains i := by
  have above : (0 : Int) ≤ i.val := by omega
  have below : (i.val : Int) < n := by omega
  obtain ⟨block, listed, above, below⟩ := exists_of_checkFrom (checkTiling_ok.1 tiling) above below
  obtain ⟨start, stop⟩ := span_of_tiling tiling listed
  exact ⟨block, listed, by simp only [Vec.Span.Contains]; omega⟩

theorem ext_slices {α : Type} {x y : Vector α n} (tiling : checkTiling blocks n = .ok ())
    (same : ∀ block ∈ blocks, Vec.slice x (block.span n) = Vec.slice y (block.span n)) : x = y := by
  apply Vec.ext
  intro i
  obtain ⟨block, listed, inside⟩ := exists_span_contains tiling i
  have entry := congrArg (fun part : Vector α (block.span n).size =>
    part ((block.span n).offset i inside)) (same block listed)
  simp only [Vec.slice_apply, Vec.Span.index_offset] at entry
  exact entry

end Block

theorem Vec.Span.sum_index {n : Nat} (s : Span n) (f : Fin n → ℝ) :
    ∑ j, f (s.index j) = ∑ i, if s.Contains i then f i else 0 := by
  rw [← Finset.sum_filter]
  refine Finset.sum_bij' (fun j _ => s.index j)
    (fun i listed => s.offset i (Finset.mem_filter.1 listed).2) ?_ ?_ ?_ ?_ ?_
  · intro j _
    exact Finset.mem_filter.2 ⟨Finset.mem_univ _, s.contains_index j⟩
  · intro i _
    exact Finset.mem_univ _
  · intro j _
    apply Fin.ext
    simp only [offset, index]
    omega
  · intro i listed
    exact s.index_offset i (Finset.mem_filter.1 listed).2
  · intro j _
    rfl

namespace Block

variable {blocks : List Block} {offset stop : Int} {n : Nat}

theorem sum_spans_of_checkFrom (accepted : checkFrom blocks offset = .ok stop) (nonneg : 0 ≤ offset)
    (below : stop ≤ n) (f : Fin n → ℝ) :
    (blocks.map fun block => ∑ j, f ((block.span n).index j)).sum =
      ∑ i : Fin n, if offset ≤ i.val ∧ i.val < stop then f i else 0 := by
  induction blocks generalizing offset with
  | nil =>
    rw [checkFrom, Except.ok.injEq] at accepted
    subst accepted
    refine (Finset.sum_eq_zero fun i _ => if_neg ?_).symm
    omega
  | cons block rest ih =>
    obtain ⟨place, order, _, accepted⟩ := checkFrom_cons_ok.1 accepted
    obtain ⟨last, _⟩ := bounds_of_checkFrom accepted
    obtain ⟨first, past⟩ := span_eq (n := n) (by omega) order (by omega)
    rw [List.map_cons, List.sum_cons, ih accepted (by omega), Vec.Span.sum_index,
      ← Finset.sum_add_distrib]
    apply Finset.sum_congr rfl
    intro i _
    have whole : (offset ≤ i.val ∧ i.val < stop) ↔
        (block.span n).Contains i ∨ (block.stop ≤ i.val ∧ i.val < stop) := by
      simp only [Vec.Span.Contains]
      omega
    by_cases here : (block.span n).Contains i
    · have after : ¬(block.stop ≤ i.val ∧ i.val < stop) := by
        simp only [Vec.Span.Contains] at here
        omega
      rw [if_pos here, if_neg after, if_pos (whole.2 (.inl here)), add_zero]
    · simp only [whole, here, false_or, if_false, zero_add]

theorem sum_spans (tiling : checkTiling blocks n = .ok ()) (f : Fin n → ℝ) :
    (blocks.map fun block => ∑ j, f ((block.span n).index j)).sum = ∑ i, f i := by
  rw [sum_spans_of_checkFrom (checkTiling_ok.1 tiling) le_rfl le_rfl]
  apply Finset.sum_congr rfl
  intro i _
  exact if_pos (by omega)

theorem sum_sizes (tiling : checkTiling blocks n = .ok ()) :
    (blocks.map fun block => (block.span n).size).sum = n := by
  have counted := sum_spans tiling fun _ => 1
  simp only [Finset.sum_const, Finset.card_univ, Fintype.card_fin, nsmul_one] at counted
  rw [← Nat.cast_inj (R := ℝ), Nat.cast_list_sum, List.map_map]
  exact counted

/-- An inner product is the sum of those of the runs of rows. -/
theorem dot_slices (tiling : checkTiling blocks n = .ok ()) (x y : Vector ℝ n) :
    (blocks.map fun block =>
      (Vec.slice x (block.span n)).get ⬝ᵥ (Vec.slice y (block.span n)).get).sum =
        x.get ⬝ᵥ y.get := by
  rw [dotProduct, ← sum_spans tiling]
  congr 1
  apply List.map_congr_left
  intro block _
  exact Finset.sum_congr rfl fun j _ => by rw [Vec.slice_apply, Vec.slice_apply]

end Block

end ConicDerivative
