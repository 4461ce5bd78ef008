import ConicDerivative.Proofs.FreeRows
import ConicDerivative.Proofs.SolverAnswers

/-!
A solver that takes equations apart from inequalities. The first rows become equations, which have a
price and no slack. The slack of all rows is found again from the point, and it is the solver's own
slack where the solver has one.
-/

namespace ConicDerivative

open Scalar Matrix Outcomes Loose Consulting

variable {m n p q : Nat}

theorem Loose.entry_take {v : List ℝ} {k i : Nat} (inside : i < k) :
    entry (v.take k) i = entry v i := by
  rw [entry, entry, List.getD_eq_getElem?_getD, List.getElem?_take_of_lt inside,
    List.getD_eq_getElem?_getD]

theorem Loose.entry_drop (v : List ℝ) (k i : Nat) : entry (v.drop k) i = entry v (k + i) := by
  rw [entry, entry, List.getD_eq_getElem?_getD, List.getElem?_drop, List.getD_eq_getElem?_getD]

section

variable {e : Fin p → Fin m} {g : Fin q → Fin m}

theorem dotProduct_of_runs (whole : p + q = m) (first : ∀ i, (e i : Nat) = i)
    (last : ∀ i, (g i : Nat) = p + i) (u w : Fin m → ℝ) :
    u ⬝ᵥ w = (u ∘ e) ⬝ᵥ (w ∘ e) + (u ∘ g) ⬝ᵥ (w ∘ g) := by
  subst whole
  obtain rfl : e = Fin.castAdd q := funext fun i => Fin.ext (first i)
  obtain rfl : g = Fin.natAdd p := funext fun i => Fin.ext (last i)
  simp only [dotProduct, Fin.sum_univ_add, Function.comp_apply]

theorem transpose_mulVec_of_runs (whole : p + q = m) (first : ∀ i, (e i : Nat) = i)
    (last : ∀ i, (g i : Nat) = p + i) (M : Matrix (Fin m) (Fin n) ℝ) (w : Fin m → ℝ) :
    Mᵀ *ᵥ w = (M.submatrix e id)ᵀ *ᵥ (w ∘ e) + (M.submatrix g id)ᵀ *ᵥ (w ∘ g) := by
  funext j
  exact dotProduct_of_runs whole first last _ w

/-- Equations and inequalities, solved together, make an optimal pair of all rows. -/
theorem OptimalPair.of_runs {A : Sparse ℝ m n} {E : Sparse ℝ p n} {G : Sparse ℝ q n}
    {Z L : ConeProduct} {b c x y z s t : List ℝ} (whole : p + q = m)
    (first : ∀ i, (e i : Nat) = i) (last : ∀ i, (g i : Nat) = p + i)
    (upper : E.matrix = A.matrix.submatrix e id) (lower : G.matrix = A.matrix.submatrix g id)
    (zeros : ∀ block ∈ Z, block.1 = .zero) (sizes : Z.rows = p ∧ L.rows = q)
    (lengths : x.length = n ∧ y.length = p ∧ z.length = q ∧ s.length = m)
    (slack : ∀ i : Fin m, entry s i = entry b i - (A.matrix *ᵥ entries n x) i)
    (equations : ∀ i : Fin p, (E.matrix *ᵥ entries n x) i = entry b i)
    (inequalities : ∀ i : Fin q, (G.matrix *ᵥ entries n x) i + entry t i = entry b (p + i))
    (dual : E.matrixᵀ *ᵥ entries p y + G.matrixᵀ *ᵥ entries q z + entries n c = 0)
    (slack_mem : L.Contains .lower (entry t)) (price_mem : L.dual.Contains .lower (entry z))
    (complementary : entries q t ⬝ᵥ entries q z = 0) :
    OptimalPair .lower (Z ++ L) A b c x (y ++ z) s := by
  obtain ⟨columns, prices, prices', slacks⟩ := lengths
  obtain ⟨rfl, rfl⟩ := sizes
  have none (i : Fin Z.rows) : entry s i = 0 := by
    rw [← first, slack, first, ← equations, upper]
    exact sub_self _
  have same (i : Fin L.rows) : entry s (Z.rows + i) = entry t i := by
    rw [← last, slack, last, ← inequalities, lower]
    exact add_sub_cancel_left _ _
  have price (i : Fin Z.rows) : entry (y ++ z) i = entry y i :=
    entry_append_left (prices.symm ▸ i.isLt)
  have price' (i : Nat) : entry (y ++ z) (Z.rows + i) = entry z i := by
    rw [← prices]
    exact entry_append_right y z i
  refine ⟨columns, ?_, slacks, ?_, ?_, ?_, ?_, ?_, ?_⟩
  · rw [List.length_append, prices, prices', whole]
  · rw [ConeProduct.rows_append, whole]
  · funext i
    rw [Pi.add_apply, entries, entries, slack, add_sub_cancel]
  · have upperPrices : entries m (y ++ z) ∘ e = entries Z.rows y := by
      funext i
      rw [Function.comp_apply, entries, first, price, entries]
    have lowerPrices : entries m (y ++ z) ∘ g = entries L.rows z := by
      funext i
      rw [Function.comp_apply, entries, last, price', entries]
    rw [transpose_mulVec_of_runs whole first last, upperPrices, lowerPrices, ← upper, ← lower, dual]
  · refine ConeProduct.contains_append.2 ⟨?_, slack_mem.of_eq fun i bound => ?_⟩
    · exact ConeProduct.contains_zero zeros fun i bound => none ⟨i, bound⟩
    · exact (same ⟨i, bound⟩).symm
  · rw [ConeProduct.dual_append]
    refine ConeProduct.contains_append.2 ⟨ConeProduct.contains_free ?_ _, ?_⟩
    · intro block listed
      obtain ⟨⟨cone, dim⟩, stored, rfl⟩ := List.mem_map.1 listed
      obtain rfl : cone = .zero := zeros _ stored
      rfl
    · rw [ConeProduct.rows_dual]
      exact price_mem.of_eq fun i _ => (price' i).symm
  · rw [dotProduct_of_runs whole first last, ← complementary]
    have vanish : entries m s ∘ e = 0 := by
      funext i
      rw [Function.comp_apply, entries, first, none, Pi.zero_apply]
    rw [vanish, zero_dotProduct, zero_add]
    congr 1
    · funext i
      rw [Function.comp_apply, entries, last, same, entries]
    · funext i
      rw [Function.comp_apply, entries, last, price', entries]

end

namespace Ecos

variable {table : ConeTable} {solvers : Solvers ℝ} {constraints : Constraints ℝ n} {c : List ℝ}

theorem equations_ok (plain : table.IsPlain) (rows sides : Nat) :
    equations table rows sides = (.ok table.equationRows : Outcome ℝ Nat) := by
  unfold equations
  cases present : table.get? .zero with
  | none =>
    rw [ConeTable.equationRows, ConeTable.part_of_none present]
    rfl
  | some extent =>
    obtain ⟨dim, rfl⟩ : ∃ dim : Int, extent = .integer dim := plain .zero extent present
    rw [ConeTable.equationRows, ConeTable.part_of_integer present]
    rfl

theorem part_of_hasSemidefinite (none : hasSemidefinite table = false) :
    table.part .semidefinite = [] := by
  unfold hasSemidefinite at none
  split at none
  · next absent => exact ConeTable.part_of_none absent
  · next empty =>
    rw [ConeTable.part, empty]
    rfl
  · cases none

theorem inequalityCones_ok (plain : table.IsPlain) : inequalityCones table =
    (.ok ((table.get? .nonnegative).toList.map (.cone .nonnegative, ·) ++
      (table.get? .secondOrder).toList.map (.cone .secondOrder, ·)) : Outcome ℝ ConeTable) := by
  unfold inequalityCones
  cases listed : table.get? .secondOrder with
  | none => cases table.get? .nonnegative <;> rfl
  | some extent =>
    obtain ⟨dims, rfl⟩ : ∃ dims : List Int, extent = .list (dims.map .integer) :=
      plain .secondOrder extent listed
    cases table.get? .nonnegative <;> rfl

theorem product_inequalityCones {cones : ConeTable} (plain : table.IsPlain)
    (success : inequalityCones table = (.ok cones : Outcome ℝ ConeTable)) :
    cones.product = table.part .nonnegative ++ table.part .secondOrder := by
  obtain rfl := Except.ok.inj ((inequalityCones_ok plain).symm.trans success)
  rw [ConeTable.product_eq]
  simp only [ConeTable.part]
  cases table.get? .nonnegative <;> cases table.get? .secondOrder <;>
    simp [ConeTable.get?]

theorem quiet_accept {α : Type} (flag : Int) : Quiet (accept flag : Consulting α String) := by
  unfold accept
  split_ifs
  · exact quiet_pure _
  · exact quiet_bind (quiet_warn _) fun _ => quiet_pure _
  · exact quiet_throw _
  · split
    · exact quiet_throw _
    · exact quiet_throw _

theorem succeeds_accept {flag : Int} (accepted : flag = 0 ∨ flag = 10) :
    Succeeds (accept flag : Consulting ℝ String) fun _ => True := by
  unfold accept
  split_ifs with exact inaccurate
  · exact succeeds_pure trivial
  · exact (succeeds_warn _).bind fun _ _ => succeeds_pure trivial
  · exact absurd accepted (not_or.2 ⟨exact, inaccurate⟩)
  · exact absurd accepted (not_or.2 ⟨exact, inaccurate⟩)

section

variable {E : Sparse ℝ p n} {G : Sparse ℝ q n} {present : Prop} [Decidable present]

theorem elim_rows (empty : ¬present → p = 0) :
    ((if present then some E else none).elim 0 fun _ => p) = p := by
  split_ifs with some
  · rfl
  · exact (empty some).symm

theorem elim_transpose_mulVec (empty : ¬present → p = 0) (y : List ℝ) :
    ((if present then some E else none).elim 0 fun E => E.matrixᵀ *ᵥ entries p y) =
      E.matrixᵀ *ᵥ entries p y := by
  split_ifs with some
  · rfl
  · obtain rfl := empty some
    funext j
    exact (Fin.sum_univ_zero fun i => E.matrixᵀ j i * entries 0 y i).symm

/-- What is known of an answer, where a part without rows is missing or not. -/
theorem runs_of_solves {count : Nat} {b t : List ℝ} {cones : ConeTable} {settings : Settings ℝ}
    {reply : EcosReply ℝ} (counted : count = p) (whole : p + q = m) (sides : b.length = m)
    (solves : reply.Solves ⟨c, if count < m then some G else none,
      if count < b.length then some (b.drop count) else none, cones,
      if 0 < count then some E else none, if 0 < count then some (b.take count) else none,
      settings⟩ t) :
    (reply.y.length = p ∧ reply.z.length = q ∧ t.length = q) ∧
      (∀ i : Fin p, (E.matrix *ᵥ entries n reply.x) i = entry b i) ∧
      (∀ i : Fin q, (G.matrix *ᵥ entries n reply.x) i + entry t i = entry b (p + i)) ∧
      E.matrixᵀ *ᵥ entries p reply.y + G.matrixᵀ *ᵥ entries q reply.z + entries n c = 0 := by
  subst counted
  have upper : ¬0 < count → count = 0 := by omega
  have lower : ¬count < m → q = 0 := by omega
  refine ⟨⟨?_, ?_, ?_⟩, ?_, ?_, ?_⟩
  · exact solves.prices.trans (elim_rows upper)
  · exact solves.prices'.trans (elim_rows lower)
  · exact solves.slacks.trans (elim_rows lower)
  · intro i
    have some : 0 < count := i.pos
    have equation := solves.primal E (if_pos some) (b.take count) (if_pos some)
    exact (congrFun equation i).trans (entry_take i.isLt)
  · intro i
    have some : count < m := by
      have := i.pos
      omega
    have equation := solves.primal' G (if_pos some) (b.drop count) (if_pos (sides ▸ some))
    exact (congrFun equation i).trans (entry_drop b count i)
  · rw [← elim_transpose_mulVec upper, ← elim_transpose_mulVec lower]
    exact solves.dual

theorem optimalPair_of_solves {e : Fin p → Fin constraints.rows} {g : Fin q → Fin constraints.rows}
    {count : Nat} {s t : List ℝ} {cones : ConeTable} {settings : Settings ℝ} {reply : EcosReply ℝ}
    (plain : constraints.cones.IsPlain) (unfree : constraints.cones.part .free = [])
    (flat : hasSemidefinite constraints.cones = false)
    (counted : count = p) (equationRows : constraints.cones.equationRows = p)
    (whole : p + q = constraints.rows) (size : constraints.b.length = constraints.rows)
    (first : ∀ i, (e i : Nat) = i) (last : ∀ i, (g i : Nat) = p + i)
    (upper : E.matrix = constraints.A.matrix.submatrix e id)
    (lower : G.matrix = constraints.A.matrix.submatrix g id)
    (inequalities : inequalityCones constraints.cones = (.ok cones : Outcome ℝ ConeTable))
    (solves : reply.Solves ⟨c, if count < constraints.rows then some G else none,
      if count < constraints.b.length then some (constraints.b.drop count) else none, cones,
      if 0 < count then some E else none, if 0 < count then some (constraints.b.take count) else none,
      settings⟩ t)
    (slacks : s.length = constraints.rows) (slack : ∀ i : Fin constraints.rows,
      entry s i = entry constraints.b i - (constraints.A.matrix *ᵥ entries n reply.x) i) :
    OptimalPair .lower constraints.cones.product constraints.A constraints.b c reply.x
      (reply.y ++ reply.z) s := by
  obtain ⟨⟨prices, prices', length⟩, primal, primal', dual⟩ :=
    runs_of_solves counted whole size solves
  have later := product_inequalityCones plain inequalities
  have product : constraints.cones.product = constraints.cones.part .zero ++ cones.product := by
    rw [later, ConeTable.product_eq, unfree, part_of_hasSemidefinite flat, List.nil_append,
      List.append_nil]
  rw [product]
  refine OptimalPair.of_runs whole first last upper lower (fun block => ConeTable.kind_of_mem_part)
    ⟨equationRows, solves.covers.trans length⟩ ⟨solves.columns, prices, prices', slacks⟩ slack primal
    primal' dual solves.slack_mem solves.price_mem ?_
  rw [← length]
  exact solves.complementary

end

theorem solve_sound (plain : constraints.cones.IsPlain)
    (unfree : constraints.cones.part .free = [])
    (fits : constraints.cones.equationRows ≤ constraints.rows)
    (size : constraints.b.length = constraints.rows) (request : Request ℝ) :
    Sound solvers.Solves (constraints.SolvedBy c) (solve solvers constraints c request) := by
  refine sound_guard fun flat => ?_
  apply sound_ofExcept_bind
  intro count counted
  obtain rfl := Except.ok.inj ((equations_ok plain _ _).symm.trans counted)
  apply sound_ofExcept_bind
  intro G lower
  apply sound_ofExcept_bind
  intro E upper
  refine sound_guard fun _ => ?_
  apply sound_ofExcept_bind
  intro cones inequalities
  apply sound_ecos_bind
  · intro reply
    exact quiet_bind (quiet_accept _) fun _ => quiet_bind (quiet_ofExcept _) fun _ => quiet_pure _
  · rintro calls ⟨t, solves⟩
    obtain ⟨s, computed, slacks, slack⟩ := Constraints.slack_eq_ok solves.columns size
    have found : Succeeds (monadLift (constraints.slack _) : Consulting ℝ (List ℝ)) (· = s) :=
      succeeds_ofExcept computed rfl
    refine (succeeds_accept solves.accepted).bind fun status _ => found.bind ?_
    rintro _ rfl
    apply succeeds_pure
    refine ⟨_, rfl, ?_⟩
    obtain ⟨e, placed, equations⟩ := takeRows_ok upper
    obtain ⟨g, placed', others⟩ := takeRows_ok lower
    have count : ((List.range constraints.rows).take constraints.cones.equationRows).length =
        constraints.cones.equationRows := by
      rw [List.length_take, List.length_range, Nat.min_eq_left fits]
    refine optimalPair_of_solves plain unfree (by simpa using flat) count.symm count.symm ?_ size ?_ ?_
      equations others inequalities solves slacks slack
    · rw [count, List.length_drop, List.length_range, Nat.add_sub_cancel' fits]
    · intro i
      rw [placed, List.getElem_take, List.getElem_range]
    · intro i
      rw [placed', List.getElem_drop, List.getElem_range, count]

end Ecos

end ConicDerivative
