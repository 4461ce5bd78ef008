import ConicDerivative.Proofs.FreeRows
import ConicDerivative.Proofs.SolverAnswers
import ConicDerivative.Proofs.UpperTriangles

/-!
A solver that stores semidefinite blocks as upper triangles. It gets all rows, in another order, so
an optimal pair for it becomes one of the program when its entries are written back in that order.
-/

namespace ConicDerivative

open Scalar Matrix Outcomes Loose Consulting

variable {m n : Nat}

namespace ConeProduct

variable {K : ConeProduct}

theorem arranged_dual (K : ConeProduct) (k : Nat) : arranged (dual K) k = arranged K k := by
  induction K generalizing k with
  | nil => rfl
  | cons block K ih =>
    obtain ⟨cone, dim⟩ := block
    have same : cone.dual.arranged dim = cone.arranged dim := by cases cone <;> rfl
    change (if k < cone.dual.rows dim then cone.dual.arranged dim k
      else cone.dual.rows dim + arranged (dual K) (k - cone.dual.rows dim)) = _
    rw [same, Cone.rows_dual, ih, arranged]

theorem nodup_of_arranged {order : List Nat} (length : order.length = K.rows)
    (arranged : ∀ k < K.rows, order[k]? = some (K.arranged k)) : order.Nodup := by
  rw [List.nodup_iff_injective_get]
  intro i j same
  have place (k : Fin order.length) : k.val < K.rows ∧ order.get k = K.arranged k := by
    have bound : k.val < K.rows := length ▸ k.isLt
    exact ⟨bound, Option.some.inj ((List.getElem?_eq_getElem k.isLt).symm.trans (arranged k bound))⟩
  obtain ⟨bound, left⟩ := place i
  obtain ⟨bound', right⟩ := place j
  exact Fin.ext (arranged_injective bound bound' (left.symm.trans (same.trans right)))

end ConeProduct

namespace OptimalPair

variable {K : ConeProduct} {A : Sparse ℝ m n} {b b' c x y z s t : List ℝ} {order : List Nat}

theorem of_nonempty (pair : OptimalPair .lower (ConeProduct.nonempty K) A b c x y s) :
    OptimalPair .lower K A b c x y s := by
  refine ⟨pair.columns, pair.prices, pair.slacks, ?_, pair.primal, pair.dual, ?_, ?_,
    pair.complementary⟩
  · rw [← pair.covers, ConeProduct.rows_nonempty]
  · exact ConeProduct.contains_nonempty.1 pair.slack_mem
  · have inside := pair.price_mem
    rw [ConeProduct.dual_nonempty] at inside
    exact ConeProduct.contains_nonempty.1 inside

theorem of_arranged {S : Sparse ℝ order.length n} {e : Fin order.length → Fin m}
    (pair : OptimalPair .upper K S b' c x z t) (size : order.length = m)
    (arranged : ∀ k < K.rows, order[k]? = some (K.arranged k))
    (placed : ∀ i, (e i : Nat) = order[i.val]) (rows : S.matrix = A.matrix.submatrix e id)
    (sides : ∀ i (inside : i < order.length), entry b' i = entry b order[i])
    (lengths : y.length = m ∧ s.length = m)
    (prices : ∀ i (inside : i < order.length), entry y order[i] = entry z i)
    (slacks : ∀ i (inside : i < order.length), entry s order[i] = entry t i) :
    OptimalPair .lower K A b c x y s := by
  have covers : K.rows = order.length := pair.covers
  have place (k : Nat) (bound : k < order.length) : order[k] = K.arranged k :=
    Option.some.inj ((List.getElem?_eq_getElem bound).symm.trans (arranged k (covers ▸ bound)))
  have distinct := injective_of_nodup (ConeProduct.nodup_of_arranged covers.symm arranged) placed
  have bijective : Function.Bijective e := by
    rw [Fintype.bijective_iff_injective_and_card, Fintype.card_fin, Fintype.card_fin]
    exact ⟨distinct, size⟩
  have every (i : Fin m) : i ∈ Set.range e := bijective.2 i
  obtain ⟨primal, dual, complementary⟩ := equations_of_selected (b := entries m b) (y := entries m y)
    (s := entries m s) distinct rows pair.primal pair.dual pair.complementary
    (fun i => by rw [entries, entries, placed, sides i i.isLt])
    (fun i => by rw [entries, entries, placed, prices i i.isLt])
    (fun i => by rw [entries, entries, placed, slacks i i.isLt])
    (fun i absent => absurd (every i) absent) (fun i absent => absurd (every i) absent)
  refine ⟨pair.columns, lengths.1, lengths.2, covers.trans size, primal, dual, ?_, ?_, complementary⟩
  · apply ConeProduct.contains_of_arranged pair.slack_mem
    intro k bound
    rw [← place k (covers ▸ bound), slacks k (covers ▸ bound)]
  · apply ConeProduct.contains_of_arranged pair.price_mem
    intro k bound
    rw [ConeProduct.rows_dual] at bound
    rw [ConeProduct.arranged_dual, ← place k (covers ▸ bound), prices k (covers ▸ bound)]

theorem exists_scattered {S : Sparse ℝ order.length n} (pair : OptimalPair .upper K S b' c x z t)
    (size : order.length = m) (arranged : ∀ k < K.rows, order[k]? = some (K.arranged k))
    (taken : takeRows A order = .ok S) (gathered : gather b order = .ok b') {zeros : List ℝ}
    (whole : zeros.length = m) : ∃ y s, scatter zeros order z = .ok y ∧
      scatter zeros order t = .ok s ∧ OptimalPair .lower K A b c x y s := by
  have distinct := ConeProduct.nodup_of_arranged pair.covers.symm arranged
  obtain ⟨e, placed, rows⟩ := takeRows_ok taken
  obtain ⟨_, sides⟩ := gather_ok gathered
  have inside (i : Nat) (listed : i ∈ order) : i < zeros.length := by
    obtain ⟨k, bound, rfl⟩ := List.mem_iff_getElem.1 listed
    rw [whole, ← placed ⟨k, bound⟩]
    exact (e ⟨k, bound⟩).isLt
  obtain ⟨y, priced, prices, price, _⟩ := scatter_eq_ok distinct inside pair.prices
  obtain ⟨s, stored, slacks, slack, _⟩ := scatter_eq_ok distinct inside pair.slacks
  exact ⟨y, s, priced, stored, pair.of_arranged size arranged placed rows sides
    ⟨prices.trans whole, slacks.trans whole⟩ price slack⟩

end OptimalPair

/-- The gradient of a program without a quadratic part. -/
theorem Loose.zipWith_add_zeros (c : List ℝ) : c.zipWith (· + ·) (List.replicate c.length 0) = c := by
  induction c with
  | nil => rfl
  | cons head c ih =>
    rw [List.length_cons, List.replicate_succ, List.zipWith_cons_cons, ih, add_zero]

theorem Loose.mulVec_empty {x : List ℝ} (fits : x.length = n) :
    mulVec (Sparse.empty n n) x = .ok (List.replicate n 0) := by
  rw [mulVec, dif_pos fits, Sparse.mulVec_empty, Vector.toList_replicate]

namespace Clarabel

variable {blocks : List Block} {order order' : List Nat} {size : Nat}

theorem length_placeBlock {block : Block}
    (success : placeBlock order block = (.ok order' : Outcome ℝ (List Nat))) :
    order'.length = order.length := by
  have above := (block.span order.length).start_le
  have below := (block.span order.length).stop_le
  have extent : (block.span order.length).size =
      (block.span order.length).stop - (block.span order.length).start := rfl
  unfold placeBlock at success
  dsimp only at success
  split at success
  · cases success
    simp only [List.length_append, List.length_take, List.length_replicate, List.length_drop]
    omega
  · split_ifs at success with different
    · cases success
    · cases success
      simp only [List.length_append, List.length_take, List.length_drop]
      omega

theorem length_rowOrder (success : rowOrder blocks size = (.ok order : Outcome ℝ (List Nat))) :
    order.length = size := by
  have steps (semidefinite : List Block) (start : List Nat)
      (placed : semidefinite.foldlM placeBlock start = (.ok order : Outcome ℝ (List Nat))) :
      order.length = start.length := by
    induction semidefinite generalizing start with
    | nil =>
      cases placed
      rfl
    | cons block semidefinite ih =>
      obtain ⟨next, first, rest⟩ := foldlM_cons_eq_ok.1 placed
      rw [ih next rest, length_placeBlock first]
  rw [steps _ _ success, List.length_range]

theorem cones_of_layOut {K : ConeProduct} {offset : Int}
    (laid : Block.layOut K.dims offset = .ok blocks) (unfree : ∀ block ∈ K, block.1 ≠ .free) :
    ((cones blocks).map fun (cone, dim) => (cone, dim.toNat)) = K := by
  induction K generalizing offset blocks with
  | nil =>
    cases laid
    rfl
  | cons block K ih =>
    obtain ⟨cone, dim⟩ := block
    obtain ⟨size, later, _, others, rfl⟩ := Block.layOut_cons_ok.1 laid
    have rest := ih others fun block listed => unfree block (List.mem_cons_of_mem _ listed)
    have other : cone ≠ .free := unfree _ List.mem_cons_self
    cases cone with
    | free => exact absurd rfl other
    | zero | nonnegative | secondOrder | semidefinite => exact congrArg ((_, dim) :: ·) rest

theorem quiet_finish {α β : Type} {status : String} {f : Unit → Consulting α β}
    (quiet : Quiet (f ())) : Quiet (if status = "Solved/Inaccurate" then warn .inaccurate >>= f
      else if status ≠ "Solved" then throw (.solverStatus .clarabel status) >>= f else f ()) := by
  split_ifs
  · exact quiet_bind (quiet_warn _) fun _ => quiet
  · exact fun _ => rfl
  · exact quiet

theorem succeeds_finish {status : String} {f : Unit → Consulting ℝ (Solution ℝ)}
    {Right : Solution ℝ → Prop} (accepted : status = "Solved" ∨ status = "AlmostSolved")
    (succeeds : Succeeds (f ()) Right) :
    Succeeds (if statusText status = "Solved/Inaccurate" then warn .inaccurate >>= f
      else if statusText status ≠ "Solved" then
        throw (.solverStatus .clarabel (statusText status)) >>= f
      else f ()) Right := by
  rcases accepted with rfl | rfl
  · have text : statusText "Solved" = "Solved" := rfl
    rw [text, if_neg (by decide), if_neg (not_not.2 rfl)]
    exact succeeds
  · have text : statusText "AlmostSolved" = "Solved/Inaccurate" := rfl
    rw [text, if_pos rfl]
    exact (succeeds_warn _).bind fun _ _ => succeeds

variable {solvers : Solvers ℝ} {constraints : Constraints ℝ n} {c : List ℝ}

/-- An answer is an optimal pair of the arranged rows of a linear program. -/
theorem optimalPair_of_solves {K : ConeProduct} {S : Sparse ℝ m n} {b : List ℝ}
    {settings : Settings ℝ} {reply : ClarabelReply ℝ}
    (laid : Block.layOut K.dims 0 = .ok blocks) (unfree : ∀ block ∈ K, block.1 ≠ .free)
    (columns : c.length = n) (solves : reply.Solves
      ⟨⟨Sparse.empty c.length c.length⟩, c, S, b, cones blocks, settings⟩) :
    OptimalPair .upper K S b c reply.x reply.z reply.s := by
  obtain ⟨gradient, product, pair⟩ := solves.optimal
  have zeros := mulVec_empty (pair.columns.trans columns.symm)
  obtain rfl : List.replicate c.length 0 = gradient := Except.ok.inj (zeros.symm.trans product)
  rw [zipWith_add_zeros, cones_of_layOut laid unfree] at pair
  exact pair

theorem solve_sound (plain : constraints.cones.IsPlain)
    (unfree : constraints.cones.part .free = []) (size : constraints.b.length = constraints.rows)
    (columns : c.length = n) (request : Request ℝ) :
    Sound solvers.Solves (constraints.SolvedBy c) (solve solvers constraints c request) := by
  apply sound_layout_bind
  intro blocks success
  apply sound_ofExcept_bind
  intro order placed
  apply sound_ofExcept_bind
  intro S taken
  apply sound_ofExcept_bind
  intro b gathered
  apply sound_clarabel_bind
  · intro reply
    exact quiet_finish (quiet_bind (quiet_ofExcept _) fun _ =>
      quiet_bind (quiet_ofExcept _) fun _ => quiet_pure _)
  · intro calls solves
    have laid := ConeTable.blocks_ok plain success
    have pair := optimalPair_of_solves laid
      (fun block listed => ConeTable.kind_ne_of_mem_product unfree (List.mem_of_mem_filter listed))
      columns solves
    have length := length_rowOrder placed
    have covers : ConeProduct.rows (ConeProduct.nonempty constraints.cones.product) =
        constraints.b.length := pair.covers.trans length
    rw [← covers] at placed
    obtain ⟨_, arranged⟩ := rowOrder_ok
      (fun block listed => of_decide_eq_true (List.mem_filter.1 listed).2) laid placed
    let zeros : List ℝ := List.replicate constraints.b.length 0
    have whole : zeros.length = constraints.rows := List.length_replicate.trans size
    obtain ⟨y, s, priced, stored, restored⟩ :=
      pair.exists_scattered (length.trans size) arranged taken gathered whole
    have first : Succeeds (monadLift (scatter zeros order _) : Consulting ℝ (List ℝ)) (· = y) :=
      succeeds_ofExcept priced rfl
    have second : Succeeds (monadLift (scatter zeros order _) : Consulting ℝ (List ℝ)) (· = s) :=
      succeeds_ofExcept stored rfl
    refine succeeds_finish solves.accepted (first.bind ?_)
    rintro _ rfl
    refine second.bind ?_
    rintro _ rfl
    apply succeeds_pure
    exact ⟨_, rfl, restored.of_nonempty⟩

end Clarabel

end ConicDerivative
