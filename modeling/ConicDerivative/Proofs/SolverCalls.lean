import ConicDerivative.Proofs.SentPrograms

/-!
The calls of a run. A run fails before it asks anyone, for one of a few causes that can be read off
the constraints and the request, or it asks the solver that is named. It asks once, and SCS a second
time where the first answer is inaccurate. If the last answer is an optimal pair of what was sent, the
run returns an optimal pair of the program.
-/

namespace ConicDerivative

open Scalar Matrix Outcomes Loose Consulting Packed Sparse

variable {n : Nat}

def Backend.method : Backend → String
  | scs => "SCS"
  | ecos => "ECOS"
  | clarabel => "CLARABEL"

theorem Backend.method_injective : Function.Injective method := by
  intro backend other same
  cases backend <;> cases other <;> simp [method] at same ⊢

def Call.backend {α : Type} : Call α → Backend
  | scs _ => .scs
  | ecos _ => .ecos
  | clarabel _ => .clarabel

namespace Solve

/-- What keeps a run from asking anyone, for constraints without free rows. -/
inductive Withheld (constraints : Constraints ℝ n) (request : Request ℝ) : Failure ℝ → Prop where
  | unreadable (given : request.method ≠ .absent) (other : ∀ name, request.method ≠ .text name) :
    Withheld constraints request (.invalid .attribute)
  | unknown {name : String} (named : methodFor constraints.cones request.method = .ok name)
      (other : ∀ backend : Backend, name ≠ backend.method) :
    Withheld constraints request (.unknownSolver name)
  | shortStart {start : List (List ℝ)}
      (named : methodFor constraints.cones request.method = .ok Backend.scs.method)
      (given : request.warmStart = some start) (short : start.length < 3) :
    Withheld constraints request (.invalid .index)
  | warmStart {backend : Backend}
      (named : methodFor constraints.cones request.method = .ok backend.method)
      (other : backend ≠ .scs) (given : request.warmStart ≠ none) :
    Withheld constraints request (.warmStartRefused backend)
  | semidefinite (named : methodFor constraints.cones request.method = .ok Backend.ecos.method)
      (cold : request.warmStart = none) (some : Ecos.hasSemidefinite constraints.cones = true) :
    Withheld constraints request .semidefiniteRefused
  | emptyEqualities (named : methodFor constraints.cones request.method = .ok Backend.ecos.method)
      (cold : request.warmStart = none) (flat : Ecos.hasSemidefinite constraints.cones = false)
      (positive : 0 < constraints.cones.equationRows) (none : ¬Ecos.HasEntries constraints) :
    Withheld constraints request .emptyEqualities
  | rounded {dim : Nat}
      (named : methodFor constraints.cones request.method = .ok Backend.clarabel.method)
      (cold : request.warmStart = none) (listed : (.semidefinite, dim) ∈ constraints.cones.product)
      (rounded : packedSize dim ≠ .ok (Packed.triangle dim)) :
    Withheld constraints request (.invalid .value)

/-- The solver that is named is asked once, or SCS again after an inaccurate first answer. -/
structure Asks (solvers : Solvers ℝ) (constraints : Constraints ℝ n) (request : Request ℝ)
    (count : Nat) (earlier : List (Call ℝ)) (call : Call ℝ) : Prop where
  named : methodFor constraints.cones request.method = .ok call.backend.method
  once : earlier = [] ∨ ∃ first, call.backend = .scs ∧ earlier = [.scs first] ∧
    Scs.isInaccurate (solvers.scs count first).status = true

variable {solvers : Solvers ℝ} {constraints : Constraints ℝ n} {c : List ℝ} {request : Request ℝ}
  {log : Log ℝ} {blocks : List Block}

theorem after_reduced_ecos
    (named : methodFor constraints.cones request.method = .ok Backend.ecos.method)
    (cold : request.warmStart = none) : after (Solve.reduced solvers constraints c request) log =
      after (Ecos.solve solvers constraints c request) log := by
  rw [Solve.reduced, after_ofExcept_bind named]
  exact congrArg (after · log) (if_neg (by simp [cold]))

theorem after_reduced_clarabel
    (named : methodFor constraints.cones request.method = .ok Backend.clarabel.method)
    (cold : request.warmStart = none) : after (Solve.reduced solvers constraints c request) log =
      after (Clarabel.solve solvers constraints c request) log := by
  rw [Solve.reduced, after_ofExcept_bind named]
  exact congrArg (after · log) (if_neg (by simp [cold]))

section

variable (plain : constraints.cones.IsPlain) (read : constraints.cones.blocks = .ok blocks)
  (tiling : Block.checkTiling blocks constraints.rows = .ok ())
  (size : constraints.b.length = constraints.rows)

include plain read tiling size

theorem after_of_withheld {cause : Failure ℝ} (withheld : Withheld constraints request cause) :
    after (Solve.reduced solvers constraints c request) log = (.error cause, log) := by
  cases withheld with
  | unreadable given other =>
    have failed : methodFor constraints.cones request.method = .error (.invalid .attribute) := by
      unfold methodFor
      split
      · next absent => exact absurd absent given
      · next name text => exact absurd text (other name)
      · rfl
    rw [Solve.reduced, failed]
    rfl
  | unknown named other =>
    rw [Solve.reduced, after_ofExcept_bind named]
    split
    · exact absurd rfl (other .scs)
    · exact absurd rfl (other .ecos)
    · exact absurd rfl (other .clarabel)
    · rfl
  | @shortStart start named given short =>
    have failed : Scs.startingPoint request.warmStart = .error (.invalid .index) := by
      rw [given]
      rcases start with _ | ⟨x, _ | ⟨y, _ | ⟨s, rest⟩⟩⟩
      · rfl
      · rfl
      · rfl
      · simp only [List.length_cons] at short
        omega
    rw [Solve.reduced, after_ofExcept_bind named]
    change after (Scs.solve solvers constraints c request) log = _
    rw [Scs.solve, failed]
    rfl
  | @warmStart backend named other given =>
    have some : request.warmStart.isSome = true := Option.isSome_iff_ne_none.2 given
    rw [Solve.reduced, after_ofExcept_bind named]
    cases backend with
    | scs => exact absurd rfl other
    | ecos | clarabel => exact congrArg (after · log) (if_pos some)
  | semidefinite named cold some =>
    rw [after_reduced_ecos named cold, Ecos.solve, if_pos some]
    rfl
  | emptyEqualities named cold flat positive none =>
    rw [after_reduced_ecos named cold]
    exact Ecos.after_of_empty plain flat positive none
  | rounded named cold listed rounded =>
    rw [after_reduced_clarabel named cold]
    exact Clarabel.after_of_rounded plain read tiling size listed rounded

theorem exists_asked (free : ∀ cause, ¬Withheld constraints request cause) : ∃ earlier call,
    (after (Solve.reduced solvers constraints c request) log).2.calls =
      log.calls ++ (earlier ++ [call]) ∧
    Asks solvers constraints request log.calls.length earlier call := by
  obtain ⟨name, named⟩ : ∃ name, methodFor constraints.cones request.method = .ok name := by
    cases given : request.method with
    | absent => exact ⟨_, rfl⟩
    | text name => exact ⟨_, rfl⟩
    | integer | real | flag | list =>
      refine absurd (Withheld.unreadable ?_ ?_) (free _)
      · simp [given]
      · simp [given]
  obtain ⟨backend, rfl⟩ : ∃ backend : Backend, name = backend.method := by
    by_contra other
    exact free _ (.unknown named (not_exists.1 other))
  have cold (other : backend ≠ .scs) : request.warmStart = none := by
    by_contra given
    exact free _ (.warmStart named other given)
  cases backend with
  | scs =>
    obtain ⟨start, given⟩ : ∃ start, Scs.startingPoint request.warmStart = .ok start := by
      cases given : request.warmStart with
      | none => exact ⟨_, rfl⟩
      | some start =>
        rcases start with _ | ⟨x, _ | ⟨y, _ | ⟨s, rest⟩⟩⟩
        · exact absurd (.shortStart named given (by simp)) (free _)
        · exact absurd (.shortStart named given (by simp)) (free _)
        · exact absurd (.shortStart named given (by simp)) (free _)
        · exact ⟨_, rfl⟩
    obtain ⟨earlier, call, calls, once⟩ := Scs.exists_last_call given
    refine ⟨earlier, .scs call, ?_, named, once.imp id ?_⟩
    · rw [Solve.reduced, after_ofExcept_bind named]
      exact calls
    · rintro ⟨first, same, inaccurate⟩
      exact ⟨first, rfl, same, inaccurate⟩
  | ecos =>
    have cold := cold (by decide)
    have flat : Ecos.hasSemidefinite constraints.cones = false := by
      by_contra some
      exact free _ (.semidefinite named cold (by simpa using some))
    obtain ⟨G, E, lower, upper⟩ :=
      Ecos.exists_parts constraints constraints.cones.equationRows
    have stored (positive : 0 < constraints.cones.equationRows) : Ecos.HasEntries constraints := by
      by_contra none
      exact free _ (.emptyEqualities named cold flat positive none)
    obtain ⟨call, calls⟩ : ∃ call, (after (Ecos.solve solvers constraints c request) log).2.calls =
        log.calls ++ [.ecos call] := ⟨_, Ecos.calls_solve plain flat stored lower upper⟩
    rw [after_reduced_ecos named cold]
    exact ⟨[], .ecos call, calls, named, .inl rfl⟩
  | clarabel =>
    have cold := cold (by decide)
    obtain ⟨call, calls⟩ := Clarabel.exists_call plain read tiling size fun dim listed => by
      by_contra rounded
      exact free _ (.rounded named cold listed rounded)
    rw [after_reduced_clarabel named cold]
    exact ⟨[], .clarabel call, calls, named, .inl rfl⟩

end

/--
A run fails before it asks anyone, for just the causes that withhold its constraints, or it asks the
solver that is named, SCS a second time after an inaccurate answer. If the last answer solves the
program that was sent, the run returns an optimal pair, and no free row has a price.
-/
theorem full_optimal (solvers : Solvers ℝ) (request : Request ℝ) (log : Log ℝ)
    (plain : constraints.cones.IsPlain) (layout : constraints.cones.blocks = .ok blocks)
    (tiling : Block.checkTiling blocks constraints.rows = .ok ())
    (size : constraints.b.length = constraints.rows) (columns : c.length = n) : ∃ reduced,
    constraints.dropFree = .ok (reduced, Constraints.kept blocks constraints.rows) ∧
    (∀ cause, after (full solvers constraints c request) log = (.error cause, log) ↔
      Withheld reduced request cause) ∧
    ((∀ cause, ¬Withheld reduced request cause) → ∃ earlier call,
      (after (full solvers constraints c request) log).2.calls =
        log.calls ++ (earlier ++ [call]) ∧
      Asks solvers reduced request log.calls.length earlier call ∧
      (solvers.Solves (log.calls.length + earlier.length) call → ∃ solution values,
        (after (full solvers constraints c request) log).1 = .ok solution ∧
        solution.values = some values ∧
        OptimalPair .lower constraints.cones.product constraints.A constraints.b c values.x values.y
          values.s ∧
        ∀ block ∈ blocks, block.kind = .cone .free → ∀ row : Nat, block.start ≤ row →
          row < block.stop → entry values.y row = 0)) := by
  obtain ⟨reduced, dropped, _, _⟩ := Constraints.exists_dropFree layout size
  obtain ⟨plain', _, _, size'⟩ := Constraints.dropFree_fits plain layout tiling size dropped
  obtain ⟨others, read, tiling'⟩ := Constraints.exists_blocks_reduced plain layout tiling dropped
  have withheld {cause : Failure ℝ} (cause' : Withheld reduced request cause) :
      after (full solvers constraints c request) log = (.error cause, log) := by
    rw [full_eq, after_ofExcept_bind dropped, after_bind,
      after_of_withheld plain' read tiling' size' cause']
  have asked (free : ∀ cause, ¬Withheld reduced request cause) : ∃ earlier call,
      (after (full solvers constraints c request) log).2.calls =
        log.calls ++ (earlier ++ [call]) ∧
      Asks solvers reduced request log.calls.length earlier call := by
    rw [calls_full dropped]
    exact exists_asked plain' read tiling' size' free
  refine ⟨reduced, dropped, fun cause => ⟨?_, withheld⟩, ?_⟩
  · -- A run that leaves the log alone has made no call, so something withholds its constraints.
    intro failed
    by_contra other
    by_cases free : ∀ cause, ¬Withheld reduced request cause
    · obtain ⟨earlier, call, calls, _⟩ := asked free
      rw [failed] at calls
      simp at calls
    · obtain ⟨cause', held⟩ := not_forall_not.1 free
      cases (withheld held).symm.trans failed
      exact other held
  · intro free
    obtain ⟨earlier, call, calls, asks⟩ := asked free
    refine ⟨earlier, call, calls, asks, ?_⟩
    intro solves
    rw [← List.append_assoc] at calls
    rw [← List.length_append] at solves
    obtain ⟨solution, ended, values, found, optimal⟩ := full_sound plain layout tiling size columns
      request log (log.calls ++ earlier) call calls (by simp) solves
    exact ⟨solution, values, ended, found, optimal⟩

theorem not_withheld {constraints : Constraints ℝ n} {request : Request ℝ} (backend : Backend)
    (named : methodFor constraints.cones request.method = .ok backend.method)
    (cold : request.warmStart = none)
    (flat : backend = .ecos → Ecos.hasSemidefinite constraints.cones = false)
    (stored : backend = .ecos → Ecos.HasEntries constraints)
    (exact : backend = .clarabel → constraints.cones.product.IsExact) (cause : Failure ℝ) :
    ¬Withheld constraints request cause := by
  have same {other : Backend} (named' : methodFor constraints.cones request.method =
      .ok other.method) : backend = other :=
    Backend.method_injective (Except.ok.inj (named.symm.trans named'))
  intro withheld
  cases withheld with
  | unreadable given other =>
    cases method : request.method with
    | absent => exact given method
    | text name => exact other name method
    | integer | real | flag | list =>
      rw [method] at named
      cases named
  | unknown named' other => exact other backend (Except.ok.inj (named'.symm.trans named))
  | shortStart named' given short =>
    rw [cold] at given
    cases given
  | warmStart named' other given => exact given cold
  | semidefinite named' cold' some =>
    exact Bool.false_ne_true ((flat (same named')).symm.trans some)
  | emptyEqualities named' cold' flat' positive none => exact none (stored (same named'))
  | rounded named' cold' listed rounded => exact rounded (exact (same named') _ listed)

theorem mulVec_column {m : Nat} (M : Matrix (Fin m) (Fin 1) ℝ) (v : Fin 1 → ℝ) :
    M *ᵥ v = fun i => M i 0 * v 0 := by
  funext i
  simp [Matrix.mulVec, dotProduct]

theorem plain_equationAndFree : equationAndFree.cones.IsPlain := by
  intro cone extent present
  cases cone with
  | zero | free =>
    cases present
    exact ⟨1, rfl⟩
  | nonnegative | secondOrder | semidefinite => cases present

noncomputable def ownAnswers : Solvers ℝ where
  scs _ _ := ⟨"", [], [], []⟩
  ecos _ _ := ⟨10, [1], [two], [0, 1, -1], .absent, .absent, .absent, .absent⟩
  clarabel _ _ := ⟨"AlmostSolved", [1], [1, 1, rootTwo, 1, rootTwo, rootTwo, 1],
    [0, 0, 0, 1, 0, -rootTwo, 1], .absent, .absent, .absent⟩

/-- A single column with the given entries, each after the number of its row. -/
def onRows (m : Nat) (entries : List (Nat × ℝ)) : Sparse ℝ m 1 :=
  ⟨.replicate 1 (entries.filterMap fun e => if h : e.1 < m then some (⟨e.1, h⟩, e.2) else none)⟩

/-- An equation, a free row, a bound and a cone of order two. -/
noncomputable def mixedRows : Constraints ℝ 1 :=
  ⟨onRows 5 [(0, 1), (1, 1), (2, -1), (3, -1)], [1, 1, 0, 0, 1],
    [(.cone .zero, .integer 1), (.cone .free, .integer 1), (.cone .nonnegative, .integer 1),
      (.cone .secondOrder, .list [.integer 2])]⟩

noncomputable def mixedLeft : Constraints ℝ 1 :=
  ⟨onRows 4 [(0, 1), (1, -1), (2, -1)], [1, 0, 0, 1],
    [(.cone .zero, .integer 1), (.cone .nonnegative, .integer 1),
      (.cone .secondOrder, .list [.integer 2])]⟩

theorem plain_mixedRows : mixedRows.cones.IsPlain := by
  intro cone extent present
  cases cone with
  | zero | free | nonnegative =>
    cases present
    exact ⟨1, rfl⟩
  | secondOrder =>
    cases present
    exact ⟨[2], rfl⟩
  | semidefinite => cases present

theorem plain_mixedLeft : mixedLeft.cones.IsPlain := plain_mixedRows.erase .free

theorem hasEntries_mixedLeft : Ecos.HasEntries mixedLeft :=
  ⟨0, _, List.mem_cons_self, Nat.zero_lt_one⟩

theorem dropFree_mixedRows :
    mixedRows.dropFree = .ok (mixedLeft, [true, false, true, true, true]) := by
  have taken : takeRows (⟨#v[[(0, 1), (1, 1), (2, -1), (3, -1)]]⟩ : Sparse ℝ 5 1) [0, 2, 3, 4] =
      .ok (⟨#v[[(0, 1), (1, -1), (2, -1)]]⟩ : Sparse ℝ 4 1) := by
    simp [takeRows, selectRows, List.finRange_succ, Vec.apply_eq_getElem, Fin.forall_fin_succ]
  have layout : mixedRows.cones.blocks = .ok [⟨.cone .zero, 1, 0, 1⟩, ⟨.cone .free, 1, 1, 2⟩,
      ⟨.cone .nonnegative, 1, 2, 3⟩, ⟨.cone .secondOrder, 2, 3, 5⟩] := rfl
  exact Constraints.dropFree_of_taken layout rfl rfl (by decide) taken rfl

noncomputable def mixedCall : EcosCall ℝ where
  cols := 1
  c := [-1]
  G := some (onRows 3 [(0, -1), (1, -1)])
  h := some [0, 0, 1]
  cones := [(.cone .nonnegative, .integer 1), (.cone .secondOrder, .list [.integer 2])]
  A := some (onRows 1 [(0, 1)])
  b := some [1]
  settings := [("verbose", .flag false)]

theorem calls_mixedRows : (after (full ownAnswers mixedRows [-1] { method := .text "ECOS" })
    ⟨[], []⟩).2.calls = [.ecos mixedCall] := by
  have upper : takeRows (⟨#v[[(0, 1), (1, -1), (2, -1)]]⟩ : Sparse ℝ 4 1) [0] =
      .ok (⟨#v[[(0, 1)]]⟩ : Sparse ℝ 1 1) := by
    simp [takeRows, selectRows, List.finRange_succ, Vec.apply_eq_getElem]
  have lower : takeRows (⟨#v[[(0, 1), (1, -1), (2, -1)]]⟩ : Sparse ℝ 4 1) [1, 2, 3] =
      .ok (⟨#v[[(0, -1), (1, -1)]]⟩ : Sparse ℝ 3 1) := by
    simp [takeRows, selectRows, List.finRange_succ, Vec.apply_eq_getElem, Fin.forall_fin_succ]
  rw [calls_full dropFree_mixedRows]
  exact Ecos.calls_solve plain_mixedLeft rfl (fun _ => hasEntries_mixedLeft) lower upper

theorem solves_mixedCall (count : Nat) : ownAnswers.Solves count (.ecos mixedCall) := by
  refine ⟨[1, 1, 1], .inr rfl, rfl, rfl, rfl, rfl, rfl, ?_, ?_, ?_, ?_, ?_, ?_⟩
  · rintro _ ⟨⟩ _ ⟨⟩
    change (⟨#v[[(0, 1)]]⟩ : Sparse ℝ 1 1).matrix *ᵥ entries 1 [1] = entries 1 [1]
    rw [mulVec_column]
    funext i
    fin_cases i
    simp [matrix_apply, share, Vec.apply_eq_getElem, entries, entry]
  · rintro _ ⟨⟩ _ ⟨⟩
    change (⟨#v[[(0, -1), (1, -1)]]⟩ : Sparse ℝ 3 1).matrix *ᵥ entries 1 [1] + entries 3 [1, 1, 1] =
      entries 3 [0, 0, 1]
    rw [mulVec_column]
    funext i
    fin_cases i <;> simp [matrix_apply, share, Vec.apply_eq_getElem, entries, entry]
  · change (⟨#v[[(0, 1)]]⟩ : Sparse ℝ 1 1).matrixᵀ *ᵥ entries 1 [two] +
      (⟨#v[[(0, -1), (1, -1)]]⟩ : Sparse ℝ 3 1).matrixᵀ *ᵥ entries 3 [0, 1, -1] + entries 1 [-1] = 0
    funext i
    fin_cases i
    simp [matrix_apply, share, Vec.apply_eq_getElem, entries, entry, Matrix.mulVec, dotProduct,
      Fin.sum_univ_three, two_real]
    norm_num
  · refine ⟨?_, ?_, trivial⟩
    · intro i bound
      have first : i < 1 := bound
      interval_cases i
      exact zero_le_one
    · change √(∑ i ∈ Finset.range 1, entry [1, 1, 1] (1 + (i + 1)) ^ 2) ≤ entry [1, 1, 1] 1
      simp [entry]
  · refine ⟨?_, ?_, trivial⟩
    · intro i bound
      have first : i < 1 := bound
      interval_cases i
      exact le_rfl
    · change √(∑ i ∈ Finset.range 1, entry [0, 1, -1] (1 + (i + 1)) ^ 2) ≤ entry [0, 1, -1] 1
      simp [entry]
  · change entries 3 [1, 1, 1] ⬝ᵥ entries 3 [0, 1, -1] = 0
    simp [entries, entry, dotProduct, Fin.sum_univ_three]

noncomputable def matrixRows : Constraints ℝ 1 :=
  ⟨onRows 8 [(0, 1), (1, 1), (5, 1)], [1, 1, 0, 0, 0, two, -rootTwo, 1],
    [(.cone .zero, .integer 1), (.cone .free, .integer 1),
      (.cone .semidefinite, .list [.integer 3])]⟩

noncomputable def matrixLeft : Constraints ℝ 1 :=
  ⟨onRows 7 [(0, 1), (4, 1)], [1, 0, 0, 0, two, -rootTwo, 1],
    [(.cone .zero, .integer 1), (.cone .semidefinite, .list [.integer 3])]⟩

/-- What is sent: the rows `3` and `4` of the rest change places. -/
noncomputable def matrixCall : ClarabelCall ℝ where
  P := ⟨Sparse.empty 1 1⟩
  c := [-two]
  A := onRows 7 [(0, 1), (3, 1)]
  b := [1, 0, 0, two, 0, -rootTwo, 1]
  cones := [(.zero, 1), (.semidefinite, 3)]
  settings := [("verbose", .flag false)]

theorem plain_matrixRows : matrixRows.cones.IsPlain := by
  intro cone extent present
  cases cone with
  | zero | free =>
    cases present
    exact ⟨1, rfl⟩
  | semidefinite =>
    cases present
    exact ⟨[3], rfl⟩
  | nonnegative | secondOrder => cases present

theorem rowCount_three : (Kind.cone .semidefinite).rowCount 3 = .ok 6 :=
  rowCount_triangle (d := 3) (by decide)

theorem blocks_matrixRows : matrixRows.cones.blocks =
    .ok [⟨.cone .zero, 1, 0, 1⟩, ⟨.cone .free, 1, 1, 2⟩, ⟨.cone .semidefinite, 3, 2, 8⟩] := by
  refine bind_eq_ok.2 ⟨(), rfl, bind_eq_ok.2 ⟨[[(.cone .zero, 1)], [(.cone .free, 1)], [], [],
    [(.cone .semidefinite, 3)]], rfl, ?_⟩⟩
  exact Block.layOut_cons_ok.2 ⟨1, _, rfl, Block.layOut_cons_ok.2 ⟨1, _, rfl,
    Block.layOut_cons_ok.2 ⟨6, [], rowCount_three, rfl, rfl⟩, rfl⟩, rfl⟩

theorem blocks_matrixLeft : matrixLeft.cones.blocks =
    .ok [⟨.cone .zero, 1, 0, 1⟩, ⟨.cone .semidefinite, 3, 1, 7⟩] := by
  refine bind_eq_ok.2 ⟨(), rfl, bind_eq_ok.2 ⟨[[(.cone .zero, 1)], [], [], [],
    [(.cone .semidefinite, 3)]], rfl, ?_⟩⟩
  exact Block.layOut_cons_ok.2 ⟨1, _, rfl,
    Block.layOut_cons_ok.2 ⟨6, [], rowCount_three, rfl, rfl⟩, rfl⟩

theorem tiling_matrixRows : Block.checkTiling [⟨.cone .zero, 1, 0, 1⟩, ⟨.cone .free, 1, 1, 2⟩,
    ⟨.cone .semidefinite, 3, 2, 8⟩] 8 = .ok () := by
  refine Block.checkTiling_ok.2 ?_
  simp only [Block.checkFrom_cons_ok]
  exact ⟨trivial, by decide, rfl, trivial, by decide, rfl, trivial, by decide, rowCount_three, rfl⟩

theorem dropFree_matrixRows : matrixRows.dropFree =
    .ok (matrixLeft, [true, false, true, true, true, true, true, true]) := by
  have taken : takeRows (⟨#v[[(0, 1), (1, 1), (5, 1)]]⟩ : Sparse ℝ 8 1) [0, 2, 3, 4, 5, 6, 7] =
      .ok (⟨#v[[(0, 1), (4, 1)]]⟩ : Sparse ℝ 7 1) := by
    simp [takeRows, selectRows, List.finRange_succ, Vec.apply_eq_getElem, Fin.forall_fin_succ]
  exact Constraints.dropFree_of_taken blocks_matrixRows rfl rfl (by decide) taken rfl

theorem isExact_matrixLeft : matrixLeft.cones.product.IsExact := by
  intro dim listed
  have product : matrixLeft.cones.product = [(.zero, 1), (.semidefinite, 3)] := rfl
  rw [product] at listed
  obtain rfl : dim = 3 := by simpa using listed
  exact packedSize_of_rowCount rowCount_three

theorem calls_matrixRows : (after (full ownAnswers matrixRows [-two] { method := .text "CLARABEL" })
    ⟨[], []⟩).2.calls = [.clarabel matrixCall] := by
  have placed : Clarabel.rowOrder [⟨.cone .zero, 1, 0, 1⟩, ⟨.cone .semidefinite, 3, 1, 7⟩] 7 =
      (.ok [0, 1, 2, 4, 3, 5, 6] : Outcome ℝ (List Nat)) := rfl
  have taken : takeRows (⟨#v[[(0, 1), (4, 1)]]⟩ : Sparse ℝ 7 1) [0, 1, 2, 4, 3, 5, 6] =
      .ok (⟨#v[[(0, 1), (3, 1)]]⟩ : Sparse ℝ 7 1) := by
    simp [takeRows, selectRows, List.finRange_succ, Vec.apply_eq_getElem, Fin.forall_fin_succ]
  rw [calls_full dropFree_matrixRows, after_reduced_clarabel rfl rfl]
  exact Clarabel.calls_solve blocks_matrixLeft placed taken rfl

theorem contains_rankOne (u v w : ℝ) {rows : List ℝ} (same : rows =
    [u * u, u * v * rootTwo, v * v, u * w * rootTwo, v * w * rootTwo, w * w]) :
    Cone.semidefinite.Contains .upper 3 (entry rows) := by
  have matrix : Packing.upper.matrix 3 (entry rows) = vecMulVec ![u, v, w] ![u, v, w] := by
    subst same
    funext i j
    fin_cases i <;> fin_cases j <;>
      simp [Packing.matrix, Packing.place, triangle, entry, vecMulVec, rootTwo_eq, mul_comm]
  rw [Cone.Contains, matrix]
  exact posSemidef_vecMulVec_self_star _

theorem solves_matrixCall (count : Nat) : ownAnswers.Solves count (.clarabel matrixCall) := by
  refine ⟨.inr rfl, [0], mulVec_empty rfl, rfl, rfl, rfl, rfl, ?_, ?_, ?_, ?_, ?_⟩
  · change (⟨#v[[(0, 1), (3, 1)]]⟩ : Sparse ℝ 7 1).matrix *ᵥ entries 1 [1] +
      entries 7 [0, 0, 0, 1, 0, -rootTwo, 1] = entries 7 [1, 0, 0, two, 0, -rootTwo, 1]
    rw [mulVec_column]
    funext i
    fin_cases i <;> simp [matrix_apply, share, Vec.apply_eq_getElem, entries, entry, two_real]
    norm_num
  · change (⟨#v[[(0, 1), (3, 1)]]⟩ : Sparse ℝ 7 1).matrixᵀ *ᵥ
      entries 7 [1, 1, rootTwo, 1, rootTwo, rootTwo, 1] + entries 1 [-two + 0] = 0
    funext i
    fin_cases i
    simp [matrix_apply, share, Vec.apply_eq_getElem, entries, entry, Matrix.mulVec, dotProduct,
      Fin.sum_univ_succ, two_real]
    norm_num
  · refine ⟨?_, ?_, trivial⟩
    · intro i bound
      have first : i < 1 := bound
      interval_cases i
      rfl
    · have inside : Cone.semidefinite.Contains .upper 3 (entry [0, 0, 1, 0, -rootTwo, 1]) :=
        contains_rankOne 0 1 (-1) (by norm_num)
      exact inside.of_eq fun i _ => by rw [Nat.add_comm]; rfl
  · have inside : Cone.semidefinite.Contains .upper 3
        (entry [1, rootTwo, 1, rootTwo, rootTwo, 1]) := contains_rankOne 1 1 1 (by norm_num)
    exact ⟨trivial, inside.of_eq fun i _ => by rw [Nat.add_comm]; rfl, trivial⟩
  · change entries 7 [0, 0, 0, 1, 0, -rootTwo, 1] ⬝ᵥ
      entries 7 [1, 1, rootTwo, 1, rootTwo, rootTwo, 1] = 0
    simp [entries, entry, dotProduct, Fin.sum_univ_succ, rootTwo_mul_self]
    norm_num

/-- A run of each solver on constraints with a free row, where SCS has to be asked twice. -/
theorem full_optimal_of_each :
    (∃ solution, (after (full secondAnswer equationAndFree [-1] { method := .text "SCS" })
        ⟨[], []⟩).1 = .ok solution ∧
      Optimal equationAndFree [⟨.cone .zero, 1, 0, 1⟩, ⟨.cone .free, 1, 1, 2⟩] [-1] solution) ∧
    (∃ solution, (after (full ownAnswers mixedRows [-1] { method := .text "ECOS" })
        ⟨[], []⟩).1 = .ok solution ∧
      Optimal mixedRows [⟨.cone .zero, 1, 0, 1⟩, ⟨.cone .free, 1, 1, 2⟩,
        ⟨.cone .nonnegative, 1, 2, 3⟩, ⟨.cone .secondOrder, 2, 3, 5⟩] [-1] solution) ∧
    ∃ solution, (after (full ownAnswers matrixRows [-two] { method := .text "CLARABEL" })
        ⟨[], []⟩).1 = .ok solution ∧
      Optimal matrixRows [⟨.cone .zero, 1, 0, 1⟩, ⟨.cone .free, 1, 1, 2⟩,
        ⟨.cone .semidefinite, 3, 2, 8⟩] [-two] solution := by
  refine ⟨?_, ?_, ?_⟩
  · let call (settings : Settings ℝ) : Call ℝ := .scs ⟨equationAlone.A, equationAlone.b, [-1],
      equationAlone.cones, settings, none⟩
    have sent : (after (full secondAnswer equationAndFree [-1] { method := .text "SCS" })
        ⟨[], []⟩).2.calls = [call [("verbose", .flag false)]] ++
          [call [("verbose", .flag false), ("acceleration_lookback", .integer 0)]] := by
      rw [calls_full dropFree_equationAndFree]
      rfl
    obtain ⟨reduced, dropped, _, asked⟩ := full_optimal (c := [-1]) secondAnswer
      { method := .text "SCS" } ⟨[], []⟩ plain_equationAndFree rfl rfl rfl rfl
    cases dropFree_equationAndFree.symm.trans dropped
    obtain ⟨earlier, last, calls, _, optimal⟩ :=
      asked (not_withheld .scs rfl rfl nofun nofun nofun)
    have same : [call [("verbose", .flag false)]] ++
        [call [("verbose", .flag false), ("acceleration_lookback", .integer 0)]] =
          earlier ++ [last] := sent.symm.trans calls
    obtain ⟨rfl, single⟩ := List.append_inj' same rfl
    cases single
    obtain ⟨solution, values, ended, found, pair⟩ := optimal ⟨.inl rfl, optimalPair_equationAlone⟩
    exact ⟨solution, ended, values, found, pair⟩
  · obtain ⟨reduced, dropped, _, asked⟩ := full_optimal (c := [-1]) ownAnswers
      { method := .text "ECOS" } ⟨[], []⟩ plain_mixedRows rfl rfl rfl rfl
    cases dropFree_mixedRows.symm.trans dropped
    obtain ⟨earlier, last, calls, _, optimal⟩ :=
      asked (not_withheld .ecos rfl rfl (fun _ => rfl) (fun _ => hasEntries_mixedLeft) nofun)
    have same : [] ++ [Call.ecos mixedCall] = earlier ++ [last] :=
      calls_mixedRows.symm.trans calls
    obtain ⟨rfl, single⟩ := List.append_inj' same rfl
    cases single
    obtain ⟨solution, values, ended, found, pair⟩ := optimal (solves_mixedCall _)
    exact ⟨solution, ended, values, found, pair⟩
  · obtain ⟨reduced, dropped, _, asked⟩ := full_optimal (c := [-two]) ownAnswers
      { method := .text "CLARABEL" } ⟨[], []⟩ plain_matrixRows blocks_matrixRows tiling_matrixRows
      rfl rfl
    cases dropFree_matrixRows.symm.trans dropped
    obtain ⟨earlier, last, calls, _, optimal⟩ :=
      asked (not_withheld .clarabel rfl rfl nofun nofun fun _ => isExact_matrixLeft)
    have same : [] ++ [Call.clarabel matrixCall] = earlier ++ [last] :=
      calls_matrixRows.symm.trans calls
    obtain ⟨rfl, single⟩ := List.append_inj' same rfl
    cases single
    obtain ⟨solution, values, ended, found, pair⟩ := optimal (solves_matrixCall _)
    exact ⟨solution, ended, values, found, pair⟩

end Solve

end ConicDerivative
