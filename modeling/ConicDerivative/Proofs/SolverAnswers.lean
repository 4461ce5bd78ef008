import ConicDerivative.Proofs.Consultations
import ConicDerivative.Proofs.OptimalPairs
import ConicDerivative.Solve

/-!
What it means that a solver has solved what it was given, in the terms of each solver: its answer is
one that is accepted, and an optimal pair of the very program of the call.
-/

namespace ConicDerivative

open Scalar Matrix Loose Consulting

variable {n : Nat}

structure ScsReply.Solves (reply : ScsReply ℝ) (call : ScsCall ℝ) : Prop where
  accepted : Scs.isInaccurate reply.status = true ∨ reply.status.toLower = "solved"
  optimal : OptimalPair .lower call.cones.product call.A call.b call.c reply.x reply.y reply.s

/-- The slack of the inequalities is known to the solver only. -/
structure EcosReply.Solves (reply : EcosReply ℝ) (call : EcosCall ℝ) (s : List ℝ) : Prop where
  accepted : reply.exitFlag = 0 ∨ reply.exitFlag = 10
  columns : reply.x.length = call.cols
  prices : reply.y.length = call.A.elim 0 fun _ => call.equations
  prices' : reply.z.length = call.G.elim 0 fun _ => call.inequalities
  slacks : s.length = call.G.elim 0 fun _ => call.inequalities
  covers : call.cones.product.rows = s.length
  primal : ∀ A ∈ call.A, ∀ b ∈ call.b, A.matrix *ᵥ entries call.cols reply.x = entries _ b
  primal' : ∀ G ∈ call.G, ∀ h ∈ call.h,
    G.matrix *ᵥ entries call.cols reply.x + entries _ s = entries _ h
  dual : (call.A.elim 0 fun A => A.matrixᵀ *ᵥ entries _ reply.y) +
    (call.G.elim 0 fun G => G.matrixᵀ *ᵥ entries _ reply.z) + entries call.cols call.c = 0
  slack_mem : call.cones.product.Contains .lower (entry s)
  price_mem : call.cones.product.dual.Contains .lower (entry reply.z)
  complementary : entries s.length s ⬝ᵥ entries s.length reply.z = 0

/-- A pair for a quadratic program is one for the linear program of its gradient. -/
structure ClarabelReply.Solves (reply : ClarabelReply ℝ) (call : ClarabelCall ℝ) : Prop where
  accepted : reply.status = "Solved" ∨ reply.status = "AlmostSolved"
  optimal : ∃ gradient, mulVec call.P.value reply.x = .ok gradient ∧
    OptimalPair .upper (call.cones.map fun (cone, dim) => (cone, dim.toNat)) call.A call.b
      (call.c.zipWith (· + ·) gradient) reply.x reply.z reply.s

def Solvers.Solves (solvers : Solvers ℝ) (count : Nat) : Call ℝ → Prop
  | .scs call => (solvers.scs count call).Solves call
  | .ecos call => ∃ s, (solvers.ecos count call).Solves call s
  | .clarabel call => (solvers.clarabel count call).Solves call

def Constraints.SolvedBy (constraints : Constraints ℝ n) (c : List ℝ) (solution : Solution ℝ) :
    Prop :=
  ∃ values, solution.values = some values ∧ OptimalPair .lower constraints.cones.product
    constraints.A constraints.b c values.x values.y values.s

namespace Scs

theorem quiet_accept {α : Type} (reply : ScsReply α) (raiseOnError : Bool) :
    Quiet (accept reply raiseOnError) := by
  unfold accept
  split_ifs
  · exact quiet_bind (quiet_warn _) fun _ => quiet_pure _
  · exact quiet_pure _
  · exact quiet_throw _
  · exact quiet_pure _

theorem exists_calls {α : Type} (solvers : Solvers α) (constraints : Constraints α n) (c : List α)
    {request : Request α} (log : Log α) {warmStart : Option (List α × List α × List α)}
    (given : startingPoint request.warmStart = .ok warmStart) : ∃ sent,
      (after (solve solvers constraints c request) log).2.calls = log.calls ++ sent ∧ sent ≠ [] ∧
        ∀ call ∈ sent, ∃ settings, call = .scs
          ⟨constraints.A, constraints.b, c, constraints.cones, settings, warmStart⟩ := by
  unfold solve
  dsimp only
  rw [after_ofExcept_bind given, after_scs_bind]
  split
  · refine ⟨[_], quiet_accept _ _ _, List.cons_ne_nil _ _, ?_⟩
    intro call listed
    exact ⟨_, List.mem_singleton.1 listed⟩
  · rw [after_scs_bind]
    refine ⟨[_, _], (quiet_accept _ _ _).trans (List.append_assoc ..), List.cons_ne_nil _ _, ?_⟩
    intro call listed
    rcases List.mem_cons.1 listed with first | later
    · exact ⟨_, first⟩
    · exact ⟨_, List.mem_singleton.1 later⟩

variable {solvers : Solvers ℝ} {constraints : Constraints ℝ n} {c : List ℝ}

theorem succeeds_accept {reply : ScsReply ℝ} {call : ScsCall ℝ} (solves : reply.Solves call)
    (raiseOnError : Bool) : Succeeds (accept reply raiseOnError) fun solution =>
      ∃ values, solution.values = some values ∧ OptimalPair .lower call.cones.product call.A call.b
        call.c values.x values.y values.s := by
  unfold accept
  split_ifs with inaccurate solved
  · exact (succeeds_warn _).bind fun _ _ => succeeds_pure ⟨_, rfl, solves.optimal⟩
  · exact succeeds_pure ⟨_, rfl, solves.optimal⟩
  · exact absurd solves.accepted (by simp [inaccurate, solved])
  · exact absurd solves.accepted (by simp [inaccurate, solved])

/-- The answer that counts is the last one, whether the solver is asked once or twice. -/
theorem solve_sound (request : Request ℝ) : Sound solvers.Solves (constraints.SolvedBy c)
    (solve solvers constraints c request) := by
  apply sound_ofExcept_bind
  intro warmStart _
  apply sound_of_last
  intro log
  rw [after_scs_bind]
  split
  · exact ⟨_, _, _, rfl, quiet_accept _ _, fun solves => succeeds_accept solves _⟩
  · exact ⟨_, _, _, after_scs_bind _ _, quiet_accept _ _, fun solves => succeeds_accept solves _⟩

end Scs

namespace Solve

variable {α : Type} [Scalar α]

def finish (constraints : Constraints α n) (keep : List Bool) (solution : Solution α) :
    Outcome α (Solution α) :=
  match solution.values with
  | none => return solution
  | some values =>
    if keep.all id then return solution
    else do return { solution with values := some (← constraints.restoreFree keep values) }

theorem full_eq (solvers : Solvers α) (constraints : Constraints α n) (c : List α)
    (request : Request α) : full solvers constraints c request =
      (monadLift constraints.dropFree : Consulting α _) >>= fun dropped =>
        reduced solvers dropped.1 c request >>= fun solution =>
          monadLift (finish constraints dropped.2 solution) := by
  unfold full
  refine congrArg (_ >>= ·) (funext fun dropped => ?_)
  refine congrArg (_ >>= ·) (funext fun solution => ?_)
  unfold finish
  cases solution.values with
  | none => rfl
  | some values =>
    dsimp only
    split
    · rfl
    · cases constraints.restoreFree dropped.2 values with
      | error cause => rfl
      | ok whole => rfl

theorem calls_full {solvers : Solvers α} {constraints reduced : Constraints α n} {c : List α}
    {request : Request α} {log : Log α} {keep : List Bool}
    (dropped : constraints.dropFree = .ok (reduced, keep)) :
    (after (full solvers constraints c request) log).2.calls =
      (after (Solve.reduced solvers reduced c request) log).2.calls := by
  rw [full_eq, after_ofExcept_bind dropped]
  exact calls_bind fun _ => quiet_ofExcept _

end Solve

end ConicDerivative
