import ConicDerivative.Proofs.EquationSplit
import ConicDerivative.Proofs.SolverAnswers

/-!
Solvers whose answers depend on the call alone, and not on how many calls there were before. With
such solvers a run that consults them ends the same whatever was asked earlier, so programs that
are solved one after another end as each of them does on its own.
-/

namespace ConicDerivative

variable {α : Type}

structure Solvers.Steady (solvers : Solvers α) : Prop where
  scs : ∀ count count' call, solvers.scs count call = solvers.scs count' call
  ecos : ∀ count count' call, solvers.ecos count call = solvers.ecos count' call
  clarabel : ∀ count count' call, solvers.clarabel count call = solvers.clarabel count' call

namespace Consulting

variable {β γ : Type} {run : Consulting α β} {f : β → Consulting α γ}

/-- How the run ends does not depend on what was asked before. -/
def Steady (run : Consulting α β) : Prop := ∀ log log', (after run log).1 = (after run log').1

theorem Steady.bind (first : Steady run) (rest : ∀ value, Steady (f value)) :
    Steady (run >>= f) := by
  intro log log'
  rw [after_bind, after_bind, first log log']
  cases (after run log').1 with
  | ok value => exact rest value _ _
  | error cause => rfl

theorem steady_ofExcept (outcome : Outcome α β) :
    Steady (monadLift outcome : Consulting α β) := by
  intro log log'
  cases outcome with
  | ok value => rfl
  | error cause => rfl

theorem steady_layout (given : Except LayoutError β) :
    Steady (liftM given : Consulting α β) := by
  intro log log'
  cases given with
  | ok value => rfl
  | error cause => rfl

theorem steady_pure (value : β) : Steady (pure value : Consulting α β) := fun _ _ => rfl

theorem steady_throw (cause : Failure α) : Steady (throw cause : Consulting α β) :=
  fun _ _ => rfl

theorem steady_warn (warning : Warning) : Steady (warn warning : Consulting α Unit) :=
  fun _ _ => rfl

theorem steady_guard {refused : Prop} [Decidable refused] {cause : Failure α}
    {f : Unit → Consulting α γ} (rest : Steady (f ())) :
    Steady (if refused then throw cause >>= f else f ()) := by
  split_ifs
  · exact fun _ _ => rfl
  · exact rest

theorem after_mapM {outcome : β → Outcome α γ} {items : List β}
    (ends : ∀ item ∈ items, ∀ log, (after (f item) log).1 = outcome item) (log : Log α) :
    (after (items.mapM f) log).1 = items.mapM outcome := by
  induction items generalizing log with
  | nil => rfl
  | cons item items ih =>
    rw [List.mapM_cons, List.mapM_cons, after_bind, ends item List.mem_cons_self]
    cases outcome item with
    | error cause => rfl
    | ok first =>
      change (after (items.mapM f >>= fun rest => pure (first :: rest)) _).1 = _
      rw [after_bind, ih fun item listed => ends item (List.mem_cons_of_mem _ listed)]
      cases items.mapM outcome with
      | error cause => rfl
      | ok rest => rfl

end Consulting

open Consulting

theorem Scs.steady_accept (reply : ScsReply α) (raiseOnError : Bool) :
    Steady (Scs.accept reply raiseOnError) := by
  unfold Scs.accept
  split_ifs
  · exact (steady_warn _).bind fun _ => steady_pure _
  · exact steady_pure _
  · exact steady_throw _
  · exact steady_pure _

theorem Ecos.steady_accept (flag : Int) : Steady (Ecos.accept flag : Consulting α String) := by
  unfold Ecos.accept
  split_ifs
  · exact steady_pure _
  · exact (steady_warn _).bind fun _ => steady_pure _
  · exact steady_throw _
  · split
    · exact steady_throw _
    · exact steady_throw _

namespace Solvers.Steady

variable {solvers : Solvers α} (steady : solvers.Steady)

include steady

theorem steady_scs (call : ScsCall α) : Consulting.Steady (Consulting.scs solvers call) :=
  fun _ _ => congrArg Except.ok (steady.scs _ _ call)

theorem steady_ecos (call : EcosCall α) : Consulting.Steady (Consulting.ecos solvers call) :=
  fun _ _ => congrArg Except.ok (steady.ecos _ _ call)

theorem steady_clarabel (call : ClarabelCall α) :
    Consulting.Steady (Consulting.clarabel solvers call) :=
  fun _ _ => congrArg Except.ok (steady.clarabel _ _ call)

variable {n : Nat} (constraints : Constraints α n) (c : List α) (request : Request α)

theorem scs_solve : Consulting.Steady (Scs.solve solvers constraints c request) := by
  refine (steady_ofExcept _).bind fun warmStart => (steady.steady_scs _).bind fun reply => ?_
  split
  · exact Scs.steady_accept _ _
  · exact (steady.steady_scs _).bind fun _ => Scs.steady_accept _ _

variable [Scalar α]

theorem ecos_solve : Consulting.Steady (Ecos.solve solvers constraints c request) := by
  refine steady_guard ?_
  refine (steady_ofExcept _).bind fun count => ?_
  refine (steady_ofExcept _).bind fun G => (steady_ofExcept _).bind fun A => steady_guard ?_
  refine (steady_ofExcept _).bind fun cones => (steady.steady_ecos _).bind fun reply => ?_
  refine (Ecos.steady_accept _).bind fun status => (steady_ofExcept _).bind fun s => ?_
  exact steady_pure _

theorem clarabel_solve : Consulting.Steady (Clarabel.solve solvers constraints c request) := by
  refine (steady_layout _).bind fun blocks => (steady_ofExcept _).bind fun order => ?_
  refine (steady_ofExcept _).bind fun A => (steady_ofExcept _).bind fun b => ?_
  refine (steady.steady_clarabel _).bind fun reply => ?_
  dsimp only
  split_ifs
  · refine (steady_warn _).bind fun _ => (steady_ofExcept _).bind fun y => ?_
    exact (steady_ofExcept _).bind fun s => steady_pure _
  · exact fun _ _ => rfl
  · exact (steady_ofExcept _).bind fun y => (steady_ofExcept _).bind fun s => steady_pure _

theorem reduced : Consulting.Steady (Solve.reduced solvers constraints c request) := by
  refine (steady_ofExcept _).bind fun method => ?_
  split
  · exact steady.scs_solve _ _ _
  · split_ifs
    · exact steady_throw _
    · exact steady.ecos_solve _ _ _
  · split_ifs
    · exact steady_throw _
    · exact steady.clarabel_solve _ _ _
  · exact steady_throw _

theorem full : Consulting.Steady (Solve.full solvers constraints c request) := by
  rw [Solve.full_eq]
  exact (steady_ofExcept _).bind fun dropped =>
    (steady.reduced _ _ _).bind fun solution => steady_ofExcept _

theorem withDerivative [EigenSolver α] (A : Data α) (b c : Tensor α) (cones : ConeTable)
    (request : Request α) (mode : Setting α) (derivative : Option (Settings α)) :
    Consulting.Steady (Solve.withDerivative solvers A b c cones request mode derivative) := by
  refine (steady_ofExcept _).bind fun program => (steady.full _ _ _).bind fun solution => ?_
  refine (steady_ofExcept _).bind fun found => ?_
  cases derivative with
  | some settings => exact (steady_ofExcept _).bind fun opened => steady_pure _
  | none => exact steady_throw _

end Solvers.Steady

end ConicDerivative
