import ConicDerivative.Proofs.SolverSoundness

/-!
Failures that are laid on a solver. A run can be asked not to end so. SCS hears of it, ECOS and
Clarabel do not: with them the run still fails whenever the last answer it gets is refused.
-/

namespace ConicDerivative

open Outcomes Loose Consulting

variable {α β γ : Type} {n : Nat}

def Failure.BlamesSolver (cause : Failure α) : Prop := cause.category = .solver

def Blameless (outcome : Outcome α β) : Prop := FailsWith (fun cause => ¬cause.BlamesSolver) outcome

theorem not_blamesSolver_layout (cause : LayoutError) :
    ¬(Failure.layout cause : Failure α).BlamesSolver := by
  cases cause <;> exact Category.noConfusion

theorem blameless_layout (given : Except LayoutError β) :
    Blameless (monadLift given : Outcome α β) := by
  cases given with
  | ok value => exact failsWith_ok value
  | error cause => exact failsWith_error (not_blamesSolver_layout cause)

theorem blameless_invalid {category : Category} (other : category ≠ .solver) :
    Blameless (.error (.invalid category) : Outcome α β) := failsWith_error other

namespace Loose

variable {m : Nat}

theorem blameless_gather (x : List α) (places : List Nat) : Blameless (gather x places) := by
  unfold gather
  cases places.mapM (x[·]?) with
  | none => exact blameless_invalid (by decide)
  | some values => exact failsWith_ok values

theorem blameless_scatter (x : List α) (places : List Nat) (values : List α) :
    Blameless (scatter x places values) := by
  unfold scatter
  split
  · exact failsWith_ok _
  · split_ifs
    · exact failsWith_ok _
    · exact blameless_invalid (by decide)

theorem blameless_takeRows (A : Sparse α m n) (rows : List Nat) : Blameless (takeRows A rows) := by
  unfold takeRows
  split_ifs
  · exact failsWith_ok _
  · exact blameless_invalid (by decide)

theorem blameless_mulVec [Scalar α] (A : Sparse α m n) (x : List α) : Blameless (mulVec A x) := by
  unfold mulVec
  split_ifs
  · exact failsWith_ok _
  · exact blameless_invalid (by decide)

theorem blameless_zipWith (f : α → α → α) (x y : List α) : Blameless (zipWith f x y) := by
  unfold zipWith
  split
  · exact failsWith_ok _
  · exact failsWith_ok _
  · split_ifs
    · exact failsWith_ok _
    · exact blameless_invalid (by decide)

end Loose

namespace Constraints

theorem blameless_dropFree (constraints : Constraints α n) : Blameless constraints.dropFree := by
  refine failsWith_bind (blameless_layout _) fun blocks => ?_
  dsimp only
  split
  · exact failsWith_ok _
  · refine failsWith_bind (blameless_takeRows _ _) fun A => ?_
    split
    · exact blameless_invalid (by decide)
    · exact failsWith_bind (blameless_gather _ _) fun b => failsWith_ok _

theorem blameless_slack [Scalar α] (constraints : Constraints α n) (x : List α) :
    Blameless (constraints.slack x) :=
  failsWith_bind (blameless_mulVec _ _) fun _ => blameless_zipWith _ _ _

theorem blameless_restoreFree [Scalar α] (constraints : Constraints α n) (keep : List Bool)
    (values : Values α) : Blameless (constraints.restoreFree keep values) :=
  failsWith_bind (blameless_slack _ _) fun _ => failsWith_bind (blameless_scatter _ _ _) fun _ =>
    failsWith_bind (blameless_scatter _ _ _) fun _ => failsWith_ok _

end Constraints

namespace Consulting

def Blames (run : Consulting α β) (log : Log α) : Prop :=
  ∃ cause, (after run log).1 = .error cause ∧ cause.BlamesSolver

/-- A solver is blamed just if the run makes calls and the answer to the last one is bad. -/
def BlamesJustIf (Bad : Nat → Call α → Prop) (run : Consulting α β) : Prop :=
  ∀ log, Blames run log ↔ ∃ earlier call, (after run log).2.calls = earlier ++ [call] ∧
    log.calls.length ≤ earlier.length ∧ Bad earlier.length call

variable {run : Consulting α β} {f : β → Consulting α γ} {log : Log α}
  {Bad : Nat → Call α → Prop}

theorem not_blames_ofExcept {outcome : Outcome α β} (blameless : Blameless outcome) :
    ¬Blames (monadLift outcome : Consulting α β) log := by
  rintro ⟨cause, failed, blamed⟩
  cases outcome with
  | ok value => cases failed
  | error other =>
    cases failed
    exact blameless _ rfl blamed

theorem not_blames_pure (value : β) : ¬Blames (pure value : Consulting α β) log := by
  rintro ⟨cause, failed, _⟩
  cases failed

theorem not_blames_warn (warning : Warning) : ¬Blames (warn warning : Consulting α Unit) log := by
  rintro ⟨cause, failed, _⟩
  cases failed

theorem blames_throw (cause : Failure α) :
    Blames (throw cause : Consulting α β) log ↔ cause.BlamesSolver := by
  constructor
  · rintro ⟨other, failed, blamed⟩
    cases failed
    exact blamed
  · intro blamed
    exact ⟨cause, rfl, blamed⟩

theorem blames_bind (rest : ∀ value log, ¬Blames (f value) log) :
    Blames (run >>= f) log ↔ Blames run log := by
  unfold Blames
  rw [after_bind]
  cases ended : (after run log).1 with
  | ok value =>
    constructor
    · intro blamed
      exact absurd blamed (rest value _)
    · rintro ⟨cause, failed, _⟩
      cases failed
  | error cause => simp only [Except.error.injEq, exists_eq_left']

theorem not_blames_bind (first : ∀ log, ¬Blames run log) (rest : ∀ value log, ¬Blames (f value) log) :
    ¬Blames (run >>= f) log := by
  rw [blames_bind rest]
  exact first log

theorem blamesJustIf_of_quiet (quiet : Quiet run) (blameless : ∀ log, ¬Blames run log) :
    BlamesJustIf Bad run := by
  intro log
  refine iff_of_false (blameless log) ?_
  rintro ⟨earlier, call, calls, fresh, _⟩
  exact absurd (quiet.length_lt calls) (not_lt.2 fresh)

theorem blamesJustIf_ofExcept_bind {outcome : Outcome α β} (blameless : Blameless outcome)
    (rest : ∀ value, BlamesJustIf Bad (f value)) :
    BlamesJustIf Bad ((monadLift outcome : Consulting α β) >>= f) := by
  cases outcome with
  | ok value => exact rest value
  | error cause =>
    have blameless := blameless cause rfl
    exact blamesJustIf_of_quiet (fun _ => rfl) fun log => (blames_throw cause).not.2 blameless

theorem blamesJustIf_layout_bind {given : Except LayoutError β}
    (rest : ∀ value, BlamesJustIf Bad (f value)) :
    BlamesJustIf Bad ((liftM given : Consulting α β) >>= f) := by
  cases given with
  | ok value => exact rest value
  | error cause =>
    exact blamesJustIf_of_quiet (fun _ => rfl) fun log =>
      (blames_throw _).not.2 (not_blamesSolver_layout cause)

theorem blamesJustIf_guard {refused : Prop} [Decidable refused] {cause : Failure α}
    {f : Unit → Consulting α γ} (other : ¬cause.BlamesSolver) (rest : BlamesJustIf Bad (f ())) :
    BlamesJustIf Bad (if refused then throw cause >>= f else f ()) := by
  split_ifs
  · exact blamesJustIf_of_quiet (fun _ => rfl) fun log => (blames_throw cause).not.2 other
  · exact rest

theorem BlamesJustIf.bind (first : BlamesJustIf Bad run) (quiet : ∀ value, Quiet (f value))
    (rest : ∀ value log, ¬Blames (f value) log) : BlamesJustIf Bad (run >>= f) := by
  intro log
  rw [blames_bind rest, calls_bind quiet]
  exact first log

theorem blamesJustIf_of_last (last : ∀ log, ∃ (earlier : List (Call α)) (call : Call α)
    (rest : Consulting α β), after run log = after rest ⟨earlier ++ [call], log.warnings⟩ ∧
      log.calls.length ≤ earlier.length ∧ Quiet rest ∧
      ∀ log, Blames rest log ↔ Bad earlier.length call) : BlamesJustIf Bad run := by
  intro log
  obtain ⟨earlier, call, rest, same, fresh, quiet, blames⟩ := last log
  have whole : Blames run log ↔ Blames rest ⟨earlier ++ [call], log.warnings⟩ := by
    unfold Blames
    rw [same]
  rw [whole, blames, same, quiet]
  constructor
  · intro bad
    exact ⟨earlier, call, rfl, fresh, bad⟩
  · rintro ⟨earlier', call', calls, _, bad⟩
    obtain ⟨rfl, single⟩ := List.append_inj' calls rfl
    cases single
    exact bad

variable {solvers : Solvers α}

theorem blamesJustIf_ecos_bind {call : EcosCall α} {f : EcosReply α → Consulting α β}
    (quiet : ∀ reply, Quiet (f reply))
    (rest : ∀ count log, Blames (f (solvers.ecos count call)) log ↔ Bad count (.ecos call)) :
    BlamesJustIf Bad (ecos solvers call >>= f) :=
  blamesJustIf_of_last fun log => ⟨log.calls, .ecos call, _, rfl, le_rfl, quiet _, rest _⟩

theorem blamesJustIf_clarabel_bind {call : ClarabelCall α} {f : ClarabelReply α → Consulting α β}
    (quiet : ∀ reply, Quiet (f reply))
    (rest : ∀ count log, Blames (f (solvers.clarabel count call)) log ↔
      Bad count (.clarabel call)) : BlamesJustIf Bad (clarabel solvers call >>= f) :=
  blamesJustIf_of_last fun log => ⟨log.calls, .clarabel call, _, rfl, le_rfl, quiet _, rest _⟩

end Consulting

/-- An answer without a solution: the program has none, or the solver broke down. -/
def Ecos.Refuses (flag : Int) : Prop := flag < 0 ∨ flag ∈ [1, 2, 11, 12]

def Clarabel.Refuses (status : String) : Prop := status ≠ "Solved" ∧ status ≠ "AlmostSolved"

def Solvers.Refuse (solvers : Solvers α) (count : Nat) : Call α → Prop
  | .scs _ => False
  | .ecos call => Ecos.Refuses (solvers.ecos count call).exitFlag
  | .clarabel call => Clarabel.Refuses (solvers.clarabel count call).status

variable {solvers : Solvers α} {constraints : Constraints α n} {c : List α} {request : Request α}

namespace Scs

theorem not_blames_accept (reply : ScsReply α) (log : Log α) : ¬Blames (accept reply false) log := by
  unfold accept
  split_ifs with inaccurate solved raised
  · exact not_blames_bind (fun _ => not_blames_warn _) fun _ _ => not_blames_pure _
  · exact not_blames_pure _
  · exact raised.elim
  · exact not_blames_pure _

theorem solve_blamesJustIf (forgiving : request.raiseOnError = false) :
    BlamesJustIf solvers.Refuse (solve solvers constraints c request) := by
  have start : Blameless (startingPoint request.warmStart : Outcome α _) := by
    unfold startingPoint
    split
    · exact failsWith_ok _
    · exact failsWith_ok _
    · exact blameless_invalid (by decide)
  refine blamesJustIf_ofExcept_bind start fun warmStart => ?_
  apply blamesJustIf_of_last
  intro log
  rw [after_scs_bind, forgiving]
  -- An inaccurate answer may be followed by another call; whichever comes last is no failure.
  split
  · exact ⟨_, _, _, rfl, le_rfl, quiet_accept _ _, fun _ => iff_of_false (not_blames_accept _ _) id⟩
  · refine ⟨_, _, _, after_scs_bind _ _, ?_, quiet_accept _ _, fun _ =>
      iff_of_false (not_blames_accept _ _) id⟩
    simp

end Scs

namespace Ecos

theorem statusText_eq_none {flag : Int} : statusText flag = none ↔ flag ∉ [1, 2, 11, 12] := by
  unfold statusText
  split <;> simp_all

theorem blames_accept (flag : Int) (log : Log α) :
    Blames (accept flag : Consulting α String) log ↔ Refuses flag := by
  unfold accept
  split_ifs with solved inaccurate broken
  · exact iff_of_false (not_blames_pure _) (by simp [Refuses, solved])
  · refine iff_of_false ?_ (by simp [Refuses, inaccurate])
    exact not_blames_bind (fun _ => not_blames_warn _) fun _ _ => not_blames_pure _
  · exact iff_of_true ((blames_throw _).2 rfl) (.inl broken)
  · cases text : statusText flag with
    | none =>
      refine iff_of_false ((blames_throw _).not.2 Category.noConfusion) ?_
      rintro (negative | listed)
      · exact broken negative
      · exact statusText_eq_none.1 text listed
    | some status =>
      refine iff_of_true ((blames_throw _).2 rfl) (.inr ?_)
      by_contra unlisted
      rw [statusText_eq_none.2 unlisted] at text
      cases text

theorem blameless_equations (cones : ConeTable) (rows entries : Nat) :
    Blameless (equations cones rows entries : Outcome α Nat) := by
  unfold equations
  split
  · exact failsWith_ok _
  · exact failsWith_ok _
  · exact failsWith_ok _
  · split
    · exact blameless_invalid (by decide)
    · exact failsWith_ok _
  · exact blameless_invalid (by decide)

theorem blameless_inequalityCones (cones : ConeTable) :
    Blameless (inequalityCones cones : Outcome α ConeTable) := by
  unfold inequalityCones
  dsimp only
  split
  · exact failsWith_ok _
  · refine failsWith_bind ?_ fun sizes => failsWith_ok _
    unfold sizes
    split
    · exact failsWith_ok _
    · exact failsWith_ok _
    · exact blameless_invalid (by decide)

theorem solve_blamesJustIf [Scalar α] :
    BlamesJustIf solvers.Refuse (solve solvers constraints c request) := by
  refine blamesJustIf_guard Category.noConfusion ?_
  refine blamesJustIf_ofExcept_bind (blameless_equations _ _ _) fun count => ?_
  refine blamesJustIf_ofExcept_bind (blameless_takeRows _ _) fun G => ?_
  refine blamesJustIf_ofExcept_bind (blameless_takeRows _ _) fun A => ?_
  refine blamesJustIf_guard Category.noConfusion ?_
  refine blamesJustIf_ofExcept_bind (blameless_inequalityCones _) fun cones => ?_
  apply blamesJustIf_ecos_bind
  · intro reply
    exact quiet_bind (quiet_accept _) fun _ => quiet_bind (quiet_ofExcept _) fun _ => quiet_pure _
  · intro count log
    rw [blames_bind, blames_accept]
    · rfl
    · intro status log
      exact not_blames_bind (fun _ => not_blames_ofExcept (Constraints.blameless_slack _ _))
        fun _ _ => not_blames_pure _

end Ecos

namespace Clarabel

theorem statusText_solved {status : String} :
    statusText status = "Solved" ↔ status = "Solved" := by
  unfold statusText
  split <;> simp_all

theorem statusText_inaccurate {status : String} :
    statusText status = "Solved/Inaccurate" ↔ status = "AlmostSolved" := by
  unfold statusText
  split <;> simp_all

theorem blames_finish {status : String} {f : Unit → Consulting α β} {log : Log α}
    (rest : ∀ log, ¬Blames (f ()) log) :
    Blames (if statusText status = "Solved/Inaccurate" then warn .inaccurate >>= f
      else if statusText status ≠ "Solved" then
        throw (.solverStatus .clarabel (statusText status)) >>= f
      else f ()) log ↔ Refuses status := by
  have refuses : Refuses status ↔
      statusText status ≠ "Solved" ∧ statusText status ≠ "Solved/Inaccurate" :=
    and_congr statusText_solved.not.symm statusText_inaccurate.not.symm
  rw [refuses]
  split_ifs with inaccurate refused
  · refine iff_of_false ?_ fun both => both.2 inaccurate
    exact not_blames_bind (fun _ => not_blames_warn _) fun _ => rest
  · exact iff_of_true ⟨_, rfl, rfl⟩ ⟨refused, inaccurate⟩
  · exact iff_of_false (rest log) fun both => refused both.1

theorem blameless_rowOrder (blocks : List Block) (size : Nat) :
    Blameless (rowOrder blocks size : Outcome α (List Nat)) := by
  refine failsWith_foldlM (fun order block => ?_) _ _
  unfold placeBlock
  dsimp only
  split
  · exact failsWith_ok _
  · split
    · exact blameless_invalid (by decide)
    · exact failsWith_ok _

theorem solve_blamesJustIf [Scalar α] :
    BlamesJustIf solvers.Refuse (solve solvers constraints c request) := by
  refine blamesJustIf_layout_bind fun blocks => ?_
  refine blamesJustIf_ofExcept_bind (blameless_rowOrder _ _) fun order => ?_
  refine blamesJustIf_ofExcept_bind (blameless_takeRows _ _) fun A => ?_
  refine blamesJustIf_ofExcept_bind (blameless_gather _ _) fun b => ?_
  apply blamesJustIf_clarabel_bind
  · intro reply
    exact quiet_finish (quiet_bind (quiet_ofExcept _) fun _ =>
      quiet_bind (quiet_ofExcept _) fun _ => quiet_pure _)
  · intro count log
    apply blames_finish
    intro log
    exact not_blames_bind (fun _ => not_blames_ofExcept (blameless_scatter _ _ _)) fun _ _ =>
      not_blames_bind (fun _ => not_blames_ofExcept (blameless_scatter _ _ _)) fun _ _ =>
        not_blames_pure _

end Clarabel

namespace Solve

theorem blameless_methodFor (cones : ConeTable) (method : Setting α) :
    Blameless (methodFor cones method : Outcome α String) := by
  unfold methodFor
  split
  · exact failsWith_ok _
  · exact failsWith_ok _
  · exact blameless_invalid (by decide)

section

variable [Scalar α]

theorem blameless_finish (constraints : Constraints α n) (keep : List Bool)
    (solution : Solution α) : Blameless (finish constraints keep solution) := by
  unfold finish
  split
  · exact failsWith_ok _
  · split
    · exact failsWith_ok _
    · exact failsWith_bind (constraints.blameless_restoreFree _ _) fun _ => failsWith_ok _

theorem reduced_blamesJustIf (forgiving : request.raiseOnError = false) :
    BlamesJustIf solvers.Refuse (reduced solvers constraints c request) := by
  have refused {cause : Failure α} (other : ¬cause.BlamesSolver) :
      BlamesJustIf solvers.Refuse (throw cause : Consulting α (Solution α)) :=
    blamesJustIf_of_quiet (quiet_throw _) fun _ => (blames_throw _).not.2 other
  refine blamesJustIf_ofExcept_bind (blameless_methodFor _ _) fun name => ?_
  split
  · exact Scs.solve_blamesJustIf forgiving
  · split
    · exact refused Category.noConfusion
    · exact Ecos.solve_blamesJustIf
  · split
    · exact refused Category.noConfusion
    · exact Clarabel.solve_blamesJustIf
  · exact refused Category.noConfusion

/--
A run that is asked not to lay a failure on a solver still does so, just if the last answer that it
gets is one of ECOS or Clarabel and is refused.
-/
theorem full_blames_iff (solvers : Solvers α) (constraints : Constraints α n) (c : List α)
    (log : Log α) (forgiving : request.raiseOnError = false) :
    (∃ cause, (after (full solvers constraints c request) log).1 = .error cause ∧
      cause.BlamesSolver) ↔
    ∃ earlier call, (after (full solvers constraints c request) log).2.calls = earlier ++ [call] ∧
      log.calls.length ≤ earlier.length ∧ solvers.Refuse earlier.length call := by
  revert log
  change BlamesJustIf solvers.Refuse (full solvers constraints c request)
  rw [full_eq]
  refine blamesJustIf_ofExcept_bind constraints.blameless_dropFree fun dropped => ?_
  exact (reduced_blamesJustIf forgiving).bind (fun _ => quiet_ofExcept _) fun _ _ =>
    not_blames_ofExcept (blameless_finish _ _ _)

end

noncomputable def twoBounds : Constraints ℝ 1 :=
  { equationAndFree with cones := [(.cone .nonnegative, .integer 2)] }

noncomputable def infeasible : Solvers ℝ where
  scs _ _ := ⟨"infeasible", [], [], []⟩
  ecos _ _ := ⟨1, [], [], [], .absent, .absent, .absent, .absent⟩
  clarabel _ _ := ⟨"PrimalInfeasible", [], [], [], .absent, .absent, .absent⟩

def forgivingRequest (method : String) : Request ℝ :=
  { method := .text method, raiseOnError := false }

theorem full_not_blamed_of_infeasible : ¬∃ cause,
    (after (full infeasible twoBounds [-1] (forgivingRequest "SCS")) ⟨[], []⟩).1 = .error cause ∧
      cause.BlamesSolver := by
  rw [full_blames_iff infeasible twoBounds [-1] ⟨[], []⟩ rfl]
  rintro ⟨earlier, call, calls, _, refused⟩
  have dropped : twoBounds.dropFree = .ok (twoBounds, [true, true]) := rfl
  have start : Scs.startingPoint (forgivingRequest "SCS").warmStart = .ok none := rfl
  obtain ⟨sent, same, _, each⟩ := Scs.exists_calls infeasible twoBounds [-1] ⟨[], []⟩ start
  rw [calls_full dropped] at calls
  have whole : earlier ++ [call] = sent := calls.symm.trans same
  have listed : call ∈ sent := whole ▸ List.mem_append_right earlier List.mem_cons_self
  obtain ⟨settings, rfl⟩ := each call listed
  exact refused

theorem full_blamed_of_infeasible :
    (after (full infeasible twoBounds [-1] (forgivingRequest "ECOS")) ⟨[], []⟩).1 =
        .error (.solverStatus .ecos "Infeasible") ∧
      (after (full infeasible twoBounds [-1] (forgivingRequest "CLARABEL")) ⟨[], []⟩).1 =
        .error (.solverStatus .clarabel "Infeasible") := ⟨rfl, rfl⟩

end Solve

end ConicDerivative
