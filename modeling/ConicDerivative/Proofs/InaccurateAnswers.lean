import ConicDerivative.Proofs.SolverSoundness

/-!
An inaccurate answer may come of the acceleration of the solver, which is then asked once more
without it, unless the caller set the acceleration. Whatever comes back then is what the run ends on:
it does not go back to the first answer.
-/

namespace ConicDerivative

open Consulting

variable {α : Type}

namespace Settings

open Function

variable {settings : Settings α} {name : String} {value : Setting α}

theorem get?_cons (entry : String × Setting α) (settings : Settings α) :
    get? (entry :: settings) = update settings.get? entry.1 (some entry.2) := by
  funext other
  unfold get?
  rw [List.find?_cons, update_apply]
  by_cases here : other = entry.1
  · rw [if_pos here, here, beq_self_eq_true]
    rfl
  · rw [if_neg here, beq_false_of_ne (Ne.symm here)]

theorem any_eq_isSome : settings.any (·.1 == name) = (settings.get? name).isSome := by
  rw [get?, Option.isSome_map, List.isSome_find?]

theorem get?_erase : (settings.erase name).get? = update settings.get? name none := by
  unfold erase
  induction settings with
  | nil => exact (update_eq_self name _).symm
  | cons entry rest ih =>
    rw [List.filter_cons, get?_cons]
    by_cases gone : entry.1 = name
    · have dropped : ¬(entry.1 != name) = true := by simpa using gone
      rw [if_neg dropped, ih, gone, update_idem]
    · have stays : (entry.1 != name) = true := by simpa using gone
      rw [if_pos stays, get?_cons, ih, update_comm (Ne.symm gone)]

theorem get?_replace :
    get? (settings.map fun entry => if entry.1 == name then (name, value) else entry) =
      update settings.get? name ((settings.get? name).map fun _ => value) := by
  induction settings with
  | nil => exact (update_eq_self name _).symm
  | cons entry rest ih =>
    rw [List.map_cons, get?_cons, get?_cons, ih]
    by_cases here : entry.1 = name
    · rw [if_pos (beq_iff_eq.2 here), here, update_idem, update_idem, update_self]
      rfl
    · rw [if_neg (mt beq_iff_eq.1 here), update_of_ne (Ne.symm here), update_comm (Ne.symm here)]

theorem get?_concat (absent : settings.get? name = none) :
    get? (settings ++ [(name, value)]) = update settings.get? name (some value) := by
  funext other
  have last := congrFun (get?_cons (name, value) ([] : Settings α)) other
  have joined : get? (settings ++ [(name, value)]) other =
      (settings.get? other).or (get? [(name, value)] other) := by
    unfold get?
    rw [List.find?_append, Option.map_or]
  rw [joined, last, update_apply, update_apply]
  by_cases here : other = name
  · rw [if_pos here, if_pos here, here, absent, Option.none_or]
  · rw [if_neg here, if_neg here]
    exact Option.or_none

theorem get?_insert : (settings.insert name value).get? =
    update settings.get? name (some value) := by
  unfold insert
  rw [any_eq_isSome]
  cases present : settings.get? name with
  | some earlier =>
    rw [Option.isSome_some, if_pos rfl, get?_replace, present]
    rfl
  | none =>
    rw [Option.isSome_none, if_neg Bool.false_ne_true]
    exact get?_concat present

theorem get?_withDefault : (settings.withDefault name value).get? =
    update settings.get? name (some ((settings.get? name).getD value)) := by
  unfold withDefault
  rw [any_eq_isSome]
  cases present : settings.get? name with
  | some earlier =>
    rw [Option.isSome_some, if_pos rfl, Option.getD_some, ← present, update_eq_self]
  | none =>
    rw [Option.isSome_none, if_neg Bool.false_ne_true]
    exact get?_concat present

end Settings

namespace Scs

open Function

/-- The one accuracy is gone, and stands in both of the others. -/
structure SplitsAccuracy (given told : Settings α) : Prop where
  gone : told.get? "eps" = none
  both : ∀ eps, given.get? "eps" = some eps →
    told.get? "eps_abs" = some eps ∧ told.get? "eps_rel" = some eps

structure Tells (given told : Settings α) : Prop extends SplitsAccuracy given told where
  silent : told.get? "verbose" = some ((given.get? "verbose").getD (.flag false))
  kept : ∀ name, name ≠ "eps" → name ≠ "verbose" →
    (name = "eps_abs" ∨ name = "eps_rel" → given.get? "eps" = none) →
    told.get? name = given.get? name

variable {given : Settings α}

theorem get?_settings_of_none (none_given : given.get? "eps" = none) : (settings given).get? =
    update given.get? "verbose" (some ((given.get? "verbose").getD (.flag false))) := by
  unfold settings
  rw [none_given]
  exact Settings.get?_withDefault

theorem get?_settings_of_some {eps : Setting α} (present : given.get? "eps" = some eps) :
    (settings given).get? =
      update (update (update (update given.get? "eps_abs" (some eps)) "eps_rel" (some eps))
        "eps" none) "verbose" (some ((given.get? "verbose").getD (.flag false))) := by
  unfold settings
  rw [present]
  dsimp only
  rw [Settings.get?_withDefault, Settings.get?_erase, Settings.get?_insert, Settings.get?_insert,
    update_of_ne (by decide), update_of_ne (by decide), update_of_ne (by decide)]

theorem tells_settings (given : Settings α) : Tells given (settings given) := by
  cases whole : given.get? "eps" with
  | none =>
    have told := get?_settings_of_none whole
    have gone : (settings given).get? "eps" = none := by
      rw [told, update_of_ne (by decide), whole]
    refine ⟨⟨gone, ?_⟩, ?_, ?_⟩
    · intro eps present
      cases whole.symm.trans present
    · rw [told, update_self]
    · intro name _ loud _
      rw [told, update_of_ne loud]
  | some eps =>
    have told := get?_settings_of_some whole
    have gone : (settings given).get? "eps" = none := by
      rw [told, update_of_ne (by decide), update_self]
    have relative : (settings given).get? "eps_rel" = some eps := by
      rw [told, update_of_ne (by decide), update_of_ne (by decide), update_self]
    have absolute : (settings given).get? "eps_abs" = some eps := by
      rw [told, update_of_ne (by decide), update_of_ne (by decide), update_of_ne (by decide),
        update_self]
    refine ⟨⟨gone, ?_⟩, ?_, ?_⟩
    · intro other present
      cases whole.symm.trans present
      exact ⟨absolute, relative⟩
    · rw [told, update_self]
    · intro name not_whole loud free
      have not_absolute : name ≠ "eps_abs" := by
        intro same
        cases whole.symm.trans (free (.inl same))
      have not_relative : name ≠ "eps_rel" := by
        intro same
        cases whole.symm.trans (free (.inr same))
      rw [told, update_of_ne loud, update_of_ne not_whole, update_of_ne not_relative,
        update_of_ne not_absolute]

theorem SplitsAccuracy.insert {told : Settings α} (splits : SplitsAccuracy given told)
    {name : String} (other : name ∉ ["eps", "eps_abs", "eps_rel"]) (value : Setting α) :
    SplitsAccuracy given (told.insert name value) := by
  simp only [List.mem_cons, List.not_mem_nil, or_false, not_or] at other
  obtain ⟨not_whole, not_absolute, not_relative⟩ := other
  constructor
  · rw [Settings.get?_insert, update_of_ne (Ne.symm not_whole), splits.gone]
  · intro eps present
    rw [Settings.get?_insert, update_of_ne (Ne.symm not_absolute),
      update_of_ne (Ne.symm not_relative)]
    exact splits.both eps present

def found (reply : ScsReply α) : Solution α :=
  ⟨some ⟨reply.x, reply.y, reply.s⟩, [("status", .text reply.status)]⟩

/-- How a run ends on an answer, after the warnings that were there. -/
structure EndsOn (reply : ScsReply α) (raiseOnError : Bool) (earlier : List Warning)
    (ended : Except (Failure α) (Solution α) × Log α) : Prop where
  solved : reply.status.toLower = "solved" →
    ended.1 = .ok (found reply) ∧ ended.2.warnings = earlier
  inaccurate : isInaccurate reply.status = true →
    ended.1 = .ok (found reply) ∧ ended.2.warnings = earlier ++ [.inaccurate]
  refused : isInaccurate reply.status = false → reply.status.toLower ≠ "solved" →
    raiseOnError = true →
    ended.1 = .error (.solverStatus .scs reply.status) ∧ ended.2.warnings = earlier
  blank : isInaccurate reply.status = false → reply.status.toLower ≠ "solved" →
    raiseOnError = false →
    ended.1 = .ok { found reply with values := none } ∧ ended.2.warnings = earlier

theorem not_isInaccurate_of_solved {status : String} (solved : status.toLower = "solved") :
    isInaccurate status = false := by
  rw [isInaccurate, ← Bool.not_eq_true, List.contains_iff_mem]
  have others : ∀ other ∈ ["Solved/Inaccurate", "solved (inaccurate - reached max_iters)",
      "solved (inaccurate - reached time_limit_secs)"], other.toLower ≠ "solved" := by
    decide +kernel
  exact fun listed => others status listed solved

theorem endsOn_accept (reply : ScsReply α) (raiseOnError : Bool) (calls : List (Call α))
    (warnings : List Warning) :
    EndsOn reply raiseOnError warnings (after (accept reply raiseOnError) ⟨calls, warnings⟩) := by
  unfold accept
  constructor
  · intro solved
    rw [not_isInaccurate_of_solved solved, if_neg Bool.false_ne_true, if_pos solved]
    exact ⟨rfl, rfl⟩
  · intro inaccurate
    rw [if_pos inaccurate]
    exact ⟨rfl, rfl⟩
  · intro accurate unsolved raises
    rw [accurate, if_neg Bool.false_ne_true, if_neg unsolved, if_pos raises]
    exact ⟨rfl, rfl⟩
  · intro accurate unsolved calm
    rw [accurate, if_neg Bool.false_ne_true, if_neg unsolved, calm, if_neg Bool.false_ne_true]
    exact ⟨rfl, rfl⟩

def ask {n : Nat} (constraints : Constraints α n) (c : List α)
    (warmStart : Option (List α × List α × List α)) (settings : Settings α) : ScsCall α :=
  ⟨constraints.A, constraints.b, c, constraints.cones, settings, warmStart⟩

/-- The answer is inaccurate, and the caller left the acceleration alone. -/
def AsksAgain (given : Settings α) (status : String) : Prop :=
  isInaccurate status = true ∧ given.get? "acceleration_lookback" = none

theorem get?_lookback_settings (given : Settings α) :
    (settings given).get? "acceleration_lookback" = given.get? "acceleration_lookback" :=
  (tells_settings given).kept _ (by decide) (by decide) fun accuracy => absurd accuracy (by decide)

theorem retrySettings?_of_asksAgain {status : String} (again : AsksAgain given status) :
    retrySettings? (settings given) status =
      some ((settings given).insert "acceleration_lookback" (.integer 0)) := by
  unfold retrySettings?
  rw [get?_lookback_settings, again.1, again.2]
  rfl

theorem retrySettings?_of_not_asksAgain {status : String} (enough : ¬AsksAgain given status) :
    retrySettings? (settings given) status = none := by
  unfold retrySettings?
  rw [get?_lookback_settings]
  refine if_neg fun both => enough ?_
  rw [Bool.and_eq_true, Option.isNone_iff_eq_none] at both
  exact both

section

variable {n : Nat} {solvers : Solvers α} {constraints : Constraints α n} {c : List α}
  {request : Request α} {log : Log α} {warmStart : Option (List α × List α × List α)}

theorem after_solve_once (start : startingPoint request.warmStart = .ok warmStart)
    {first : ScsCall α} (asked : first = ask constraints c warmStart (settings request.settings))
    (enough : retrySettings? first.settings (solvers.scs log.calls.length first).status = none) :
    after (solve solvers constraints c request) log =
      after (accept (solvers.scs log.calls.length first) request.raiseOnError)
        ⟨log.calls ++ [.scs first], log.warnings⟩ := by
  subst asked
  unfold ask at enough ⊢
  unfold solve
  dsimp only at enough ⊢
  rw [after_ofExcept_bind start, after_scs_bind, enough]

theorem after_solve_twice (start : startingPoint request.warmStart = .ok warmStart)
    {first : ScsCall α} (asked : first = ask constraints c warmStart (settings request.settings))
    {retold : Settings α} (again : retrySettings? first.settings
      (solvers.scs log.calls.length first).status = some retold) :
    let second := ask constraints c warmStart retold
    after (solve solvers constraints c request) log =
      after (accept (solvers.scs (log.calls.length + 1) second) request.raiseOnError)
        ⟨log.calls ++ [.scs first, .scs second], log.warnings⟩ := by
  subst asked
  unfold ask at again ⊢
  unfold solve
  dsimp only at again ⊢
  rw [after_ofExcept_bind start, after_scs_bind, again]
  dsimp only
  rw [after_scs_bind, List.length_append, List.append_assoc]
  rfl

end

/--
The solver is asked a second time just if its first answer is inaccurate and the caller left the
acceleration alone: for the same program from the same point, with the same settings but for the
acceleration. The run ends on the last answer, whatever the first one was.
-/
theorem solve_endsOn_last {n : Nat} (solvers : Solvers α) (constraints : Constraints α n)
    (c : List α) {request : Request α} (log : Log α)
    {warmStart : Option (List α × List α × List α)}
    (start : startingPoint request.warmStart = .ok warmStart) : ∃ told retold,
      Tells request.settings told ∧ SplitsAccuracy request.settings retold ∧
      retold.get? = update told.get? "acceleration_lookback" (some (.integer 0)) ∧
      let run := after (solve solvers constraints c request) log
      let first := ask constraints c warmStart told
      let second := ask constraints c warmStart retold
      let reply := solvers.scs log.calls.length first
      let reply' := solvers.scs (log.calls.length + 1) second
      (AsksAgain request.settings reply.status →
        run.2.calls = log.calls ++ [.scs first, .scs second] ∧
          EndsOn reply' request.raiseOnError log.warnings run) ∧
      (¬AsksAgain request.settings reply.status →
        run.2.calls = log.calls ++ [.scs first] ∧
          EndsOn reply request.raiseOnError log.warnings run) := by
  have tells := tells_settings request.settings
  refine ⟨settings request.settings, _, tells, tells.toSplitsAccuracy.insert (by decide) _,
    Settings.get?_insert, ?_⟩
  dsimp only
  constructor
  · intro again
    rw [after_solve_twice start rfl (retrySettings?_of_asksAgain again)]
    exact ⟨quiet_accept _ _ _, endsOn_accept _ _ _ _⟩
  · intro enough
    rw [after_solve_once start rfl (retrySettings?_of_not_asksAgain enough)]
    exact ⟨quiet_accept _ _ _, endsOn_accept _ _ _ _⟩

noncomputable def failingRetry : Solvers ℝ where
  scs count _ := ⟨if count = 0 then "Solved/Inaccurate" else "Infeasible", [], [], []⟩
  ecos _ _ := ⟨-1, [], [], [], .absent, .absent, .absent, .absent⟩
  clarabel _ _ := ⟨"", [], [], [], .absent, .absent, .absent⟩

noncomputable def oneTolerance : Request ℝ where
  settings := [("eps", .real 1)]

/-- The run fails on the second answer, though the first one would have done. -/
theorem solve_failingRetry :
    (after (solve failingRetry Solve.equationAlone [-1] oneTolerance) ⟨[], []⟩).2.calls.length = 1 + 1 ∧
    (after (solve failingRetry Solve.equationAlone [-1] oneTolerance) ⟨[], []⟩).1 =
      .error (.solverStatus .scs "Infeasible") ∧
    (after (solve failingRetry Solve.equationAlone [-1] oneTolerance) ⟨[], []⟩).2.warnings = [] := by
  have start : startingPoint oneTolerance.warmStart = .ok none := rfl
  obtain ⟨told, retold, _, _, _, twice, _⟩ :=
    solve_endsOn_last failingRetry Solve.equationAlone [-1] ⟨[], []⟩ start
  have inaccurate : isInaccurate "Solved/Inaccurate" = true := by decide +kernel
  have useless : isInaccurate "Infeasible" = false := by decide +kernel
  have unsolved : "Infeasible".toLower ≠ "solved" := by decide +kernel
  obtain ⟨calls, ends⟩ := twice ⟨inaccurate, rfl⟩
  exact ⟨congrArg List.length calls, ends.refused useless unsolved rfl⟩

end Scs

end ConicDerivative
